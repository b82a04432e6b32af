import ChatArgs.Proofs.Parse.Choices
import ChatArgs.Proofs.Parse.Grammar

/-!
# Going over a text

`State.sweep ctx c s` is the state after the tokens behind the place `c`. Its equations
follow the text instead of a list of tokens: a token makes a step, a character between
tokens makes none, and a parse that stops makes none either.
-/

namespace ChatArgs.Parse

open Text

/-! ## The tokens behind a place -/

def Token.reading (kind : TokenKind) (c : Cursor) (text rest : List Char) : Token :=
  ⟨kind, c, c.past text rest⟩

theorem Token.reading_text (kind : TokenKind) {c : Cursor} {text rest : List Char}
    (h : c.rest = text ++ rest) : (Token.reading kind c text rest).text = text :=
  Cursor.textTo_eq_front h

structure Token.In (ctx : Context) (t : Token) : Prop where
  start : t.start.In ctx.content
  stop : t.stop.In ctx.content
  ahead : t.start.offset < t.stop.offset

theorem Token.reading_in {ctx : Context} {d : Delimiters} {kind : TokenKind} {c : Cursor}
    {text rest : List Char} (place : c.In ctx.content) (token : TokenFront d kind text rest)
    (split : c.rest = text ++ rest) : (Token.reading kind c text rest).In ctx :=
  ⟨place, place.past split, Nat.lt_add_of_pos_right (byteLength_pos token.ne_nil)⟩

def tokensAt (d : Delimiters) (c : Cursor) : List Token :=
  tokensFrom d c.rest.length c

/-- As many rounds as there are characters find all tokens. -/
theorem tokensFrom_congr (d : Delimiters) (fuel fuel' : Nat) (c : Cursor)
    (h : c.rest.length ≤ fuel) (h' : c.rest.length ≤ fuel') :
    tokensFrom d fuel c = tokensFrom d fuel' c := by
  induction fuel generalizing fuel' c with
  | zero =>
      have empty : c.rest = [] := by simpa using h
      cases fuel' <;> simp [tokensFrom, empty]
  | succ fuel ih =>
      cases all : c.rest with
      | nil => cases fuel' <;> simp [tokensFrom, all]
      | cons x xs =>
          rw [all, List.length_cons] at h h'
          obtain ⟨fuel', rfl⟩ : ∃ n, fuel' = n + 1 := ⟨fuel' - 1, by omega⟩
          simp only [tokensFrom, all]
          cases found : tokenAt? d (x :: xs) with
          | none =>
              rw [Cursor.next_eq_past all]
              exact ih fuel' _ (by rw [Cursor.past_rest]; omega) (by rw [Cursor.past_rest]; omega)
          | some found' =>
              obtain ⟨kind, size⟩ := found'
              obtain ⟨text, rest, split, rfl, front⟩ := tokenAt?_front found
              have positive := List.length_pos_iff.2 front.ne_nil
              have total := congrArg List.length split
              rw [List.length_append, List.length_cons] at total
              dsimp only
              rw [Cursor.forward_eq_past (all.trans split), ih fuel' (c.past text rest)]
              · rw [Cursor.past_rest]
                omega
              · rw [Cursor.past_rest]
                omega

theorem tokensAt_token {d : Delimiters} {kind : TokenKind} {c : Cursor} {text rest : List Char}
    (split : c.rest = text ++ rest) (h : tokenAt? d c.rest = some (kind, text.length)) :
    tokensAt d c = Token.reading kind c text rest :: tokensAt d (c.past text rest) := by
  obtain ⟨text', rest', split', size, front⟩ := tokenAt?_front h
  obtain ⟨rfl, rfl⟩ := List.append_inj (split.symm.trans split') size.symm
  have positive := List.length_pos_iff.2 front.ne_nil
  have total := congrArg List.length split
  rw [List.length_append] at total
  obtain ⟨fuel, hfuel⟩ : ∃ fuel, c.rest.length = fuel + 1 := ⟨c.rest.length - 1, by omega⟩
  obtain ⟨x, xs, all⟩ : ∃ x xs, c.rest = x :: xs := by
    cases all : c.rest with
    | nil => simp [all] at hfuel
    | cons x xs => exact ⟨x, xs, rfl⟩
  rw [tokensAt, hfuel, tokensFrom]
  simp only [all]
  rw [← all, h]
  dsimp only
  rw [Cursor.forward_eq_past split, tokensAt,
    tokensFrom_congr d fuel (c.past text rest).rest.length]
  · rfl
  · rw [Cursor.past_rest]
    omega
  · exact Nat.le_refl _

theorem tokensAt_end {d : Delimiters} {c : Cursor} (ends : c.rest = []) : tokensAt d c = [] := by
  rw [tokensAt, ends]
  rfl

theorem tokensAt_skip {d : Delimiters} {c : Cursor} {x : Char} {rest : List Char}
    (split : c.rest = x :: rest) (h : tokenAt? d c.rest = none) :
    tokensAt d c = tokensAt d (c.past [x] rest) := by
  rw [split] at h
  rw [tokensAt, split, List.length_cons, tokensFrom]
  simp only [split, h]
  rw [Cursor.next_eq_past split]
  rfl

/-- At each place behind which a text goes on, a token stands, or a character that
separates words. -/
theorem tokenAt?_cases (d : Delimiters) (x : Char) (xs : List Char) :
    tokenAt? d (x :: xs) = none ∧ isGap x = true ∨
      ∃ kind text rest, x :: xs = text ++ rest ∧ TokenFront d kind text rest ∧
        tokenAt? d (x :: xs) = some (kind, text.length) := by
  cases found : tokenAt? d (x :: xs) with
  | none => exact .inl ⟨rfl, (tokenAt?_eq_none found).1⟩
  | some found' =>
      obtain ⟨kind, size⟩ := found'
      obtain ⟨text, rest, split, rfl, front⟩ := tokenAt?_front found
      exact .inr ⟨kind, text, rest, split, front, rfl⟩

/-- Induction along the tokens of a text and the characters between them. -/
theorem tokensAt_induction (d : Delimiters) {motive : Cursor → Prop}
    (finish : ∀ (c : Cursor), c.rest = [] → motive c)
    (skip : ∀ (c : Cursor) (x : Char) (rest : List Char), c.rest = x :: rest → isGap x = true →
      tokenAt? d c.rest = none → motive (c.past [x] rest) → motive c)
    (token : ∀ (c : Cursor) (kind : TokenKind) (text rest : List Char), c.rest = text ++ rest →
      TokenFront d kind text rest → tokenAt? d c.rest = some (kind, text.length) →
      motive (c.past text rest) → motive c)
    (c : Cursor) : motive c := by
  induction length : c.rest.length using Nat.strong_induction_on generalizing c with
  | _ size ih =>
      subst length
      cases all : c.rest with
      | nil => exact finish c all
      | cons x xs =>
          rcases tokenAt?_cases d x xs with ⟨none, gap⟩ | ⟨kind, text, rest, split, front, found⟩
          · rw [← all] at none
            apply skip c x xs all gap none
            apply ih _ _ _ rfl
            rw [Cursor.past_rest, all, List.length_cons]
            omega
          · have positive := List.length_pos_iff.2 front.ne_nil
            rw [← all] at split found
            apply token c kind text rest split front found
            apply ih _ _ _ rfl
            rw [Cursor.past_rest, split, List.length_append]
            omega

theorem tokenAt?_blank (d : Delimiters) (cs : List Char) : tokenAt? d (' ' :: cs) = none := by
  rcases tokenAt?_cases d ' ' cs with ⟨none, -⟩ | ⟨kind, text, rest, split, front, -⟩
  · exact none
  · exfalso
    apply front.blank_notMem
    obtain ⟨x, text, rfl⟩ := List.exists_cons_of_ne_nil front.ne_nil
    rw [(List.cons.inj split).1]
    exact List.mem_cons_self

/-! ## Steps along a text -/

namespace State

variable {ctx : Context} {s : State} {c : Cursor}

def sweep (ctx : Context) (c : Cursor) (s : State) : State :=
  s.steps ctx (tokensAt ctx.patterns.delimiters c)

theorem sweep_end (h : c.rest = []) : s.sweep ctx c = s := by
  rw [sweep, tokensAt_end h, steps]

theorem sweep_of_stops (h : s.stops ctx = true) : s.sweep ctx c = s := by
  rw [sweep]
  cases tokensAt ctx.patterns.delimiters c with
  | nil => rfl
  | cons t ts => simp [steps, h]

theorem stops_of_goesOn (goesOn : ctx.config.stopWhenFilled = false) (s : State) :
    s.stops ctx = false := by
  rw [stops, goesOn, Bool.false_and]

theorem sweep_token {kind : TokenKind} {text rest : List Char} (split : c.rest = text ++ rest)
    (h : tokenAt? ctx.patterns.delimiters c.rest = some (kind, text.length))
    (goes : s.stops ctx = false) :
    s.sweep ctx c = (s.step ctx (.reading kind c text rest)).sweep ctx (c.past text rest) := by
  rw [sweep, tokensAt_token split h, steps, goes]
  rfl

theorem sweep_skip {x : Char} {rest : List Char} (split : c.rest = x :: rest)
    (h : tokenAt? ctx.patterns.delimiters c.rest = none) :
    s.sweep ctx c = s.sweep ctx (c.past [x] rest) := by
  rw [sweep, tokensAt_skip split h, sweep]

theorem sweep_blank {rest : List Char} (split : c.rest = ' ' :: rest) :
    s.sweep ctx c = s.sweep ctx (c.past [' '] rest) := by
  apply sweep_skip split
  rw [split]
  exact tokenAt?_blank _ rest

theorem sweep_blanks {count : Nat} {rest : List Char}
    (split : c.rest = List.replicate count ' ' ++ rest) :
    s.sweep ctx c = s.sweep ctx (c.past (List.replicate count ' ') rest) := by
  induction count generalizing c with
  | zero =>
      have here : c.past [] rest = c := Cursor.past_nil_of_rest split
      rw [List.replicate_zero, here]
  | succ count ih =>
      have split' : c.rest = ' ' :: (List.replicate count ' ' ++ rest) := split
      rw [sweep_blank split', ih rfl, Cursor.past_past]
      rfl

/-- Induction along a text: over its characters between tokens and over the steps of its
tokens, up to its end or to where the parse stops. -/
theorem sweep_induction (ctx : Context) {motive : Cursor → State → Prop}
    (finish : ∀ (c : Cursor) (s : State), c.rest = [] ∨ s.stops ctx = true → motive c s)
    (skip : ∀ (c : Cursor) (s : State) (x : Char) (rest : List Char), c.rest = x :: rest →
      isGap x = true → tokenAt? ctx.patterns.delimiters c.rest = none → s.stops ctx = false →
      motive (c.past [x] rest) s → motive c s)
    (token : ∀ (c : Cursor) (s : State) (kind : TokenKind) (text rest : List Char),
      c.rest = text ++ rest → TokenFront ctx.patterns.delimiters kind text rest →
      tokenAt? ctx.patterns.delimiters c.rest = some (kind, text.length) →
      s.stops ctx = false →
      motive (c.past text rest) (s.step ctx (.reading kind c text rest)) → motive c s)
    (c : Cursor) (s : State) : motive c s := by
  induction c using tokensAt_induction ctx.patterns.delimiters generalizing s with
  | finish c ends => exact finish c s (.inl ends)
  | skip c x rest split gap none ih =>
      cases stops : s.stops ctx with
      | true => exact finish c s (.inr stops)
      | false => exact skip c s x rest split gap none stops (ih s)
  | token c kind text rest split front found ih =>
      cases stops : s.stops ctx with
      | true => exact finish c s (.inr stops)
      | false => exact token c s kind text rest split front found stops (ih _)

/-- Where nobody replied to fills a slot, a parse does not depend on the message. -/
theorem run_of_noReply (off : ctx.config.replyFilling = none) (message : Option Message) :
    run ctx message = run ctx none := by
  have unfilled (message : Option Message) : (initial ctx).fillReplied? ctx message = none := by
    rw [fillReplied?, off]
    rfl
  simp only [run, unfilled]

/-- Without a message a parse goes over the whole text and closes what is open. -/
theorem run_none (ctx : Context) :
    run ctx none = ((initial ctx).sweep ctx (Cursor.start ctx.content)).closeAll ctx := by
  have noReply : (initial ctx).fillReplied? ctx none = none := by
    unfold fillReplied?
    cases ctx.config.replyFilling <;> rfl
  rw [run, noReply]
  rfl

end State

theorem parse_values {table : Table} (counted : 0 < table.optionCount) (config : Config)
    (patterns : Patterns) (content : String) (message : Option Message) :
    (table.parse config patterns content message).values =
      matchChoices table.choices config.choices
        (State.run ⟨content.toList, table, config, patterns⟩ message).values := by
  have filled : ¬ (table.optionCount == 0) = true := by
    simp only [beq_iff_eq]
    omega
  rw [Table.parse, if_neg filled]

theorem parse_of_noChoices {table : Table} (counted : 0 < table.optionCount)
    (noChoices : table.choices = []) (config : Config) (patterns : Patterns) (content : String)
    (message : Option Message) :
    table.parse config patterns content message =
      ⟨content, (State.run ⟨content.toList, table, config, patterns⟩ message).values,
        (State.run ⟨content.toList, table, config, patterns⟩ message).spans⟩ := by
  have filled : ¬ (table.optionCount == 0) = true := by
    simp only [beq_iff_eq]
    omega
  rw [Table.parse, if_neg filled, noChoices]
  simp only [matchChoices_nil]

end ChatArgs.Parse
