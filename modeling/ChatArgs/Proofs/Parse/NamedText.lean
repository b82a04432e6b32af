import ChatArgs.Proofs.Parse.Escaping
import ChatArgs.Proofs.Parse.NamedOption

/-!
# Text behind a marker

An option that takes all text up to the next marker passes every token but markers. In a
text where hyphens and colons are escaped the tokenizer still finds markers, but only with
an odd number of backslashes in front, and those open nothing.
-/

namespace ChatArgs.Parse

open Text

structure ReadsMarkers (ctx : Context) : Prop where
  enabled : ctx.patterns.delimiters.hasDoubleHyphen = true
  anyFamily : ctx.config.oneFamily = false
  goesOn : ctx.config.stopWhenFilled = false

namespace ReadsMarkers

variable {ctx : Context} (reads : ReadsMarkers ctx)
include reads

theorem hasMarkers : ctx.patterns.delimiters.hasMarkers = true := by
  simp [Delimiters.hasMarkers, Delimiters.hasHyphen, reads.enabled]

theorem isActive : ctx.patterns.delimiters.isActive = true := by
  simp [Delimiters.isActive, reads.hasMarkers]

theorem stops (s : State) : s.stops ctx = false := by
  simp [State.stops, reads.goesOn]

end ReadsMarkers

/-- A marker in a guarded text is one with hyphens and an odd number of backslashes. If an
odd run stands in front of the text, no marker with hyphens starts there. -/
theorem odd_of_guarded {d : Delimiters} {odd : Bool} {escapes size : Nat} {opening : Opening}
    {name : String} {text rest cs : List Char}
    (token : TokenFront d (.marker escapes opening name) text rest)
    (found : tokenAt? d (text ++ rest) = some (.marker escapes opening name, size))
    (guard : guarded (d.escapedMarkers none) odd (text ++ cs) = true)
    (pending : odd = true →
      hyphenMarker? d 0 (text ++ rest) = none ∧ (text ++ rest).head? ≠ some '\\') :
    ∃ count, opening = .hyphens count ∧ escapes % 2 = 1 := by
  cases token with
  | @hyphens _ count name sign _ hcount enabled valid hsign =>
      refine ⟨count, rfl, ?_⟩
      have even : odd = false := by
        cases odd with
        | false => rfl
        | true =>
            obtain ⟨none, head⟩ := pending rfl
            exact absurd none (hyphenMarker?_of_tokenAt? found head)
      subst even
      obtain ⟨fewer, rfl⟩ : ∃ fewer, count = fewer + 1 := ⟨count - 1, by omega⟩
      have special : (d.escapedMarkers none).isDelimiter '-' = true := by
        simp [Delimiters.escapedMarkers, EscapeSet.isDelimiter, enabled]
      rw [List.append_assoc, guarded_backslashes, List.replicate_succ, List.cons_append,
        List.cons_append, guarded, if_neg (by decide), special] at guard
      simp only [Bool.false_xor, Bool.not_true, Bool.false_or, Bool.and_eq_true,
        decide_eq_true_eq] at guard
      exact guard.1
  | @colon _ name _ enabled filled parts _ =>
      exfalso
      obtain ⟨init, c, rfl⟩ : ∃ init c, name = init ++ [c] :=
        ⟨_, _, (List.dropLast_concat_getLast filled).symm⟩
      have visible := ne_backslash_of_isNamePart (parts c (by simp))
      have split : backslashes escapes ++ (init ++ [c] ++ [':']) ++ cs =
          (backslashes escapes ++ init) ++ c :: ':' :: cs := by simp
      rw [split] at guard
      have free := isDelimiter_of_guarded (guarded_behind _ guard visible) (by decide)
      simp [Delimiters.escapedMarkers, EscapeSet.isDelimiter, enabled] at free

/-- Behind a token a guarded text is guarded again. Behind an odd run of backslashes no marker
with hyphens starts. -/
theorem guarded_behind_token {d : Delimiters} {e : EscapeSet} {odd : Bool} {kind : TokenKind}
    {text rest cs : List Char} (active : d.isActive = true) (token : TokenFront d kind text rest)
    (guard : guarded e odd (text ++ cs) = true)
    (start : odd = true → (text ++ rest).head? ≠ some '\\') :
    ∃ odd', guarded e odd' cs = true ∧
      (odd' = true → hyphenMarker? d 0 rest = none ∧ rest.head? ≠ some '\\') := by
  by_cases run : ∃ count, kind = .backslashes count
  · obtain ⟨count, rfl⟩ := run
    cases token with
    | backslashes positive _ head none =>
        have even : odd = false := by
          cases odd with
          | false => rfl
          | true =>
              obtain ⟨fewer, rfl⟩ : ∃ fewer, count = fewer + 1 := ⟨count - 1, by omega⟩
              exact absurd (by simp [backslashes_succ]) (start rfl)
        subst even
        rw [guarded_backslashes, Bool.false_xor] at guard
        exact ⟨_, guard, fun _ => ⟨none, head⟩⟩
  · obtain ⟨init, c, rfl, visible⟩ :=
      token.exists_last active fun count same => run ⟨count, same⟩
    rw [List.append_assoc] at guard
    exact ⟨false, guarded_behind init guard visible, by simp⟩

namespace State

variable {ctx : Context} {s : State} {values : Entries String}

structure Collects (ctx : Context) (values : Entries String) (named : Option Named)
    (s : State) : Prop where
  values : s.values = values
  named : s.named = named
  longText : s.longText = none
  held : s.held = none
  lastSlot : s.lastSlot = none
  family : s.family = none

theorem initial_collects (ctx : Context) : Collects ctx {} none (initial ctx) :=
  ⟨rfl, rfl, rfl, rfl, rfl, rfl⟩

theorem onOther_whole (whole : s.openSingle? ctx = none) (opened : s.named.isSome = true)
    (t : Token) (justClosed : Bool) : s.onOther ctx t justClosed = s := by
  simp [onOther, whole, opened]

theorem onMarker_whole (reads : ReadsMarkers ctx) (opened : s.named.isSome = true)
    (noLast : s.lastSlot = none) {escapes count : Nat} (odd : escapes % 2 = 1) (t : Token)
    (name : String) (justClosed : Bool) :
    s.onMarker ctx t escapes (.hyphens count) name justClosed = s := by
  have literal (text : String) (start : Cursor) (stop : Nat) (next : Option Char) :
      s.placeText ctx text start stop next justClosed = s := by
    simp [placeText, opened]
  cases declared : ctx.table.option? name with
  | none => simp [onMarker, declared, literalMarker, noLast, literal]
  | some option => simp [onMarker, declared, reads.anyFamily, declaredMarker, odd, literal]

section

variable {named : Named} (reads : ReadsMarkers ctx)
  (whole : named.option.takesOneValue ctx.config.singleValue = false)
  (collects : Collects ctx values (some named) s)
include reads whole collects

/-- An option that takes all text passes a token that is no marker, and a marker behind an
odd number of backslashes. -/
theorem Collects.step (kind : TokenKind)
    (odd : ∀ escapes opening name, kind = .marker escapes opening name →
      ∃ count, opening = .hyphens count ∧ escapes % 2 = 1) (c : Cursor) (text rest : List Char) :
    Collects ctx values (some named) (s.step ctx (.reading kind c text rest)) := by
  have opened : ({ s with justClosed := false } : State).named.isSome = true := by
    simp [collects.named]
  have multiple : ({ s with justClosed := false } : State).openSingle? ctx = none := by
    simp [openSingle?, collects.named, whole]
  have passed : s.step ctx (.reading kind c text rest) = { s with justClosed := false } := by
    cases kind with
    | marker escapes opening name =>
        obtain ⟨count, rfl, isOdd⟩ := odd escapes opening name rfl
        rw [step_eq_onMarker collects.longText]
        exact onMarker_whole reads opened collects.lastSlot isOdd _ _ _
    | delimiter => exact onOther_whole multiple opened _ _
    | word => exact onOther_whole multiple opened _ _
    | backslashes => exact onOther_whole multiple opened _ _
    | lineFeeds => exact onOther_whole multiple opened _ s.justClosed
  rw [passed]
  exact ⟨collects.values, collects.named, collects.longText, collects.held, collects.lastSlot,
    collects.family⟩

/-- The first token of a guarded text is passed, and what is left is guarded again. -/
theorem Collects.sweep_guarded_token {c : Cursor} {x : Char} {xs rest : List Char} {odd : Bool}
    (split : c.rest = x :: xs ++ rest) (ends : ∀ x ∈ rest.head?, x = ' ')
    (guard : guarded (ctx.patterns.delimiters.escapedMarkers none) odd (x :: xs) = true)
    (pending : odd = true →
      hyphenMarker? ctx.patterns.delimiters 0 c.rest = none ∧ c.rest.head? ≠ some '\\') :
    ∃ text cs odd' s', x :: xs = text ++ cs ∧ text ≠ [] ∧
      guarded (ctx.patterns.delimiters.escapedMarkers none) odd' cs = true ∧
      (odd' = true → hyphenMarker? ctx.patterns.delimiters 0 (cs ++ rest) = none ∧
        (cs ++ rest).head? ≠ some '\\') ∧
      Collects ctx values (some named) s' ∧
      s.sweep ctx c = s'.sweep ctx (c.past text (cs ++ rest)) := by
  rcases tokenAt?_cases ctx.patterns.delimiters x (xs ++ rest) with
    ⟨none, gap⟩ | ⟨kind, text, rest', split', front, found⟩
  · have visible : x ≠ '\\' := by
      rintro rfl
      exact absurd gap (by decide)
    rw [← List.cons_append, ← split] at none
    exact ⟨[x], xs, false, s, rfl, by simp, guarded_behind [] guard visible, by simp, collects,
      sweep_skip split none⟩
  · rw [← List.cons_append] at split' found
    obtain ⟨cs, inner, rfl⟩ := exists_in_front split' fun y hy member => by
      rw [ends y hy] at member
      exact front.blank_notMem member
    rw [split'] at split found
    rw [split] at pending
    rw [inner] at guard
    have markers : ∀ escapes opening name, kind = .marker escapes opening name →
        ∃ count, opening = .hyphens count ∧ escapes % 2 = 1 := by
      rintro escapes opening name rfl
      exact odd_of_guarded front found guard pending
    have step := collects.step reads whole kind markers c text (cs ++ rest)
    obtain ⟨odd', guard', pending'⟩ := guarded_behind_token reads.isActive front guard
      fun isOdd => (pending isOdd).2
    rw [← split] at found
    exact ⟨text, cs, odd', _, inner, front.ne_nil, guard', pending', step,
      sweep_token split found (reads.stops s)⟩

/-- A guarded text is passed up to the blank behind it, or to the end. -/
theorem Collects.sweep_guarded {c : Cursor} {cs rest : List Char} {odd : Bool}
    (split : c.rest = cs ++ rest) (ends : ∀ x ∈ rest.head?, x = ' ')
    (guard : guarded (ctx.patterns.delimiters.escapedMarkers none) odd cs = true)
    (pending : odd = true →
      hyphenMarker? ctx.patterns.delimiters 0 c.rest = none ∧ c.rest.head? ≠ some '\\') :
    ∃ s', Collects ctx values (some named) s' ∧
      s.sweep ctx c = s'.sweep ctx (c.past cs rest) := by
  induction length : cs.length using Nat.strong_induction_on generalizing c s cs odd with
  | _ size ih =>
      subst length
      cases cs with
      | nil =>
          rw [List.nil_append] at split
          refine ⟨s, collects, ?_⟩
          rw [← split, Cursor.past_nil]
      | cons x xs =>
          obtain ⟨text, cs, odd', s', inner, filled, guard', pending', collects', same⟩ :=
            collects.sweep_guarded_token reads whole split ends guard pending
          have positive := List.length_pos_iff.2 filled
          have fewer : cs.length < (x :: xs).length := by
            rw [inner, List.length_append]
            omega
          obtain ⟨s'', collects'', passed⟩ := ih cs.length fewer collects'
            (c := c.past text (cs ++ rest)) rfl guard' pending' rfl
          refine ⟨s'', collects'', ?_⟩
          rw [same, passed, Cursor.past_past, ← inner]

end

end State

end ChatArgs.Parse
