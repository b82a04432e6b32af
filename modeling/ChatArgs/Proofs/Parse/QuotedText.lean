import ChatArgs.Proofs.Parse.Escaping
import ChatArgs.Proofs.Parse.Sweep

/-!
# Reading a quoted text

Behind an opening quote only the same quote counts, and backslashes in front of it. An
escaped text is passed without a change of state, and the quote behind it places what
`unescape` makes of it.
-/

namespace ChatArgs.Parse

open Text

/-- The quote is read everywhere in a text, and the text to its end. -/
structure ReadsQuotes (ctx : Context) (q : Quote) : Prop where
  enabled : ctx.patterns.delimiters.hasQuote q = true
  plainLast : ctx.config.plainLast = none
  goesOn : ctx.config.stopWhenFilled = false

namespace ReadsQuotes

variable {ctx : Context} {q : Quote} (reads : ReadsQuotes ctx q)
include reads

theorem isQuoteChar : ctx.patterns.delimiters.isQuoteChar q.char = true := by
  have member : q ∈ ctx.patterns.delimiters.quotes := by
    simpa [Delimiters.hasQuote] using reads.enabled
  simp only [Delimiters.isQuoteChar, List.any_eq_true, beq_iff_eq]
  exact ⟨q, member, rfl⟩

theorem isActive : ctx.patterns.delimiters.isActive = true := by
  have member : q ∈ ctx.patterns.delimiters.quotes := by
    simpa [Delimiters.hasQuote] using reads.enabled
  have filled := List.ne_nil_of_mem member
  simp [Delimiters.isActive, filled]

theorem escapesNext (family : Option Family) :
    ctx.patterns.delimiters.escapesNext family (some q.char) = true := by
  have isQuote := reads.isQuoteChar
  rw [Delimiters.isQuoteChar] at isQuote
  simp [Delimiters.escapesNext, Delimiters.textEscapes, reads.isActive, EscapeSet.contains,
    EscapeSet.isDelimiter, isQuote]

theorem stops (s : State) : s.stops ctx = false := by
  simp [State.stops, reads.goesOn]

end ReadsQuotes

theorem tokenAt?_quote {d : Delimiters} {q : Quote} (enabled : d.isQuoteChar q.char = true)
    (cs : List Char) : tokenAt? d (q.char :: cs) = some (.delimiter q.char, 1) := by
  have visible : isGap q.char = false := by cases q <;> decide
  rcases tokenAt?_cases d q.char cs with ⟨-, gap⟩ | ⟨kind, text, rest, split, front, found⟩
  · simp [visible] at gap
  · obtain ⟨x, text, rfl⟩ := List.exists_cons_of_ne_nil front.ne_nil
    have head : q.char = x := (List.cons.inj split).1
    subst head
    by_cases delimiter : ∃ y, kind = .delimiter y
    · obtain ⟨y, rfl⟩ := delimiter
      cases front
      exact found
    · have absent := front.quote_notMem enabled (fun y same => delimiter ⟨y, same⟩)
      simp at absent

/-- In an escaped text in front of a quote, a token ends in front of the quote. -/
theorem exists_token_in_quote {d : Delimiters} {q : Quote} {cs : List Char} {x : Char}
    (rest : List Char) (enabled : d.isQuoteChar q.char = true)
    (guard : guarded { quotes := [q] } false (x :: cs) = true) :
    tokenAt? d (x :: cs ++ q.char :: rest) = none ∧ x ≠ '\\' ∨
      ∃ kind text cs', x :: cs = text ++ cs' ∧ TokenFront d kind text (cs' ++ q.char :: rest) ∧
        tokenAt? d (x :: cs ++ q.char :: rest) = some (kind, text.length) ∧ q.char ∉ text := by
  rcases tokenAt?_cases d x (cs ++ q.char :: rest) with
    ⟨none, gap⟩ | ⟨kind, text, rest', split, front, found⟩
  · left
    refine ⟨none, ?_⟩
    rintro rfl
    exact absurd gap (by decide)
  · right
    have absent : q.char ∉ text := by
      by_cases delimiter : ∃ y, kind = .delimiter y
      · obtain ⟨y, rfl⟩ := delimiter
        cases front with
        | delimiter isDelimiter =>
            have head : x = y := (List.cons.inj split).1
            have visible : x ≠ '\\' := head ▸ ne_backslash_of_isDelimiterChar isDelimiter
            have free := isDelimiter_of_guarded guard visible
            intro member
            rw [List.mem_singleton, ← head] at member
            simp [EscapeSet.isDelimiter, member] at free
      · exact front.quote_notMem enabled fun y same => delimiter ⟨y, same⟩
    rw [← List.cons_append] at split
    obtain ⟨cs', inner, rfl⟩ := exists_in_front split (by simpa using absent)
    exact ⟨kind, text, cs', inner, front, found, absent⟩

namespace State

variable {ctx : Context} {s : State} {c : Cursor} {long : LongText}

theorem sweep_quote {q : Quote} (reads : ReadsQuotes ctx q) {rest : List Char}
    (split : c.rest = q.char :: rest) :
    s.sweep ctx c = (s.step ctx (.reading (.delimiter q.char) c [q.char] rest)).sweep ctx
      (c.past [q.char] rest) := by
  have front : c.rest = [q.char] ++ rest := split
  have found : tokenAt? ctx.patterns.delimiters c.rest =
      some (.delimiter q.char, [q.char].length) := by
    rw [split]
    exact tokenAt?_quote reads.isQuoteChar rest
  exact sweep_token front found (reads.stops s)

structure InQuote (ctx : Context) (long : LongText) (s : State) : Prop where
  long : s.longText = some long
  lastSlot : s.lastSlot = none
  single : s.named.isSome = (s.openSingle? ctx).isSome
  quiet : s.justClosed = false

section

variable (reads : ReadsQuotes ctx long.quote) (inside : InQuote ctx long s)

include inside in
theorem step_eq_onOther (t : Token) : s.step ctx t = s.onOther ctx t false := by
  have quiet : ({ s with justClosed := false } : State) = s := by rw [← inside.quiet]
  rw [step, quiet, inside.quiet, inside.long]
  cases t.kind <;> rfl

include inside in
theorem onOther_inQuote (t : Token) :
    s.onOther ctx t false =
      match t.kind with
      | .backslashes count => s.onBackslashes ctx t count false
      | .delimiter c => s.onDelimiter ctx t c false
      | _ => s := by
  have single := inside.single
  cases opened : s.openSingle? ctx with
  | none =>
      rw [opened] at single
      cases kind : t.kind <;> simp [onOther, kind, inside.long, inside.lastSlot, opened, single]
  | some named =>
      rw [opened] at single
      cases kind : t.kind <;> simp [onOther, kind, inside.long, inside.lastSlot, opened]

include reads inside

/-- A run of backslashes counts in front of the quote only, where an odd run escapes it. -/
theorem onBackslashes_inQuote (t : Token) (count : Nat) :
    s.onBackslashes ctx t count false =
      if t.stop.after = some long.quote.char ∧ count % 2 = 1 then
        { s with escape := some (t.start, t.stop.offset) }
      else s := by
  have notPlain : s.quotesArePlain ctx = false := by simp [quotesArePlain, reads.plainLast]
  unfold onBackslashes
  simp only [inside.long, notPlain]
  by_cases quote : t.stop.after = some long.quote.char
  · rcases Nat.mod_two_eq_zero_or_one count with even | odd
    · simp [quote, even, inside.long]
    · simp [quote, odd, reads.escapesNext s.family]
  · simp [quote]

theorem onDelimiter_inQuote (unescaped : s.escape = none) (t : Token) (x : Char) :
    s.onDelimiter ctx t x false =
      if x = long.quote.char then s.onSameQuote ctx t long else s := by
  have bare : s.onDelimiter ctx t x false = s.onBareDelimiter ctx t x false := by
    have same : ({ s with escape := none } : State) = s := by rw [← unescaped]
    rw [onDelimiter, unescaped]
    simp only [Option.filter_none, same]
  rw [bare, onBareDelimiter]
  simp only [delimiterIsValue, reads.plainLast, inside.long, Bool.false_eq_true, if_false]
  cases found : Quote.ofChar? x with
  | none =>
      have different : ¬ x = long.quote.char := by
        rintro rfl
        simp at found
      simp [different]
  | some q =>
      have char := Quote.char_of_ofChar? found
      by_cases same : x = long.quote.char
      · have again : long.quote = q := by
          rw [same, Quote.ofChar?_char] at found
          exact Option.some.inj found
        simp [onQuote, inside.long, same, again]
      · have different : ¬ long.quote = q := by
          rintro rfl
          exact same char.symm
        simp [onQuote, inside.long, same, different]

/-- In a long text every token is passed, apart from its quote and a backslash that escapes
the quote. -/
theorem step_inQuote (unescaped : s.escape = none) {kind : TokenKind} (c : Cursor)
    (text rest : List Char) (noQuote : kind ≠ .delimiter long.quote.char)
    (noEscape : ∀ count, kind = .backslashes count →
      ¬ (rest.head? = some long.quote.char ∧ count % 2 = 1)) :
    s.step ctx (.reading kind c text rest) = s := by
  rw [step_eq_onOther inside, onOther_inQuote inside]
  cases kind with
  | marker escapes opening name => rfl
  | delimiter x =>
      have different : ¬ x = long.quote.char := fun same => noQuote (by rw [same])
      simp only [Token.reading]
      rw [onDelimiter_inQuote reads inside unescaped, if_neg different]
  | word => rfl
  | backslashes count =>
      simp only [Token.reading]
      rw [onBackslashes_inQuote reads inside, if_neg]
      exact noEscape count rfl
  | lineFeeds => rfl

theorem sweep_escapedQuote (unescaped : s.escape = none) {count : Nat} {rest : List Char}
    (odd : count % 2 = 1) (split : c.rest = backslashes count ++ long.quote.char :: rest)
    (found : tokenAt? ctx.patterns.delimiters c.rest =
      some (.backslashes count, (backslashes count).length)) :
    s.sweep ctx c = s.sweep ctx (c.past (backslashes count ++ [long.quote.char]) rest) := by
  generalize here : c.past (backslashes count) (long.quote.char :: rest) = quoteAt
  have behind : quoteAt.rest = long.quote.char :: rest := by
    rw [← here]
    rfl
  have opens : s.step ctx (.reading (.backslashes count) c (backslashes count)
      (long.quote.char :: rest)) = { s with escape := some (c, quoteAt.offset) } := by
    rw [step_eq_onOther inside, onOther_inQuote inside]
    simp only [Token.reading]
    rw [onBackslashes_inQuote reads inside, if_pos ⟨rfl, odd⟩, here]
  have inside' : InQuote ctx long { s with escape := some (c, quoteAt.offset) } :=
    ⟨inside.long, inside.lastSlot, inside.single, inside.quiet⟩
  have closes : ({ s with escape := some (c, quoteAt.offset) } : State).step ctx
      (.reading (.delimiter long.quote.char) quoteAt [long.quote.char] rest) = s := by
    have same : ({ s with escape := none } : State) = s := by rw [← unescaped]
    have next : Option.filter (fun escape : Cursor × Nat => escape.2 == quoteAt.offset)
        (some (c, quoteAt.offset)) = some (c, quoteAt.offset) := by simp [Option.filter]
    rw [step_eq_onOther inside', onOther_inQuote inside']
    simp only [Token.reading, onDelimiter, next, inside.long, Option.isNone_some,
      Bool.false_eq_true, if_false]
    rw [← inside.long, same]
  rw [sweep_token split found (reads.stops s), opens, here, sweep_quote reads behind, closes,
    ← here, Cursor.past_past]

/-- A run of backslashes is passed, with the quote behind it if it escapes one. -/
theorem sweep_backslashes (unescaped : s.escape = none) {count : Nat} {cs rest : List Char}
    (split : c.rest = backslashes count ++ (cs ++ long.quote.char :: rest))
    (found : tokenAt? ctx.patterns.delimiters c.rest =
      some (.backslashes count, (backslashes count).length))
    (head : cs.head? ≠ some '\\')
    (guard : guarded { quotes := [long.quote] } (decide (count % 2 = 1)) cs = true) :
    ∃ front cs', cs = front ++ cs' ∧ guarded { quotes := [long.quote] } false cs' = true ∧
      s.sweep ctx c =
        s.sweep ctx (c.past (backslashes count ++ front) (cs' ++ long.quote.char :: rest)) := by
  have idle (noEscape : ¬ ((cs ++ long.quote.char :: rest).head? = some long.quote.char ∧
      count % 2 = 1)) :
      s.sweep ctx c = s.sweep ctx (c.past (backslashes count) (cs ++ long.quote.char :: rest)) := by
    rw [sweep_token split found (reads.stops s),
      step_inQuote reads inside unescaped _ _ _ (by simp)]
    intro count' same
    cases same
    exact noEscape
  by_cases odd : count % 2 = 1
  · rw [decide_eq_true odd] at guard
    cases cs with
    | nil => simp [guarded] at guard
    | cons x cs =>
        have visible : x ≠ '\\' := by
          rintro rfl
          simp at head
        have behind := guarded_behind [] guard visible
        by_cases quote : x = long.quote.char
        · subst quote
          exact ⟨[long.quote.char], cs, rfl, behind,
            sweep_escapedQuote reads inside unescaped odd split found⟩
        · have other : ¬ long.quote.char = x := fun same => quote same.symm
          refine ⟨[], x :: cs, rfl, ?_, ?_⟩
          · rw [guarded, if_neg visible, behind]
            simp [EscapeSet.isDelimiter, other]
          · rw [List.append_nil]
            exact idle (by simp [quote])
  · rw [decide_eq_false odd] at guard
    refine ⟨[], cs, rfl, guard, ?_⟩
    rw [List.append_nil]
    exact idle fun escape => odd escape.2

/-- The first token of an escaped text changes nothing, and what is left is escaped again. -/
theorem sweep_guarded_token (unescaped : s.escape = none) {x : Char} {xs rest : List Char}
    (split : c.rest = x :: xs ++ long.quote.char :: rest)
    (guard : guarded { quotes := [long.quote] } false (x :: xs) = true) :
    ∃ text cs, x :: xs = text ++ cs ∧ text ≠ [] ∧
      guarded { quotes := [long.quote] } false cs = true ∧
      s.sweep ctx c = s.sweep ctx (c.past text (cs ++ long.quote.char :: rest)) := by
  rcases exists_token_in_quote rest reads.isQuoteChar guard with
    ⟨none, visible⟩ | ⟨kind, text, cs, inner, front, found, absent⟩
  · rw [← split] at none
    exact ⟨[x], xs, rfl, by simp, guarded_behind [] guard visible, sweep_skip split none⟩
  · rw [← split] at found
    rw [inner] at guard
    rw [inner, List.append_assoc] at split
    by_cases run : ∃ count, kind = .backslashes count
    · obtain ⟨count, rfl⟩ := run
      have filled := front.ne_nil
      cases front with
      | backslashes _ _ head _ =>
          have parity := guarded_backslashes { quotes := [long.quote] } false count cs
          rw [parity, Bool.false_xor] at guard
          have head' : cs.head? ≠ some '\\' := by
            intro backslash
            apply head
            simp [List.head?_append, backslash]
          obtain ⟨front, cs', rfl, guard', same⟩ :=
            sweep_backslashes reads inside unescaped split found head' guard
          refine ⟨backslashes count ++ front, cs', ?_, by simp [filled], guard', same⟩
          rw [inner, List.append_assoc]
    · obtain ⟨init, y, last, visible⟩ :=
        front.exists_last reads.isActive fun count same => run ⟨count, same⟩
      have noQuote : kind ≠ .delimiter long.quote.char := by
        rintro rfl
        cases front
        simp at absent
      have same := step_inQuote reads inside unescaped c text
        (cs ++ long.quote.char :: rest) noQuote fun count same => absurd ⟨count, same⟩ run
      rw [last, List.append_assoc] at guard
      refine ⟨text, cs, inner, front.ne_nil, guarded_behind init guard visible, ?_⟩
      rw [sweep_token split found (reads.stops s), same]

/-- An escaped text is passed up to the quote behind it. -/
theorem sweep_guarded (unescaped : s.escape = none) {cs rest : List Char}
    (split : c.rest = cs ++ long.quote.char :: rest)
    (guard : guarded { quotes := [long.quote] } false cs = true) :
    s.sweep ctx c = s.sweep ctx (c.past cs (long.quote.char :: rest)) := by
  induction length : cs.length using Nat.strong_induction_on generalizing c cs with
  | _ size ih =>
      subst length
      cases cs with
      | nil =>
          rw [List.nil_append] at split
          rw [← split, Cursor.past_nil]
      | cons x xs =>
          obtain ⟨text, cs, inner, filled, guard', same⟩ :=
            sweep_guarded_token reads inside unescaped split guard
          have positive := List.length_pos_iff.2 filled
          have fewer : cs.length < (x :: xs).length := by
            rw [inner, List.length_append]
            omega
          rw [same, ih cs.length fewer rfl guard' rfl, Cursor.past_past, ← inner]

end

/-! ## From quote to quote -/

structure Ready (ctx : Context) (s : State) : Prop where
  longText : s.longText = none
  escape : s.escape = none
  held : s.held = none
  lastSlot : s.lastSlot = none
  single : s.named.isSome = (s.openSingle? ctx).isSome

theorem onOther_delimiter {t : Token} {x : Char} (kind : t.kind = .delimiter x)
    (noLast : s.lastSlot = none) (single : s.named.isSome = (s.openSingle? ctx).isSome)
    (justClosed : Bool) : s.onOther ctx t justClosed = s.onDelimiter ctx t x justClosed := by
  cases opened : s.openSingle? ctx with
  | none =>
      rw [opened] at single
      simp [onOther, kind, noLast, opened, single]
  | some named =>
      rw [opened] at single
      simp [onOther, kind, noLast, opened]

section

variable {q : Quote} (reads : ReadsQuotes ctx q)
include reads

theorem step_openingQuote (ready : Ready ctx s) (c : Cursor) (rest : List Char) :
    s.step ctx (.reading (.delimiter q.char) c [q.char] rest) =
      { s with
        justClosed := false
        longText := some ⟨q, (c.past [q.char] rest).offset, c.past [q.char] rest, none⟩ } := by
  have other : s.step ctx (.reading (.delimiter q.char) c [q.char] rest) =
      ({ s with justClosed := false } : State).onOther ctx
        (.reading (.delimiter q.char) c [q.char] rest) s.justClosed := rfl
  have same : ({ s with justClosed := false, escape := none } : State) =
      { s with justClosed := false } := by rw [← ready.escape]
  have delimiter := onOther_delimiter (s := { s with justClosed := false })
    (t := .reading (.delimiter q.char) c [q.char] rest) rfl ready.lastSlot ready.single
    s.justClosed
  rw [other, delimiter, onDelimiter]
  simp only [ready.escape, Option.filter_none]
  rw [same, onBareDelimiter]
  simp [delimiterIsValue, reads.plainLast, onQuote, ready.longText,
    ready.escape, Token.reading]

omit reads in
theorem step_closingQuote {long : LongText} (reads : ReadsQuotes ctx long.quote)
    (inside : InQuote ctx long s) (unescaped : s.escape = none) (noRun : long.closing = none)
    (single : long.body.offset = long.start) {c : Cursor} (behind : long.start ≠ c.offset)
    {rest : List Char} (head : rest.head? ≠ some long.quote.char) :
    s.step ctx (.reading (.delimiter long.quote.char) c [long.quote.char] rest) =
      s.closeLongText ctx c.offset := by
  have again : (rest.head? == some long.quote.char) = false := by simpa using head
  rw [step_eq_onOther inside, onOther_inQuote inside]
  simp only [Token.reading]
  rw [onDelimiter_inQuote reads inside unescaped, if_pos rfl]
  simp [onSameQuote, behind, again, noRun, single]

theorem closeLongText_escaped (noLong : s.longText = none) {body : Cursor} {text rest : List Char}
    (behind : body.rest = Parse.escape { quotes := [q] } text ++ rest) :
    ({ s with justClosed := false, longText := some ⟨q, body.offset, body, none⟩ } :
        State).closeLongText ctx
        (body.past (Parse.escape { quotes := [q] } text) rest).offset =
      ({ s with justClosed := true } : State).place ctx (String.ofList text) body
        (body.past (Parse.escape { quotes := [q] } text) rest).offset true := by
  have raw : body.textTo (body.past (Parse.escape { quotes := [q] } text) rest).offset =
      Parse.escape { quotes := [q] } text := Cursor.textTo_eq_front behind
  have value : unescapeWith (ctx.patterns.delimiters.quoteEscapes q)
      (Parse.escape { quotes := [q] } text) = text := by
    rw [Delimiters.quoteEscapes, if_pos reads.enabled]
    exact unescape_escape { quotes := [q] } text
  rw [closeLongText]
  simp only [raw, value]
  rw [← noLong]

/-- A quoted text is placed as it was before it was escaped. -/
theorem sweep_quoted (ready : Ready ctx s) {text rest : List Char} (filled : text ≠ [])
    (split : c.rest = q.char :: (Parse.escape { quotes := [q] } text ++ q.char :: rest))
    (head : rest.head? ≠ some q.char) :
    ∃ start stop, s.sweep ctx c =
      (({ s with justClosed := true } : State).place ctx (String.ofList text) start stop true).sweep
        ctx (c.past (q.char :: (Parse.escape { quotes := [q] } text ++ [q.char])) rest) := by
  have written : Parse.escape { quotes := [q] } text ≠ [] := by
    intro none
    have back := unescape_escape { quotes := [q] } text
    rw [none] at back
    exact filled back.symm
  have guard := guarded_escape { quotes := [q] } text
  -- The place behind the opening quote, and the state there.
  generalize hbody : c.past [q.char] (Parse.escape { quotes := [q] } text ++ q.char :: rest) = body
  have bodyRest : body.rest = Parse.escape { quotes := [q] } text ++ q.char :: rest := by
    rw [← hbody]
    rfl
  have closes := closeLongText_escaped reads ready.longText bodyRest
  have inside : InQuote ctx ⟨q, body.offset, body, none⟩
      { s with justClosed := false, longText := some ⟨q, body.offset, body, none⟩ } :=
    ⟨rfl, ready.lastSlot, ready.single, rfl⟩
  have unescaped : ({ s with justClosed := false, longText := some ⟨q, body.offset, body, none⟩ } :
      State).escape = none := ready.escape
  have opens := step_openingQuote reads ready c
    (Parse.escape { quotes := [q] } text ++ q.char :: rest)
  rw [hbody] at opens
  have passes := sweep_guarded reads inside unescaped bodyRest guard
  have behind : body.offset ≠
      (body.past (Parse.escape { quotes := [q] } text) (q.char :: rest)).offset := by
    have positive := byteLength_pos written
    rw [Cursor.past_offset]
    omega
  have ends := step_closingQuote reads inside unescaped rfl rfl behind head
  rw [closes] at ends
  refine ⟨body, (body.past (Parse.escape { quotes := [q] } text) (q.char :: rest)).offset, ?_⟩
  rw [sweep_quote reads split, opens, hbody, passes, sweep_quote reads rfl, ends, ← hbody,
    Cursor.past_past, Cursor.past_past]
  rfl

end

end State

end ChatArgs.Parse
