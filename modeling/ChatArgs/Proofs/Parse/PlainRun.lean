import ChatArgs.Proofs.Parse.PlainText

/-!
# Parsing a plain text

A word in front of the last slot fills its slot, whatever tokens it is cut into. The last
slot stays open to the end of the text and takes everything from its first word on.
-/

namespace ChatArgs.Parse

open Text

/-- A token stands in front of every rest of a word, and is a part of it. -/
theorem exists_token_in_word (d : Delimiters) {more after : List Char} (filled : more ≠ [])
    (visible : ∀ c ∈ more, isGap c = false) (stop : ∀ c ∈ after.head?, isGap c = true) :
    ∃ kind text more', more = text ++ more' ∧ TokenFront d kind text (more' ++ after) ∧
      tokenAt? d (more ++ after) = some (kind, text.length) := by
  obtain ⟨x, xs, rfl⟩ := List.exists_cons_of_ne_nil filled
  have shown : isGap x = false := visible x (by simp)
  rcases tokenAt?_cases d x (xs ++ after) with ⟨-, gap⟩ | ⟨kind, text, rest, split, front, found⟩
  · simp [shown] at gap
  · have notLineFeeds : kind ≠ .lineFeeds := by
      rintro rfl
      cases front with
      | lineFeeds positive _ =>
          obtain ⟨count, rfl⟩ := Nat.exists_eq_add_of_lt positive
          have lineFeed : x = '\n' := by
            have heads := congrArg List.head? split
            simpa [List.replicate_succ] using heads
          rw [lineFeed] at shown
          exact absurd shown (by decide)
    have outside : ∀ c ∈ after.head?, c ∉ text := by
      intro c hc member
      have shown := front.visible notLineFeeds c member
      simp [stop c hc] at shown
    rw [← List.cons_append] at split
    obtain ⟨more', inner, rfl⟩ := exists_in_front split outside
    exact ⟨kind, text, more', inner, front, found⟩

namespace State

variable {ctx : Context} {done : List Filling}

/-! ## A word -/

/-- A parse does not stop while a slot is left. -/
theorem filled_goes (counted : ctx.table.slots.length ≤ ctx.table.optionCount)
    (bound : done.length < ctx.table.slots.length) : (filled ctx done).stops ctx = false := by
  have left : ¬ ctx.table.optionCount ≤
      (filled ctx done).takenCount + (filled ctx done).filledFlags.length := by
    have taken : (filled ctx done).takenCount = done.length := rfl
    have flags : (filled ctx done).filledFlags = [] := rfl
    rw [taken, flags, List.length_nil]
    omega
  rw [stops, allFilled, decide_eq_false left, Bool.and_false]

namespace WordRest

variable {place : Cursor} {pre more after : List Char}

theorem goes (word : WordRest ctx done place pre more after) :
    (inWord ctx done place pre).stops ctx = false :=
  filled_goes word.counted word.bound

theorem sweep_token (word : WordRest ctx done place pre more after) (filled : more ≠ [])
    (quotes : QuotesArePlain ctx done more) :
    ∃ text more' s', more = text ++ more' ∧ text ≠ [] ∧
      Consumes ctx done place pre text more' after s' ∧
      (inWord ctx done place pre).sweep ctx (place.past pre (more ++ after)) =
        s'.sweep ctx (place.past (pre ++ text) (more' ++ after)) := by
  obtain ⟨kind, text, more', rfl, front, found⟩ :=
    exists_token_in_word ctx.patterns.delimiters filled word.visible word.stop
  have consumed := word.step quotes front
  rw [List.append_assoc] at found ⊢
  have next := State.sweep_token (c := place.past pre (text ++ (more' ++ after))) rfl found
    word.goes
  rw [Cursor.past_past] at next
  exact ⟨text, more', _, rfl, front.ne_nil, consumed, next⟩

/-- A word in front of the last slot fills its slot. -/
theorem sweep_word (word : WordRest ctx done place pre more after) {option : OptionDecl}
    (slot : ctx.table.slots[done.length]? = some option)
    (fresh : option.name ∉ done.map (·.name))
    (bound : done.length + 1 < ctx.table.slots.length) (nonempty : more ≠ [])
    (quotes : ∀ c ∈ more, ctx.patterns.delimiters.isQuoteChar c = false) :
    (inWord ctx done place pre).sweep ctx (place.past pre (more ++ after)) =
      (filled ctx (done ++ [⟨option.name, String.ofList (pre ++ more),
        ⟨place.offset, (place.past (pre ++ more) after).offset⟩⟩])).sweep ctx
        (place.past (pre ++ more) after) := by
  induction length : more.length using Nat.strong_induction_on generalizing pre more with
  | _ size ih =>
      subst length
      obtain ⟨text, more', s', rfl, shorter, consumed, next⟩ :=
        word.sweep_token nonempty (.inl quotes)
      rw [next]
      cases consumed with
      | held goesOn =>
          have positive := List.length_pos_iff.2 shorter
          have fewer : more'.length < (text ++ more').length := by
            rw [List.length_append]
            omega
          have quotes' : ∀ c ∈ more', ctx.patterns.delimiters.isQuoteChar c = false :=
            fun c member => quotes c (List.mem_append_right text member)
          rw [ih more'.length fewer word.advance goesOn quotes' rfl]
          simp only [List.append_assoc]
      | placed ends =>
          have last : ¬ done.length + 1 = ctx.table.slots.length := Nat.ne_of_lt bound
          have whole : more' = [] := by
            rcases ends with whole | ends
            · exact whole
            · exact absurd ends last
          subst whole
          rw [fillSlot_inWord slot fresh rfl, if_neg last]
          simp only [List.append_nil, List.nil_append, String.ofList_append]
          rfl

end WordRest

/-! ## The last slot -/

section

variable {s : State} (opened : s.lastSlot.isSome = true) (noLong : s.longText = none)
  (noNamed : s.named = none) (notClosed : s.justClosed = false)
include opened noLong noNamed notClosed

theorem step_lastSlot {kind : TokenKind} {c : Cursor} {text rest : List Char}
    (undeclared : ∀ escapes opening name, kind = .marker escapes opening name →
      ctx.table.option? name = none) :
    s.step ctx (.reading kind c text rest) = s := by
  have unclosed : ({ s with justClosed := false } : State) = s := by rw [← notClosed]
  have other : s.onOther ctx (.reading kind c text rest) false = s := by
    simp [onOther, openSingle?, noNamed, opened]
  rw [step, unclosed, notClosed, noLong]
  cases kind with
  | marker escapes opening name =>
      have none := undeclared escapes opening name rfl
      simp [Token.reading, onMarker, none, literalMarker, opened]
  | delimiter => exact other
  | word => exact other
  | backslashes => exact other
  | lineFeeds => exact other

theorem sweep_lastSlot {c : Cursor} (plain : PlainText ctx c.rest) : s.sweep ctx c = s := by
  induction c, s using sweep_induction ctx with
  | finish c s ends =>
      rcases ends with ends | stops
      · exact sweep_end ends
      · exact sweep_of_stops stops
  | skip c s x rest split gap none goes ih =>
      rw [sweep_skip split none]
      apply ih opened noLong noNamed notClosed
      exact plain.suffix [x] split
  | token c s kind text rest split front found goes ih =>
      have same : s.step ctx (.reading kind c text rest) = s := by
        apply step_lastSlot opened noLong noNamed notClosed
        rintro escapes opening name rfl
        exact plain.noMarker [] text rest escapes opening name split front
      rw [sweep_token split found goes]
      rw [same] at ih ⊢
      apply ih opened noLong noNamed notClosed
      exact plain.suffix text split

end

def finds (s : State) (fillings : List Filling) : Prop :=
  s.values = ⟨fillings.map fun f => (f.name, f.value)⟩ ∧
    s.spans = ⟨fillings.map fun f => (f.name, f.span)⟩

/-- The open last slot takes the text from the start of its word, trimmed. -/
theorem closeAll_lastSlot {name : String} {place : Cursor} {pre rest : List Char}
    (fresh : name ∉ done.map (·.name)) (split : place.rest = pre ++ rest)
    (total : place.offset + byteLength place.rest = ctx.length)
    (noBackslash : ctx.patterns.delimiters.isActive = true → '\\' ∉ rest) (value : String)
    (span : Span) :
    (({ filled ctx (done ++ [⟨name, value, span⟩]) with
        lastSlot := some ⟨name, place.past pre rest, place.offset, String.ofList pre⟩ } :
          State).closeAll ctx).finds
      (done ++ [⟨name, String.ofList (trim place.rest), ⟨place.offset, ctx.length⟩⟩]) := by
  have raw : (place.past pre rest).textTo ctx.length = rest := by
    have stop : (place.past pre rest).offset + byteLength (place.past pre rest).rest =
        ctx.length := by
      rw [split, byteLength_append] at total
      rw [Cursor.past_offset, Cursor.past_rest]
      omega
    rw [← stop]
    exact Cursor.textTo_eq_rest
  have literal (e : Option EscapeSet) (off : ctx.patterns.delimiters.isActive = false → e = none) :
      unescapeWith e rest = rest := by
    cases e with
    | none => rfl
    | some e =>
        have active : ctx.patterns.delimiters.isActive = true := by
          cases active : ctx.patterns.delimiters.isActive with
          | true => rfl
          | false => exact absurd (off active) (by simp)
        exact unescape_of_notMem e (noBackslash active)
  have unescaped : unescapeWith
      (if ctx.config.plainLast.isSome = true then ctx.patterns.delimiters.unquotedEscapes none
        else ctx.patterns.delimiters.textEscapes none) rest = rest := by
    split
    · exact literal _ fun off => by simp [Delimiters.unquotedEscapes, off]
    · exact literal _ fun off => by simp [Delimiters.textEscapes, off]
  have freshValue : name ∉ (done.map fun f => (f.name, f.value)).map (·.1) := by
    simpa using fresh
  have freshSpan : name ∉ (done.map fun f => (f.name, f.span)).map (·.1) := by
    simpa using fresh
  simp [closeAll, closeLastSlot, closeNamed, closeLongText, setValue, finds, filled, raw,
    unescaped, split, Entries.insert, Entries.put_append_of_notMem freshValue,
    Entries.put_append_of_notMem freshSpan, Entries.put]

/-- The last slot takes the text from its first word on, whatever tokens it is cut into. -/
theorem WordRest.closeAll_sweep {place : Cursor} {pre more after : List Char}
    (word : WordRest ctx done place pre more after) {option : OptionDecl}
    (slot : ctx.table.slots[done.length]? = some option)
    (fresh : option.name ∉ done.map (·.name))
    (last : done.length + 1 = ctx.table.slots.length) (nonempty : more ≠ [])
    (total : place.offset + byteLength place.rest = ctx.length)
    (quotes : QuotesArePlain ctx done more) :
    (((inWord ctx done place pre).sweep ctx (place.past pre (more ++ after))).closeAll ctx).finds
      (done ++ [⟨option.name, String.ofList (trim place.rest), ⟨place.offset, ctx.length⟩⟩]) := by
  induction length : more.length using Nat.strong_induction_on generalizing pre more with
  | _ size ih =>
      subst length
      obtain ⟨text, more', s', rfl, shorter, consumed, next⟩ := word.sweep_token nonempty quotes
      rw [next]
      cases consumed with
      | held goesOn =>
          have positive := List.length_pos_iff.2 shorter
          have fewer : more'.length < (text ++ more').length := by
            rw [List.length_append]
            omega
          exact ih more'.length fewer word.advance goesOn (quotes.of_append rfl) rfl
      | placed _ =>
          have split := word.split
          have plain := word.plain
          rw [List.append_assoc] at split plain
          rw [fillSlot_inWord slot fresh rfl, if_pos last,
            sweep_lastSlot rfl rfl rfl rfl (plain.suffix text rfl)]
          exact closeAll_lastSlot fresh split total plain.noBackslash _ _

/-! ## Word after word -/

theorem sweep_gap (ctx : Context) (done : List Filling) {c : Cursor} {x : Char} {xs : List Char}
    (all : c.rest = x :: xs) (gap : isGap x = true) :
    ∃ run rest, c.rest = run ++ rest ∧ run ≠ [] ∧ (∀ y ∈ run, isGap y = true) ∧
      (filled ctx done).sweep ctx c = (filled ctx done).sweep ctx (c.past run rest) := by
  rcases tokenAt?_cases ctx.patterns.delimiters x xs with
    ⟨none, -⟩ | ⟨kind, text, rest, split, front, found⟩
  · rw [← all] at none
    refine ⟨[x], xs, all, by simp, ?_, sweep_skip all none⟩
    intro y hy
    rw [List.mem_singleton.1 hy]
    exact gap
  · rw [← all] at split found
    have start : x ∈ text := by
      obtain ⟨y, text, rfl⟩ := List.exists_cons_of_ne_nil front.ne_nil
      rw [all] at split
      rw [(List.cons.inj split).1]
      exact List.mem_cons_self
    -- Line feeds are the only token that is not visible, and they do nothing here.
    obtain rfl := front.kind_of_gap start gap
    refine ⟨text, rest, split, front.ne_nil, ?_, ?_⟩
    · cases front with
      | lineFeeds _ _ =>
          intro y hy
          rw [List.eq_of_mem_replicate hy]
          decide
    · cases stops : (filled ctx done).stops ctx with
      | true => rw [sweep_of_stops stops, sweep_of_stops stops]
      | false =>
          rw [sweep_token split found stops]
          rfl

theorem drop_slot_names {option : OptionDecl}
    (slot : ctx.table.slots[done.length]? = some option) :
    (ctx.table.slots.map (·.name)).drop done.length =
      option.name :: (ctx.table.slots.map (·.name)).drop (done.length + 1) := by
  have named : (ctx.table.slots.map (·.name))[done.length]? = some option.name := by
    rw [List.getElem?_map, slot]
    rfl
  obtain ⟨small, named⟩ := List.getElem?_eq_some_iff.1 named
  rw [List.drop_eq_getElem_cons small, named]

section

variable (names : done.map (·.name) = (ctx.table.slots.map (·.name)).take done.length)
  {option : OptionDecl} (slot : ctx.table.slots[done.length]? = some option)
include names slot

theorem name_notMem_filled (distinct : (ctx.table.slots.map (·.name)).Nodup) :
    option.name ∉ done.map (·.name) := by
  have named : (ctx.table.slots.map (·.name))[done.length]? = some option.name := by
    rw [List.getElem?_map, slot]
    rfl
  obtain ⟨bound, named⟩ := List.getElem?_eq_some_iff.1 named
  intro old
  rw [names] at old
  obtain ⟨index, small, same⟩ := List.mem_take_iff_getElem.1 old
  have equal := (List.getElem_inj distinct).1 (same.trans named.symm)
  omega

theorem names_filled_concat (value : String) (span : Span) :
    (done ++ [(⟨option.name, value, span⟩ : Filling)]).map (·.name) =
      (ctx.table.slots.map (·.name)).take
        (done ++ [(⟨option.name, value, span⟩ : Filling)]).length := by
  rw [List.length_append, List.length_singleton, List.take_add_one, ← names, List.getElem?_map,
    slot]
  simp

end

/-- A parse stands between words: `done` is found, and the text behind `c` is left, whose
words in front of the slot number `checked` hold no quotes. -/
structure BetweenWords (ctx : Context) (checked : Nat) (done : List Filling) (c : Cursor) :
    Prop where
  names : done.map (·.name) = (ctx.table.slots.map (·.name)).take done.length
  bound : done.length < ctx.table.slots.length
  total : c.offset + byteLength c.rest = ctx.length
  outside : isVisible c.before = true → ∀ x ∈ c.rest.head?, isGap x = true
  first : c.before = none → done = []
  plain : PlainText ctx c.rest
  noQuotes : ∀ place ∈ (wordStarts c.offset c.before c.rest).take (checked - done.length),
    ∀ x ∈ wordAt place, ctx.patterns.delimiters.isQuoteChar x = false

namespace BetweenWords

variable {checked : Nat} {c : Cursor} {after : List Char}

theorem fresh (between : BetweenWords ctx checked done c)
    (distinct : (ctx.table.slots.map (·.name)).Nodup) {option : OptionDecl}
    (slot : ctx.table.slots[done.length]? = some option) : option.name ∉ done.map (·.name) :=
  name_notMem_filled between.names slot distinct

theorem noQuotes_word (between : BetweenWords ctx checked done c) (word : AtWord c after)
    (checks : done.length < checked) :
    ∀ x ∈ wordAt c, ctx.patterns.delimiters.isQuoteChar x = false := by
  apply between.noQuotes c
  obtain ⟨count, left⟩ : ∃ count, checked - done.length = count + 1 :=
    ⟨checked - done.length - 1, by omega⟩
  rw [word.later, left, List.take_succ_cons]
  exact List.mem_cons_self

theorem gap {run rest : List Char} (between : BetweenWords ctx checked done c)
    (split : c.rest = run ++ rest) (filled : run ≠ []) (gaps : ∀ x ∈ run, isGap x = true) :
    wordStarts c.offset c.before c.rest =
        wordStarts (c.past run rest).offset (c.past run rest).before rest ∧
      BetweenWords ctx checked done (c.past run rest) := by
  have shift : wordStarts c.offset c.before c.rest =
      wordStarts (c.past run rest).offset (c.past run rest).before rest := by
    rw [split]
    exact wordStarts_append false gaps c.offset c.before (by simp)
  obtain ⟨last, member, before⟩ := c.exists_before filled rest
  exact ⟨shift, {
    names := between.names
    bound := between.bound
    total := (Cursor.past_total split).trans between.total
    outside := fun visible => by simp [before, gaps last member] at visible
    first := fun none => by simp [before] at none
    plain := between.plain.suffix run split
    noQuotes := by
      rw [Cursor.past_rest, ← shift]
      exact between.noQuotes }⟩

theorem word (between : BetweenWords ctx checked done c) (word : AtWord c after)
    {option : OptionDecl} (slot : ctx.table.slots[done.length]? = some option)
    (bound : done.length + 1 < ctx.table.slots.length) (value : String) (span : Span) :
    BetweenWords ctx checked (done ++ [⟨option.name, value, span⟩])
      (c.past (wordAt c) after) := by
  obtain ⟨last, -, before⟩ := c.exists_before word.filled after
  have length : (done ++ [(⟨option.name, value, span⟩ : Filling)]).length = done.length + 1 :=
    List.length_append
  exact {
    names := names_filled_concat between.names slot value span
    bound := length ▸ bound
    total := (Cursor.past_total word.split).trans between.total
    outside := fun _ => word.stop
    first := fun none => by simp [before] at none
    plain := between.plain.suffix _ word.split
    noQuotes := by
      rw [length]
      intro place member
      apply between.noQuotes
      rw [word.later]
      cases left : checked - done.length with
      | zero =>
          have none : checked - (done.length + 1) = 0 := by omega
          simp [none] at member
      | succ count =>
          have fewer : checked - (done.length + 1) = count := by omega
          rw [fewer] at member
          rw [List.take_succ_cons]
          exact List.mem_cons_of_mem c member }

theorem wordRest (between : BetweenWords ctx checked done c) (word : AtWord c after)
    (counted : ctx.table.slots.length ≤ ctx.table.optionCount) :
    WordRest ctx done c [] (wordAt c) after where
  bound := between.bound
  counted := counted
  outside := word.outside
  first := between.first
  split := word.split
  visible := word.visible
  stop := word.stop
  plain := by
    rw [← word.split]
    exact between.plain

theorem exists_slot (between : BetweenWords ctx checked done c) :
    ∃ option, ctx.table.slots[done.length]? = some option :=
  ⟨_, List.getElem?_eq_getElem between.bound⟩

end BetweenWords

section

variable {c : Cursor} {checked : Nat} (distinct : (ctx.table.slots.map (·.name)).Nodup)
  (counted : ctx.table.slots.length ≤ ctx.table.optionCount)
  (enough : checked = ctx.table.slots.length ∨
    checked + 1 = ctx.table.slots.length ∧ ctx.config.plainLast = some ⟨false⟩)
  (between : BetweenWords ctx checked done c)
include distinct counted enough between

theorem sweep_nextWord {option : OptionDecl} {after : List Char} (word : AtWord c after)
    (slot : ctx.table.slots[done.length]? = some option)
    (bound : done.length + 1 < ctx.table.slots.length) :
    (filled ctx done).sweep ctx c =
      (filled ctx (done ++ [⟨option.name, String.ofList (wordAt c),
        ⟨c.offset, c.offset + byteLength (wordAt c)⟩⟩])).sweep ctx (c.past (wordAt c) after) := by
  have here := Cursor.past_nil_of_rest word.split
  have found := (between.wordRest word counted).sweep_word slot (between.fresh distinct slot) bound
    word.filled (between.noQuotes_word word (by omega))
  rw [here] at found
  exact found

theorem closeAll_lastWord {option : OptionDecl} {after : List Char} (word : AtWord c after)
    (slot : ctx.table.slots[done.length]? = some option)
    (last : done.length + 1 = ctx.table.slots.length) :
    (((filled ctx done).sweep ctx c).closeAll ctx).finds
      (done ++ [⟨option.name, String.ofList (trim c.rest), ⟨c.offset, ctx.length⟩⟩]) := by
  have here := Cursor.past_nil_of_rest word.split
  have quotes : QuotesArePlain ctx done (wordAt c) := by
    rcases enough with whole | ⟨-, plainLast⟩
    · exact .inl (between.noQuotes_word word (by omega))
    · exact .inr ⟨plainLast, last⟩
  have found := (between.wordRest word counted).closeAll_sweep slot (between.fresh distinct slot)
    last word.filled between.total quotes
  rw [here] at found
  exact found

/-- Slots take words one after the other, and the last slot takes what is left. -/
theorem closeAll_sweep_filled :
    (((filled ctx done).sweep ctx c).closeAll ctx).finds
      (done ++ wordFillings ctx.length ((ctx.table.slots.map (·.name)).drop done.length)
        (wordStarts c.offset c.before c.rest)) := by
  induction length : c.rest.length using Nat.strong_induction_on generalizing c done with
  | _ size ih =>
      subst length
      cases all : c.rest with
      | nil =>
          rw [sweep_end all, wordStarts, wordFillings_nil, List.append_nil]
          exact ⟨rfl, rfl⟩
      | cons x xs =>
          rw [← all]
          by_cases gap : isGap x = true
          · obtain ⟨run, rest, split, nonempty, gaps, same⟩ := sweep_gap ctx done all gap
            obtain ⟨shift, between⟩ := between.gap split nonempty gaps
            have positive := List.length_pos_iff.2 nonempty
            rw [same, shift]
            apply ih rest.length _ between rfl
            rw [split, List.length_append]
            omega
          · have shown : isGap x = false := by simpa using gap
            have outside : isVisible c.before = false := by
              cases before : isVisible c.before with
              | false => rfl
              | true => exact absurd (between.outside before x (by simp [all])) gap
            obtain ⟨after, word⟩ := exists_word all shown outside
            obtain ⟨option, slot⟩ := between.exists_slot
            have bound := between.bound
            rw [word.later, drop_slot_names slot]
            by_cases last : done.length + 1 = ctx.table.slots.length
            · have none : (ctx.table.slots.map (·.name)).drop (done.length + 1) = [] := by
                rw [List.drop_eq_nil_iff, List.length_map]
                omega
              rw [none]
              exact closeAll_lastWord distinct counted enough between word slot last
            · have more : (ctx.table.slots.map (·.name)).drop (done.length + 1) ≠ [] := by
                rw [ne_eq, List.drop_eq_nil_iff, List.length_map]
                omega
              have positive := List.length_pos_iff.2 word.filled
              have shorter : after.length < c.rest.length := by
                rw [word.split, List.length_append]
                omega
              have rest := ih after.length shorter (between.word word slot (by omega)
                (String.ofList (wordAt c)) ⟨c.offset, c.offset + byteLength (wordAt c)⟩) rfl
              rw [List.append_assoc, List.length_append] at rest
              rw [sweep_nextWord distinct counted enough between word slot (by omega),
                wordFillings_cons more]
              exact rest

end

end State

end ChatArgs.Parse
