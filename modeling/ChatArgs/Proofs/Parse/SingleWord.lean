import ChatArgs.Proofs.Parse.Nameable
import ChatArgs.Proofs.Parse.QuotedItems

/-!
# Words for options that take one value

A word of letters and digits is a token of its own up to what separates words. Where an option
that takes one value is open, the word goes to it; but it is glued to the value that was given
last if nothing stands between the marker and the word and nothing was closed at the marker.
-/

namespace ChatArgs.Parse

open Text

/-! ## Letters and digits -/

theorem isQuoteChar_of_isNamePart (d : Delimiters) {c : Char} (part : isNamePart c = true) :
    d.isQuoteChar c = false := by
  by_contra quote
  rw [Bool.not_eq_false] at quote
  obtain ⟨q, -, rfl⟩ := exists_quote_of_isQuoteChar quote
  cases q <;> exact absurd part (by decide)

theorem isWordChar_of_isNamePart (d : Delimiters) {c : Char} (part : isNamePart c = true) :
    isWordChar d c = true := by
  simp [isWordChar, isGap_of_isNamePart part, isQuoteChar_of_isNamePart d part,
    ne_backslash_of_isNamePart part]

theorem isGap_of_head {x : Char} (gap : isGap x = true) (rest : List Char) :
    ∀ y ∈ (x :: rest).head?, isGap y = true := by
  rintro y ⟨⟩
  exact gap

section

variable {word : List Char} (parts : ∀ c ∈ word, isNamePart c = true)
include parts

theorem backslash_notMem_of_nameParts : '\\' ∉ word := fun member =>
  absurd (parts '\\' member) (by decide)

theorem trim_of_nameParts : trim word = word :=
  trim_of_visible fun c member => isBlank_of_isNamePart (parts c member)

theorem all_isBlank_of_nameParts (filled : word ≠ []) : word.all isBlank = false := by
  obtain ⟨x, xs, rfl⟩ := List.exists_cons_of_ne_nil filled
  simp [isBlank_of_isNamePart (parts x List.mem_cons_self)]

end

theorem marker?_of_nameParts (d : Delimiters) (colons : Bool) {word rest : List Char}
    (filled : word ≠ []) (parts : ∀ c ∈ word, isNamePart c = true)
    (stop : ∀ c ∈ rest.head?, isGap c = true) : marker? d colons (word ++ rest) = none := by
  obtain ⟨x, xs, rfl⟩ := List.exists_cons_of_ne_nil filled
  have part := parts x List.mem_cons_self
  have run : (x :: xs ++ rest).takeWhile isNamePart = x :: xs := by
    apply takeWhile_append_stop parts
    intro c head
    by_contra name
    rw [Bool.not_eq_false] at name
    have gap := stop c head
    rw [isGap_of_isNamePart name] at gap
    exact absurd gap (by decide)
  have noColon : rest.head? ≠ some ':' := by
    intro colon
    exact absurd (stop ':' colon) (by decide)
  have noMarker : colonMarker? 0 (x :: xs ++ rest) = none := by
    simp only [colonMarker?, run, List.drop_left]
    simp [noColon]
  rw [marker?, List.cons_append, takeWhile_backslash_of_namePart part]
  simp only [List.length_nil, List.drop_zero, hyphenMarker?_of_namePart part]
  rw [← List.cons_append, noMarker, ite_self]

/-- A word of letters and digits goes on up to what separates words. -/
theorem tokenAt?_word (d : Delimiters) {word rest : List Char} (filled : word ≠ [])
    (parts : ∀ c ∈ word, isNamePart c = true) (stop : ∀ c ∈ rest.head?, isGap c = true) :
    tokenAt? d (word ++ rest) = some (.word, word.length) := by
  have unmarked (colons : Bool) := marker?_of_nameParts d colons filled parts stop
  have run : (word ++ rest).takeWhile (isWordChar d) = word := by
    apply takeWhile_append_stop fun c member => isWordChar_of_isNamePart d (parts c member)
    intro c head
    simp [isWordChar, stop c head]
  obtain ⟨x, xs, rfl⟩ := List.exists_cons_of_ne_nil filled
  have part := parts x List.mem_cons_self
  have isWord := isWordChar_of_isNamePart d part
  have noDelimiter : isDelimiterChar d x = false := by
    have noSign : x ≠ '-' ∧ x ≠ ':' := by
      constructor <;> rintro rfl <;> exact absurd part (by decide)
    simp [isDelimiterChar, isQuoteChar_of_isNamePart d part, noSign]
  rw [List.cons_append] at unmarked run ⊢
  simp [tokenAt?, matchAt?, unmarked, noDelimiter, isWord, run]

theorem tokenAt?_markerOf_sign {d : Delimiters} {name : String}
    (enabled : d.hasDoubleHyphen = true) (valid : IsIdentifier name.toList) (rest : List Char) :
    tokenAt? d (markerOf name ++ '=' :: rest) =
      some (.marker 0 (.hyphens 2) name, (markerOf name ++ ['=']).length) := by
  have found := @tokenAt?_hyphens d 2 _ ('=' :: rest) (.inr ⟨rfl, enabled⟩) valid
    (by simp; decide) 0
  have size : (markerOf name ++ ['=']).length = 2 + name.toList.length + 1 := by
    simp [markerOf]
    omega
  rw [size]
  simpa [markerOf, backslashes, List.replicate, signLength] using found

namespace State

variable {ctx : Context} {p : Progress} {s : State}

/-! ## Counting what has a value -/

/-- Nothing is open and the last slot never was, and no more options have a value than are
consumed. -/
structure Tallied (ctx : Context) (p : Progress) (s : State) : Prop extends Rests ctx p s where
  unclosed : s.lastSlotClosed = false
  tally : s.takenCount + s.filledFlags.length ≤ p.consumed.length

theorem initial_tallied (ctx : Context) : Tallied ctx {} (initial ctx) :=
  ⟨initial_rests ctx, rfl, Nat.le_refl 0⟩

theorem markFilled_tally (ctx : Context) (option : OptionDecl) (s : State) :
    (s.markFilled ctx option).takenCount + (s.markFilled ctx option).filledFlags.length ≤
      s.takenCount + s.filledFlags.length + 1 := by
  refine markFilled_cases (Nat.le_succ _) (fun _ _ => Nat.le_refl _) fun slot _ => ?_
  refine take_cases (Nat.le_succ _) fun _ => ?_
  simp only
  omega

namespace Tallied

variable (tallied : Tallied ctx p s)
include tallied

theorem goes (few : p.consumed.length < ctx.table.optionCount) : s.stops ctx = false := by
  have unfilled : s.allFilled ctx = false := by
    have tally := tallied.tally
    simp only [allFilled, decide_eq_false_iff_not]
    omega
  rw [stops, unfilled, Bool.and_false]

theorem locked : Tallied ctx p (({ s with justClosed := false } : State).locked ctx) := by
  refine ⟨tallied.toRests.locked, ?_, ?_⟩
  · unfold State.locked
    split <;> exact tallied.unclosed
  · unfold State.locked
    split <;> exact tallied.tally

theorem fillNamed (distinct : (ctx.table.slots.map (·.name)).Nodup) (named : Named)
    (known : named.option.flag = true ∧
        (∀ o ∈ ctx.table.slots, o.name ≠ named.option.name) ∨
      named.option.flag = false ∧ ∃ slot, ctx.table.slotOf? named.option.name = some slot)
    (text : String) (start stop : Nat) :
    Tallied ctx (Item.read (ctx.table.slots.map (·.name)) p (.named named.option.name text))
      (({ s with named := some named } : State).fillNamed ctx named text start stop) := by
  refine ⟨tallied.toRests.fillNamed distinct named known text start stop, ?_, ?_⟩
  · rw [State.fillNamed]
    simp only
    rw [markFilled_frame]
    exact tallied.unclosed
  · refine Nat.le_trans (markFilled_tally ctx named.option _) ?_
    exact Nat.add_le_add_right tallied.tally 1

end Tallied

/-! ## Closing an option behind its word -/

/-- An option that is closed behind a word takes it. -/
theorem closeNamed_word {named : Named} {stop : Nat} {cs : List Char} {word : String}
    (opened : s.named = some named) (raw : named.start.textTo stop = cs) (plain : '\\' ∉ cs)
    (trimmed : trim cs = word.toList) (visible : word.toList.all isBlank = false) :
    s.closeNamed ctx stop = s.fillNamed ctx named word named.start.offset stop := by
  have value : s.namedValue ctx named stop = word.toList := by
    rw [namedValue_of_notMem raw plain, trimmed]
  rw [closeNamed, opened, State.fillNamed]
  simp only [value, visible, Bool.and_false, Bool.false_and, Bool.false_eq_true, if_false,
    String.ofList_toList, markFilled_setValue]

/-- What is added to a value of `p` might as well have been given with it. -/
theorem Tallied.append {slots : List String} {name text more : String}
    (tallied : Tallied ctx (Item.read slots p (.named name text)) s) (stop : Nat) :
    Tallied ctx (Item.read slots p (.named name (text ++ more))) (s.append name more stop) := by
  have values : (s.append name more stop).values = p.values.insert name (text ++ more) := by
    rw [State.append, tallied.values]
    simp only [Item.read, Entries.get?_insert, if_true, Option.getD_some]
    exact congrArg Entries.mk (Entries.put_put name text (text ++ more) p.values.toList)
  exact ⟨⟨values, tallied.taken, tallied.longText, tallied.escape, tallied.held, tallied.named,
    tallied.lastSlot, tallied.family⟩, tallied.unclosed, tallied.tally⟩

/-! ## Opening an option -/

/-- The state behind a marker that closes what is open, apart from the option that it opens. -/
def closedAt (ctx : Context) (c : Cursor) (s : State) : State :=
  (({ s with justClosed := false } : State).locked ctx).closeNamed ctx c.offset

/-- A marker at the place leaves the values and the free slots of `p`. -/
structure ClosesTo (ctx : Context) (p : Progress) (c : Cursor) (s : State) : Prop where
  longText : s.longText = none
  held : s.held = none
  lastSlot : s.lastSlot = none
  family : s.family ≠ some .colon
  goes : s.stops ctx = false
  closed : Tallied ctx p (s.closedAt ctx c)

structure TakesWord (ctx : Context) (option : OptionDecl) : Prop where
  single : option.takesOneValue ctx.config.singleValue = true
  known : option.flag = true ∧ (∀ o ∈ ctx.table.slots, o.name ≠ option.name) ∨
    option.flag = false ∧ ∃ slot, ctx.table.slotOf? option.name = some slot

theorem Tallied.closedAt_eq (tallied : Tallied ctx p s) (c : Cursor) :
    s.closedAt ctx c = ({ s with justClosed := false } : State).locked ctx :=
  closeNamed_of_none tallied.locked.named

/-- A marker that closes nothing keeps the option that was filled last. -/
theorem Tallied.closedAt_last (tallied : Tallied ctx p s) (c : Cursor) :
    (s.closedAt ctx c).lastFilled = s.lastFilled ∧ (s.closedAt ctx c).justClosed = false := by
  rw [tallied.closedAt_eq, State.locked]
  split <;> exact ⟨rfl, rfl⟩

theorem Tallied.closesTo (tallied : Tallied ctx p s)
    (few : p.consumed.length < ctx.table.optionCount) (c : Cursor) : ClosesTo ctx p c s where
  longText := tallied.longText
  held := tallied.held
  lastSlot := tallied.lastSlot
  family := tallied.family
  goes := tallied.goes few
  closed := by
    rw [tallied.closedAt_eq]
    exact tallied.locked

theorem ClosesTo.sweep_marker {c : Cursor} (closes : ClosesTo ctx p c s) {name : String}
    {option : OptionDecl} {marker rest : List Char}
    (declared : ctx.table.option? name = some option)
    (split : c.rest = marker ++ rest)
    (found : tokenAt? ctx.patterns.delimiters c.rest =
      some (.marker 0 (.hyphens 2) name, marker.length)) :
    ∃ named : Named, named.option = option ∧ named.start = c.past marker rest ∧
      s.sweep ctx c =
        ({ s.closedAt ctx c with named := some named } : State).sweep ctx (c.past marker rest) := by
  refine ⟨⟨option, c.past marker rest, c.offset, .hyphen⟩, rfl, rfl, ?_⟩
  rw [sweep_token split found closes.goes,
    step_marker closes.longText closes.held closes.lastSlot closes.family declared]
  rfl

theorem locked_named (ctx : Context) (named : Option Named) (s : State) :
    ({ s with named := named } : State).locked ctx = { s.locked ctx with named := named } := by
  unfold State.locked
  split <;> rfl

/-- A marker behind a word closes the option that is open, which takes the word. -/
theorem Tallied.closesTo_named (distinct : (ctx.table.slots.map (·.name)).Nodup)
    (tallied : Tallied ctx p s) (few : p.consumed.length < ctx.table.optionCount) {named : Named}
    (takes : TakesWord ctx named.option) {word : String} (filled : word.toList ≠ [])
    (parts : ∀ x ∈ word.toList, isNamePart x = true) {rest : List Char}
    (split : named.start.rest = word.toList ++ ' ' :: rest) {c : Cursor}
    (here : named.start.past (word.toList ++ [' ']) rest = c) :
    ClosesTo ctx (Item.read (ctx.table.slots.map (·.name)) p (.named named.option.name word)) c
        { s with named := some named } ∧
      (({ s with named := some named } : State).closedAt ctx c).justClosed = true := by
  have locked : ({ s with named := some named, justClosed := false } : State).locked ctx =
      { ({ s with justClosed := false } : State).locked ctx with named := some named } :=
    locked_named ctx (some named) { s with justClosed := false }
  have raw : named.start.textTo c.offset = word.toList ++ [' '] := by
    have whole : named.start.rest = (word.toList ++ [' ']) ++ rest := by simpa using split
    rw [← here]
    exact Cursor.textTo_eq_front whole
  have plain : '\\' ∉ word.toList ++ [' '] := by
    simp [backslash_notMem_of_nameParts parts]
  have trimmed : trim (word.toList ++ [' ']) = word.toList := by
    rw [trim_append_blank, trim_of_nameParts parts]
  have closes : ({ s with named := some named } : State).closedAt ctx c =
      ({ ({ s with justClosed := false } : State).locked ctx with
        named := some named } : State).fillNamed ctx named word named.start.offset c.offset := by
    rw [closedAt, locked]
    exact closeNamed_word rfl raw plain trimmed (all_isBlank_of_nameParts parts filled)
  constructor
  · refine ⟨tallied.longText, tallied.held, tallied.lastSlot, tallied.family,
      tallied.goes few, ?_⟩
    rw [closes]
    exact tallied.locked.fillNamed distinct named takes.known word named.start.offset c.offset
  · rw [closes, State.fillNamed]
    simp only
    rw [markFilled_frame]
    rfl

theorem Tallied.closeAll_named (distinct : (ctx.table.slots.map (·.name)).Nodup)
    (tallied : Tallied ctx p s) {named : Named} (takes : TakesWord ctx named.option)
    {word : String} (filled : word.toList ≠ []) (parts : ∀ x ∈ word.toList, isNamePart x = true)
    (split : named.start.rest = word.toList)
    (total : named.start.offset + byteLength named.start.rest = ctx.length) :
    (({ s with named := some named } : State).closeAll ctx).values =
      (Item.read (ctx.table.slots.map (·.name)) p (.named named.option.name word)).values := by
  have raw : named.start.textTo ctx.length = word.toList := by
    rw [← total, Cursor.textTo_eq_rest, split]
  have fills := tallied.fillNamed distinct named takes.known word named.start.offset ctx.length
  have noLast : ({ s with named := some named } : State).lastSlot = none := tallied.lastSlot
  rw [closeAll, closeLastSlot_of_none noLast,
    closeNamed_word rfl raw (backslash_notMem_of_nameParts parts) (trim_of_nameParts parts)
      (all_isBlank_of_nameParts parts filled), closeLongText, fills.longText]
  exact fills.values

/-! ## The word behind it -/

theorem onWord_eq_place {c : Cursor} {word rest : List Char} (split : c.rest = word ++ rest)
    {justClosed : Bool}
    (apart : justClosed = true ∨ s.lastFilled = none ∨ ∃ x ∈ c.before, isGap x = true) :
    s.onWord ctx (.reading .word c word rest) justClosed =
      s.place ctx (String.ofList word) c (c.past word rest).offset false := by
  have text := Token.reading_text .word split
  rw [onWord, text]
  rcases apart with closed | unfilled | ⟨x, before, gap⟩
  · simp [closed, Token.reading]
  · simp [unfilled, Token.reading]
  · simp [Token.reading, Option.mem_def.1 before, gap]

/-- Where nothing is open, a word that stands apart goes to the next slot. -/
theorem step_word (noLong : s.longText = none) (noHeld : s.held = none) (noNamed : s.named = none)
    (noLast : s.lastSlot = none) {c : Cursor} {word rest : List Char}
    (split : c.rest = word ++ rest) (apart : s.lastFilled = none ∨ ∃ x ∈ c.before, isGap x = true) :
    s.step ctx (.reading .word c word rest) =
      ({ s with justClosed := false } : State).fillSlot ctx (String.ofList word) c
        (c.past word rest).offset false := by
  have read : s.step ctx (.reading .word c word rest) =
      ({ s with justClosed := false } : State).onWord ctx (.reading .word c word rest)
        s.justClosed := by
    simp [step, onOther, openSingle?, Token.reading, noLong, noNamed, noLast]
  have placed : ({ s with justClosed := false } : State).onWord ctx
        (.reading .word c word rest) s.justClosed =
      ({ s with justClosed := false } : State).place ctx (String.ofList word) c
        (c.past word rest).offset false := onWord_eq_place split (.inr apart)
  rw [read, placed]
  simp [place, openSingle?, noNamed, noHeld]

theorem sweep_wordToken {c : Cursor} {word rest : List Char} (filled : word ≠ [])
    (parts : ∀ x ∈ word, isNamePart x = true) (stop : ∀ x ∈ rest.head?, isGap x = true)
    (split : c.rest = word ++ rest) (goes : s.stops ctx = false) :
    s.sweep ctx c = (s.step ctx (.reading .word c word rest)).sweep ctx (c.past word rest) := by
  apply sweep_token split _ goes
  rw [split]
  exact tokenAt?_word _ filled parts stop

theorem onOther_word {named : Named} (single : s.openSingle? ctx = some named)
    (noLast : s.lastSlot = none) (unclosed : s.lastSlotClosed = false)
    (free : s.freeSlot? ≠ none) (noLong : s.longText = none) {t : Token} (kind : t.kind = .word)
    (justClosed : Bool) : s.onOther ctx t justClosed = s.onWord ctx t justClosed := by
  have room : s.freeSlot?.isNone = false := by
    rw [Option.isNone_eq_false_iff, Option.isSome_iff_ne_none]
    exact free
  simp [onOther, kind, single, noLast, unclosed, room, noLong]

structure Awaits (ctx : Context) (p : Progress) (s : State) : Prop extends Rests ctx p s where
  unclosed : s.lastSlotClosed = false
  goes : s.stops ctx = false
  free : s.freeSlot? ≠ none

theorem Tallied.awaits (tallied : Tallied ctx p s) (few : p.consumed.length < ctx.table.optionCount)
    (free : s.freeSlot? ≠ none) : Awaits ctx p s :=
  ⟨tallied.toRests, tallied.unclosed, tallied.goes few, free⟩

theorem fillNamed_lastFilled (named : Named) (value : String) (start stop : Nat) :
    (s.fillNamed ctx named value start stop).lastFilled = some named.option.name := by
  rw [fillNamed, markFilled_frame]
  rfl

section

variable (awaits : Awaits ctx p s) {named : Named} (takes : TakesWord ctx named.option) {c : Cursor}
  {word rest : List Char} (filled : word ≠ []) (parts : ∀ x ∈ word, isNamePart x = true)
  (stop : ∀ x ∈ rest.head?, isGap x = true) (split : c.rest = word ++ rest)
include awaits takes filled parts stop split

theorem sweep_wordOf :
    ({ s with named := some named } : State).sweep ctx c =
      (({ s with named := some named, justClosed := false } : State).onWord ctx
        (.reading .word c word rest) s.justClosed).sweep ctx (c.past word rest) := by
  have goes : ({ s with named := some named } : State).stops ctx = false := awaits.goes
  have opened : ({ s with named := some named, justClosed := false } : State).openSingle? ctx =
      some named := by simp [openSingle?, takes.single]
  have step : ({ s with named := some named } : State).step ctx (.reading .word c word rest) =
      ({ s with named := some named, justClosed := false } : State).onWord ctx
        (.reading .word c word rest) s.justClosed :=
    onOther_word opened awaits.lastSlot awaits.unclosed awaits.free awaits.longText rfl s.justClosed
  rw [sweep_wordToken filled parts stop split goes, step]

/-- A word goes to the option if it stands apart, or if nothing can be added to. -/
theorem sweep_wordApart
    (apart : s.justClosed = true ∨ s.lastFilled = none ∨ ∃ x ∈ c.before, isGap x = true) :
    ({ s with named := some named } : State).sweep ctx c =
      (({ s with named := some named } : State).fillNamed ctx named (String.ofList word) c.offset
        (c.past word rest).offset).sweep ctx (c.past word rest) := by
  have opened : ({ s with named := some named, justClosed := false } : State).openSingle? ctx =
      some named := by simp [openSingle?, takes.single]
  have placed : ({ s with named := some named, justClosed := false } : State).onWord ctx
        (.reading .word c word rest) s.justClosed =
      ({ s with named := some named, justClosed := false } : State).place ctx (String.ofList word) c
        (c.past word rest).offset false :=
    onWord_eq_place (s := { s with named := some named, justClosed := false }) split apart
  rw [sweep_wordOf awaits takes filled parts stop split, placed]
  simp only [State.place, opened]
  rfl

/-- A word directly behind the marker is added to the value that was given last. -/
theorem sweep_wordAttached {last : String} (lastFilled : s.lastFilled = some last)
    (unclosed : s.justClosed = false) (shown : ∃ x ∈ c.before, isGap x = false) :
    ({ s with named := some named } : State).sweep ctx c =
      ({ s.append last (String.ofList word) (c.past word rest).offset with
        named := some named } : State).sweep ctx (c.past word rest) := by
  have text := Token.reading_text .word split
  obtain ⟨x, before, visible⟩ := shown
  have glued : ({ s with named := some named, justClosed := false } : State).onWord ctx
        (.reading .word c word rest) s.justClosed =
      ({ s with named := some named, justClosed := false } : State).append last
        (String.ofList word) (c.past word rest).offset := by
    rw [onWord, text]
    simp [Token.reading, unclosed, awaits.held, Option.mem_def.1 before, visible, lastFilled]
  rw [sweep_wordOf awaits takes filled parts stop split, glued, ← unclosed]
  rfl

end

/-! ## An option and its word -/

structure FitsWord (ctx : Context) (name word : String) : Prop where
  item : FitsItem ctx (.named name word)
  parts : ∀ x ∈ word.toList, isNamePart x = true

theorem FitsWord.filled {name word : String} (fits : FitsWord ctx name word) :
    word.toList ≠ [] := fun empty => fits.item.1 (String.toList_eq_nil_iff.1 empty)

theorem FitsWord.exists_option {name word : String} (fits : FitsWord ctx name word) :
    ∃ option, ctx.table.option? name = some option ∧ option.name = name ∧ TakesWord ctx option := by
  obtain ⟨-, -, -, option, declared, same, single, known⟩ := fits.item
  exact ⟨option, declared, same, single, known⟩

/-- The parse goes on behind options with these names, since some slot is left. -/
structure Leaves (ctx : Context) (p : Progress) (names : List String) : Prop where
  few : p.consumed.length + names.length < ctx.table.optionCount
  room : ∃ o ∈ ctx.table.slots, o.name ∉ p.consumed ∧ o.name ∉ names

namespace Leaves

variable {name : String} {names : List String}

theorem goes (leaves : Leaves ctx p names) : p.consumed.length < ctx.table.optionCount :=
  Nat.lt_of_le_of_lt (Nat.le_add_right _ _) leaves.few

theorem freeSlot_ne_none (leaves : Leaves ctx p names) (rests : Rests ctx p s) :
    s.freeSlot? ≠ none := by
  intro full
  obtain ⟨o, slot, free, -⟩ := leaves.room
  have taken := find_of_noFreeSlot rests.taken full
  rw [List.find?_eq_none] at taken
  exact taken o.name (List.mem_map_of_mem slot) (by simpa using free)

theorem read (leaves : Leaves ctx p (name :: names)) (slots : List String) (text : String) :
    Leaves ctx (Item.read slots p (.named name text)) names := by
  obtain ⟨few, o, slot, free, other⟩ := leaves
  rw [List.length_cons] at few
  rw [List.mem_cons, not_or] at other
  refine ⟨?_, o, slot, ?_, other.2⟩
  · simp only [Item.read, List.length_cons]
    omega
  · simpa [Item.read] using ⟨other.1, free⟩

end Leaves

section

variable {c : Cursor} {name word : String} (fits : FitsWord ctx name word) {rest : List Char}
  (stop : ∀ x ∈ rest.head?, isGap x = true)
  (split : c.rest = markerOf name ++ ' ' :: (word.toList ++ rest))
include fits stop split

theorem sweep_namedWord (noLong : s.longText = none) (noHeld : s.held = none)
    (noLast : s.lastSlot = none) (family : s.family ≠ some .colon) (goes : s.stops ctx = false)
    (awaits : Awaits ctx p (s.closedAt ctx c)) :
    ∃ (named : Named) (start stop : Nat), ctx.table.option? name = some named.option ∧
      named.option.name = name ∧ TakesWord ctx named.option ∧
      s.sweep ctx c =
        (({ s.closedAt ctx c with named := some named } : State).fillNamed ctx named word start
          stop).sweep ctx (c.past (markerOf name ++ ' ' :: word.toList) rest) := by
  obtain ⟨-, enabled, valid, -⟩ := fits.item
  obtain ⟨option, declared, rfl, takes⟩ := fits.exists_option
  have opens := sweep_marker noLong noHeld noLast family declared enabled valid goes split
  generalize hbehind : c.past (markerOf option.name) (' ' :: (word.toList ++ rest)) = behind
    at opens
  have blank : behind.rest = ' ' :: (word.toList ++ rest) := by rw [← hbehind]; rfl
  generalize hplace : behind.past [' '] (word.toList ++ rest) = place
  obtain ⟨named, hnamed⟩ : ∃ named : Named, ⟨option, behind, c.offset, .hyphen⟩ = named := ⟨_, rfl⟩
  have takes' : TakesWord ctx named.option := hnamed ▸ takes
  have reads := sweep_wordApart awaits takes' fits.filled fits.parts stop (c := place)
    (by rw [← hplace]; rfl) (.inr (.inr ⟨' ', by rw [← hplace]; rfl, by decide⟩))
  have path : place.past word.toList rest =
      c.past (markerOf option.name ++ ' ' :: word.toList) rest := by
    rw [← hplace, ← hbehind, Cursor.past_past, Cursor.past_past, List.singleton_append]
  rw [String.ofList_toList, path] at reads
  subst hnamed
  refine ⟨⟨option, behind, c.offset, .hyphen⟩, place.offset,
    (c.past (markerOf option.name ++ ' ' :: word.toList) rest).offset, declared, rfl, takes, ?_⟩
  rw [opens, sweep_blank blank, hplace]
  exact reads

theorem sweep_spacedWord (distinct : (ctx.table.slots.map (·.name)).Nodup)
    (closes : ClosesTo ctx p c s) {names : List String} (leaves : Leaves ctx p names) :
    ∃ s', Tallied ctx (Item.read (ctx.table.slots.map (·.name)) p (.named name word)) s' ∧
      s.sweep ctx c = s'.sweep ctx (c.past (markerOf name ++ ' ' :: word.toList) rest) := by
  have free := leaves.freeSlot_ne_none closes.closed.toRests
  obtain ⟨named, start, stop', -, rfl, takes, reads⟩ := sweep_namedWord fits stop split
    closes.longText closes.held closes.lastSlot closes.family closes.goes
    (closes.closed.awaits leaves.goes free)
  exact ⟨_, closes.closed.fillNamed distinct named takes.known word start stop', reads⟩

end

end State

end ChatArgs.Parse
