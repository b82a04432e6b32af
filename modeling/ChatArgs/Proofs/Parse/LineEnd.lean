import ChatArgs.Proofs.Parse.SpacedWords
import Mathlib.Data.List.Nodup

/-!
# Words up to the end of a line

A named option that takes one value takes the word behind it while some slot is free. Where words
fill every slot, the word is passed, to be taken with all the text up to the next marker; but a
line feed closes the option at its marker, and the word is lost. A parse that stops as soon as every
option has a value may not come to the marker; the last slot takes it with the rest of the text.
-/

namespace ChatArgs

namespace Parse

open Text

def optionLine (front : List Char) (name word : String) (back : List Char) : List Char :=
  front ++ ' ' :: (markerOf name ++ ' ' :: (word.toList ++ '\n' :: back))

namespace State

variable {ctx : Context} {s : State}

/-! ## A value that stays -/

/-- The option has the value, and nothing that is open or free can change it. -/
structure KeepsValue (ctx : Context) (name value : String) (s : State) : Prop where
  found : s.values.get? name = some value
  noLong : s.longText = none
  noHeld : s.held = none
  noNamed : s.named = none
  taken : ∀ (slot : Nat) (o : OptionDecl), ctx.table.slots[slot]? = some o → o.name = name →
    s.taken[slot]? ≠ some false
  last : ∀ slot ∈ s.lastSlot, slot.name ≠ name

theorem take_keeps (slot : Nat) {index : Nat} (kept : s.taken[index]? ≠ some false) :
    (s.take slot).taken[index]? ≠ some false := by
  refine take_cases kept fun _ => ?_
  rw [List.getElem?_set]
  split
  · split <;> simp
  · exact kept

theorem markFilled_keeps (option : OptionDecl) {index : Nat}
    (kept : s.taken[index]? ≠ some false) :
    (s.markFilled ctx option).taken[index]? ≠ some false :=
  markFilled_cases kept (fun _ _ => kept) fun slot _ => take_keeps slot kept

namespace KeepsValue

variable {name value : String} (keeps : KeepsValue ctx name value s)
include keeps

theorem take (slot : Nat) : KeepsValue ctx name value (s.take slot) := by
  have taken : ∀ (index : Nat) (o : OptionDecl), ctx.table.slots[index]? = some o →
      o.name = name → (s.take slot).taken[index]? ≠ some false :=
    fun index o declared same => take_keeps slot (keeps.taken index o declared same)
  rw [take_frame] at taken ⊢
  exact ⟨keeps.found, keeps.noLong, keeps.noHeld, keeps.noNamed, taken, keeps.last⟩

theorem quiet : KeepsValue ctx name value { s with justClosed := false } :=
  ⟨keeps.found, keeps.noLong, keeps.noHeld, keeps.noNamed, keeps.taken, keeps.last⟩

theorem fillSlot (text : String) (start : Cursor) (stop : Nat) :
    KeepsValue ctx name value (s.fillSlot ctx text start stop false) := by
  refine fillSlot_cases keeps fun slot option _ spanStart lastSlot free declared _ last => ?_
  have other : option.name ≠ name := fun same =>
    keeps.taken slot option declared same (taken_of_freeSlot free)
  apply take
  refine ⟨?_, keeps.noLong, rfl, keeps.noNamed, keeps.taken, fun opened member => ?_⟩
  · simp only [setValue, Entries.get?_insert, if_neg other]
    exact keeps.found
  · cases last with
    | same => exact keeps.last opened member
    | opens =>
        obtain rfl := Option.some.inj member
        exact other

theorem step {kind : TokenKind} {c : Cursor} {text rest : List Char} (split : c.rest = text ++ rest)
    (reads : kind = .lineFeeds ∨ kind = .word ∧ ∃ x ∈ c.before, isGap x = true) :
    KeepsValue ctx name value (s.step ctx (.reading kind c text rest)) := by
  have other : s.step ctx (.reading kind c text rest) =
      ({ s with justClosed := false } : State).onOther ctx (.reading kind c text rest)
        s.justClosed := by
    rcases reads with rfl | ⟨rfl, -⟩ <;> rfl
  have same : (Token.reading kind c text rest).kind = kind := rfl
  rw [other]
  refine onOther_cases ?line ?passed ?backslashes ?delimiter ?word
  case line =>
    intro named opened
    simp [openSingle?, keeps.noNamed] at opened
  case passed => exact fun _ => keeps.quiet
  case backslashes =>
    intro count isRun _
    rw [same] at isRun
    simp [isRun] at reads
  case delimiter =>
    intro x isDelimiter _
    rw [same] at isDelimiter
    simp [isDelimiter] at reads
  case word =>
    intro isWord _ _
    rw [same] at isWord
    subst isWord
    have gap : ∃ x ∈ c.before, isGap x = true := by simpa using reads
    have placed : ({ s with justClosed := false } : State).place ctx (String.ofList text) c
          (c.past text rest).offset false =
        ({ s with justClosed := false } : State).fillSlot ctx (String.ofList text) c
          (c.past text rest).offset false := by
      simp [place, openSingle?, keeps.noNamed, keeps.noHeld]
    rw [onWord_eq_place split (.inr (.inr gap)), placed]
    exact keeps.quiet.fillSlot _ _ _

theorem closeAll : (s.closeAll ctx).values.get? name = some value := by
  rw [State.closeAll, closeLastSlot_frame]
  simp only [closeNamed, closeLongText, keeps.noNamed, keeps.noLong]
  refine closeLastSlot_cases (fun _ => keeps.found) fun slot _ opened => ?_
  rw [setValue, Entries.get?_insert, if_neg (keeps.last slot opened)]
  exact keeps.found

theorem closeAll_sweep {back : List Char} {count : Nat} (text : WordText back count) {c : Cursor}
    (inText : InText c back []) (behind : c.before ≠ none) :
    ((s.sweep ctx c).closeAll ctx).values.get? name = some value := by
  induction text generalizing s c with
  | nil =>
      rw [sweep_end inText.split]
      exact keeps.closeAll
  | @blank cs count _ ih =>
      have before : (c.past [' '] (cs ++ [])).before ≠ none := Option.some_ne_none ' '
      rw [sweep_blank_inText inText]
      exact ih keeps inText.behind_blank before
  | @word word cs count nonempty parts ends _ ih =>
      have split : c.rest = word ++ (cs ++ []) := by rw [inText.split, List.append_assoc]
      have hidden := inText.hidden nonempty parts
      obtain ⟨x, before⟩ := Option.ne_none_iff_exists'.1 behind
      rw [before] at hidden
      obtain ⟨y, -, last⟩ := c.exists_before nonempty (cs ++ [])
      cases stops : s.stops ctx with
      | true =>
          rw [sweep_of_stops stops]
          exact keeps.closeAll
      | false =>
          rw [sweep_wordToken nonempty parts (inText.gap_behind ends) split stops]
          exact ih (keeps.step split (.inr ⟨rfl, x, before, by simpa using hidden⟩))
            (inText.behind_word ends) (by rw [last]; exact Option.some_ne_none y)

end KeepsValue

theorem gap_lineFeed (back : List Char) : ∀ x ∈ ('\n' :: back).head?, isGap x = true :=
  isGap_of_head rfl back

theorem inText_line (c : Cursor) (back : List Char) : InText (c.past ['\n'] back) back [] where
  split := (List.append_nil back).symm
  outside visible := absurd visible (by simp [Cursor.past]; decide)
  stop := by simp

theorem sweep_lineFeed {back : List Char} {count : Nat} (text : WordText back count) {c : Cursor}
    (split : c.rest = '\n' :: back) (goes : s.stops ctx = false) :
    s.sweep ctx c =
      (s.step ctx (.reading .lineFeeds c ['\n'] back)).sweep ctx (c.past ['\n'] back) := by
  apply sweep_token split _ goes
  rw [split]
  exact tokenAt?_lineFeed _ text.no_lineFeed

theorem KeepsValue.closeAll_sweep_line {name value : String} (keeps : KeepsValue ctx name value s)
    {back : List Char} {count : Nat} (text : WordText back count) {c : Cursor}
    (split : c.rest = '\n' :: back) :
    ((s.sweep ctx c).closeAll ctx).values.get? name = some value := by
  cases stops : s.stops ctx with
  | true =>
      rw [sweep_of_stops stops]
      exact keeps.closeAll
  | false =>
      have stays : KeepsValue ctx name value (s.step ctx (.reading .lineFeeds c ['\n'] back)) :=
        keeps.step split (.inl rfl)
      rw [sweep_lineFeed text split stops]
      exact stays.closeAll_sweep text (inText_line c back) (Option.some_ne_none '\n')

/-! ## A word that is passed -/

structure PassesWord (ctx : Context) (named : Named) (s : State) : Prop where
  goes : s.stops ctx = false
  noSlot : s.freeSlot? = none
  noLong : s.longText = none
  noHeld : s.held = none
  noLast : s.lastSlot = none
  opened : s.named = some named
  single : named.option.takesOneValue ctx.config.singleValue = true

theorem NoSlotLeft.sweep_marker (noSlot : NoSlotLeft ctx s) {name : String} {option : OptionDecl}
    (declared : ctx.table.option? name = some option)
    (single : option.takesOneValue ctx.config.singleValue = true) {c : Cursor}
    {marker rest : List Char} (split : c.rest = marker ++ rest)
    (found : tokenAt? ctx.patterns.delimiters c.rest =
      some (.marker 0 (.hyphens 2) name, marker.length)) :
    ∃ (named : Named) (s' : State), named.option = option ∧ named.family = .hyphen ∧
      PassesWord ctx named s' ∧ s.sweep ctx c = s'.sweep ctx (c.past marker rest) := by
  have quiet : ({ s with justClosed := false } : State) = s := by rw [← noSlot.quiet]
  have opens : s.step ctx (.reading (.marker 0 (.hyphens 2) name) c marker rest) =
      { (s.locked ctx).closeLastSlot ctx c.offset [] with
        named := some ⟨option, c.past marker rest, c.offset, .hyphen⟩ } := by
    have locked : (s.locked ctx).named = none ∧ (s.locked ctx).held = none := by
      unfold State.locked
      split <;> exact ⟨noSlot.noNamed, noSlot.noHeld⟩
    rw [step_eq_onMarker noSlot.noLong, quiet, onMarker_eq_openNamed noSlot.noColon declared]
    simp [openNamed, backslashes, flushHeld, closeNamed, locked, Token.reading]
  have closed : PassesWord ctx ⟨option, c.past marker rest, c.offset, .hyphen⟩
      { (s.locked ctx).closeLastSlot ctx c.offset [] with
        named := some ⟨option, c.past marker rest, c.offset, .hyphen⟩ } := by
    rw [closeLastSlot_frame]
    unfold State.locked
    split <;> exact ⟨noSlot.goes, noSlot.noSlot, noSlot.noLong, noSlot.noHeld, rfl, rfl, single⟩
  exact ⟨_, _, rfl, rfl, closed, by rw [sweep_token split found noSlot.goes, opens]⟩

namespace PassesWord

variable {named : Named} (passes : PassesWord ctx named s)
include passes

theorem openSingle : s.openSingle? ctx = some named :=
  openSingle?_eq_some.2 ⟨passes.opened, passes.single⟩

theorem quiet : PassesWord ctx named { s with justClosed := false } :=
  ⟨passes.goes, passes.noSlot, passes.noLong, passes.noHeld, passes.noLast, passes.opened,
    passes.single⟩

theorem onOther_word {t : Token} (kind : t.kind = .word) (justClosed : Bool) :
    s.onOther ctx t justClosed = s := by
  simp [onOther, kind, passes.openSingle, passes.noSlot]

/-- A line feed closes the option at its marker. -/
theorem onOther_lineFeeds {t : Token} (kind : t.kind = .lineFeeds) (justClosed : Bool) :
    s.onOther ctx t justClosed = s.closeNamed ctx named.start.offset := by
  simp [onOther, kind, passes.openSingle, passes.noLong, passes.noLast, passes.opened]

theorem closeNamed_keepsValue (hyphen : named.family = .hyphen) :
    KeepsValue ctx named.option.name (if named.option.kind = .boolean then "true" else "")
      (s.closeNamed ctx named.start.offset) := by
  have raw : named.start.textTo named.start.offset = [] := by
    have none := Cursor.textTo_eq_front (c := named.start) (List.nil_append named.start.rest).symm
    rwa [byteLength_nil, Nat.add_zero] at none
  have value : named.valueOf (trim []) = if named.option.kind = .boolean then "true" else "" := by
    simp [Named.valueOf, hyphen, trim, trimStart, trimEnd]
  have values : (s.closeNamed ctx named.start.offset).values =
      s.values.insert named.option.name (named.valueOf (trim [])) :=
    closeNamed_values passes.opened raw (by simp)
  have free (slot : Nat) : s.taken[slot]? ≠ some false := by
    intro isFree
    have all := List.findIdx?_eq_none_iff.1 passes.noSlot false (List.mem_of_getElem? isFree)
    simp at all
  have taken (slot : Nat) :
      (s.closeNamed ctx named.start.offset).taken[slot]? ≠ some false := by
    unfold closeNamed
    rw [passes.opened]
    simp only
    split <;> exact markFilled_keeps named.option (free slot)
  rw [closeNamed_frame] at values taken ⊢
  refine ⟨?_, passes.noLong, passes.noHeld, rfl, fun slot _ _ _ => taken slot, ?_⟩
  · rw [values, Entries.get?_insert, if_pos rfl, value]
  · simp [passes.noLast]

/-- The word in front of the line feed is lost. -/
theorem closeAll_sweep (hyphen : named.family = .hyphen) {word back : List Char} {count : Nat}
    (filled : word ≠ [])
    (parts : ∀ x ∈ word, isNamePart x = true) (text : WordText back count) {c : Cursor}
    (split : c.rest = word ++ '\n' :: back) :
    ((s.sweep ctx c).closeAll ctx).values.get? named.option.name =
      some (if named.option.kind = .boolean then "true" else "") := by
  have passed : s.step ctx (.reading .word c word ('\n' :: back)) =
      { s with justClosed := false } := passes.quiet.onOther_word rfl s.justClosed
  generalize behind : c.past word ('\n' :: back) = c'
  have split' : c'.rest = '\n' :: back := by rw [← behind]; rfl
  have closed : ({ s with justClosed := false } : State).step ctx
        (.reading .lineFeeds c' ['\n'] back) =
      ({ s with justClosed := false } : State).closeNamed ctx named.start.offset :=
    passes.quiet.onOther_lineFeeds rfl false
  rw [sweep_wordToken filled parts (gap_lineFeed back) split passes.goes, passed, behind,
    sweep_lineFeed text split' passes.quiet.goes, closed]
  exact (passes.quiet.closeNamed_keepsValue hyphen).closeAll_sweep text (inText_line c' back)
    (Option.some_ne_none '\n')

end PassesWord

/-! ## An option at the end of a line -/

theorem Tallied.keepsValue {p : Progress} {name word : String}
    (tallied : Tallied ctx (Item.read (ctx.table.slots.map (·.name)) p (.named name word)) s) :
    KeepsValue ctx name word s where
  found := by
    rw [tallied.values]
    simp [Item.read, Entries.get?_insert]
  noLong := tallied.longText
  noHeld := tallied.held
  noNamed := tallied.named
  taken := by
    intro slot o declared same
    rw [tallied.taken, List.getElem?_map, declared]
    simp [Item.read, same]
  last := by simp [tallied.lastSlot]

section

variable (distinct : (ctx.table.slots.map (·.name)).Nodup)
  (counted : ctx.table.slots.length ≤ ctx.table.optionCount) {front back : List Char}
  {before behind : Nat} (frontText : WordText front before) (backText : WordText back behind)
  {name word : String} (fits : FitsWord ctx name word)
  (content : ctx.content = optionLine front name word back)
include distinct counted frontText backText fits content

omit distinct counted frontText backText fits in
theorem inText_front : InText (Cursor.start ctx.content) front
    (' ' :: (markerOf name ++ ' ' :: (word.toList ++ '\n' :: back))) where
  split := content
  outside visible := absurd visible (by simp [Cursor.start, isVisible])
  stop := isGap_of_head rfl _

/-- While a slot is free, the option takes the word. -/
theorem run_optionLine (few : before < ctx.table.slots.length) :
    (run ctx none).values.get? name = some word := by
  obtain ⟨done, length, names, reads⟩ := sweep_fewWords distinct counted frontText
    (inText_front content) (.start ctx _) (by simpa using few)
  rw [List.length_nil, Nat.zero_add] at length
  have tallied := filled_tallied distinct names
  have leaves : Leaves ctx ⟨⟨done.map fun f => (f.name, f.value)⟩, done.map (·.name)⟩ [] := by
    refine ⟨by simp only [List.length_map, List.length_nil]; omega,
      ctx.table.slots[done.length], by simp, ?_, by simp⟩
    exact name_notMem_filled names (List.getElem?_eq_getElem (by omega)) distinct
  rw [run_none, initial_eq_filled, reads, sweep_blank rfl]
  generalize marker : ((Cursor.start ctx.content).past front _).past [' '] _ = c
  have split : c.rest = markerOf name ++ ' ' :: (word.toList ++ '\n' :: back) := by
    rw [← marker]
    rfl
  obtain ⟨s', tallied', takes⟩ := sweep_spacedWord fits (gap_lineFeed back) split distinct
    (tallied.closesTo leaves.goes c) leaves
  rw [takes]
  exact tallied'.keepsValue.closeAll_sweep_line backText rfl

omit distinct counted content in
theorem backslash_notMem_optionLine : '\\' ∉ optionLine front name word back := by
  obtain ⟨-, -, ⟨-, letters⟩, -⟩ := fits.item
  have inName := backslash_notMem_of_nameParts letters
  have inWord := backslash_notMem_of_nameParts fits.parts
  simp [optionLine, markerOf, frontText.no_backslash, backText.no_backslash, inName, inWord]

omit counted in
/-- Where a parse stops with the last slot and words fill every slot, the marker is not read. -/
theorem run_optionLine_stopped (full : ctx.table.slots.length ≤ before)
    (stopWhenFilled : ctx.config.stopWhenFilled = true)
    (noFlags : ctx.table.slots.length = ctx.table.optionCount)
    (positive : 0 < ctx.table.optionCount) :
    (run ctx none).finds
      (wordFillings ctx.length (ctx.table.slots.map (·.name)) (wordStarts 0 none ctx.content)) := by
  have plain := backslash_notMem_optionLine frontText backText fits
  rw [← content] at plain
  rw [run_none, initial_eq_filled]
  exact closeAll_manyWords distinct (noFlags ▸ positive) frontText (inText_front content)
    (.start ctx _) (by simpa using full) noFlags stopWhenFilled (Nat.zero_add _) plain

/-- Where words fill every slot, the line feed closes the option in front of its word. -/
theorem run_optionLine_full (full : ctx.table.slots.length ≤ before)
    (flags : ctx.config.stopWhenFilled = true → ctx.table.slots.length < ctx.table.optionCount)
    (positive : 0 < ctx.table.optionCount) {option : OptionDecl}
    (declared : ctx.table.option? name = some option) :
    (run ctx none).values.get? name = some (if option.kind = .boolean then "true" else "") := by
  obtain ⟨-, enabled, valid, option', declared', same, single, -⟩ := fits.item
  obtain rfl := Option.some.inj (declared'.symm.trans declared)
  have inText := inText_front content
  obtain ⟨s', noSlot, reads⟩ : ∃ s', NoSlotLeft ctx s' ∧
      (initial ctx).sweep ctx (Cursor.start ctx.content) =
        s'.sweep ctx ((Cursor.start ctx.content).past front
          (' ' :: (markerOf name ++ ' ' :: (word.toList ++ '\n' :: back)))) := by
    by_cases none : ctx.table.slots.length = 0
    · have noSlot := initial_noSlotLeft none positive
      exact ⟨_, noSlot, noSlot.sweep_words frontText inText⟩
    · have fills := FillsFront.start ctx (Cursor.start ctx.content)
      rw [initial_eq_filled]
      exact sweep_manyWords distinct (by simpa using Nat.pos_of_ne_zero none) frontText inText fills
        (by simpa using full) counted flags
  rw [run_none, reads, sweep_blank rfl]
  generalize marker : ((Cursor.start ctx.content).past front _).past [' '] _ = c
  have split : c.rest = markerOf name ++ ' ' :: (word.toList ++ '\n' :: back) := by
    rw [← marker]
    rfl
  have found := tokenAt?_markerOf enabled valid (word.toList ++ '\n' :: back)
  rw [← split] at found
  obtain ⟨named, s'', rfl, hyphen, passes, opens⟩ :=
    noSlot.sweep_marker declared single split found
  rw [opens, sweep_blank rfl]
  obtain rfl : named.option.name = name := same
  exact passes.closeAll_sweep hyphen fits.filled fits.parts backText rfl

end

end State

end Parse

open Parse

namespace Command

variable {command : Command}

/-- While there are fewer words in front of a marker than slots, the option takes the word behind
it, whatever words stand in the next line. Otherwise the word is lost; but where a parse stops as
soon as every option has a value and there are no flags, the marker is part of the last value. -/
theorem parse_optionLine (shared : Config) {front back : List Char} {name word : String}
    (distinct : (command.options.map (·.name)).Nodup)
    (noChoices : (Table.ofCommand command).choices = [])
    (fits : (Item.named name word).Fits command ((Table.ofCommand command).configFor shared))
    (plain : ∀ c ∈ word.toList, c.isAlphanum = true)
    (frontWords : ∀ c ∈ front, c = ' ' ∨ c.isAlphanum = true)
    (backWords : ∀ c ∈ back, c = ' ' ∨ c.isAlphanum = true) :
    ((wordStarts 0 none front).length < (Table.ofCommand command).slots.length →
      (command.parse shared (String.ofList (optionLine front name word back)) none).values.get?
        name = some word) ∧
    ((Table.ofCommand command).slots.length ≤ (wordStarts 0 none front).length →
      (((Table.ofCommand command).configFor shared).stopWhenFilled = true →
        (Table.ofCommand command).slots.length < (Table.ofCommand command).optionCount) →
      ∀ option ∈ command.options, option.name = name →
        (command.parse shared (String.ofList (optionLine front name word back)) none).values.get?
          name = some (if option.kind = .boolean then "true" else "")) ∧
    ((Table.ofCommand command).slots.length ≤ (wordStarts 0 none front).length →
      ((Table.ofCommand command).configFor shared).stopWhenFilled = true →
      (Table.ofCommand command).slots.length = (Table.ofCommand command).optionCount →
      command.parse shared (String.ofList (optionLine front name word back)) none =
        wordArgs (Table.ofCommand command).slots
          (String.ofList (optionLine front name word back))) := by
  have counted := Table.slots_length_le_optionCount distinct
  simp only [Command.parse]
  generalize (Table.ofCommand command).configFor shared = config at fits ⊢
  have fitsWord : State.FitsWord ⟨optionLine front name word back, Table.ofCommand command, config,
      .ofConfig config⟩ name word :=
    ⟨fitsItem distinct fits, fun x inside => isNamePart_of_isAlphanum (plain x inside)⟩
  obtain ⟨-, -, -, o, member, same, fillable, -⟩ := fits
  have positive := Table.optionCount_pos distinct member fillable
  have frontText := wordText_of_chars frontWords 0 none (by simp [isVisible])
  have backText := wordText_of_chars backWords 0 none (by simp [isVisible])
  have slots := Table.slot_names_nodup distinct
  rw [parse_of_noChoices positive noChoices, String.toList_ofList]
  refine ⟨?_, ?_, ?_⟩
  · exact State.run_optionLine slots counted frontText backText fitsWord rfl
  · rintro full flags option declared rfl
    obtain rfl := List.inj_on_of_nodup_map distinct member declared same
    exact State.run_optionLine_full slots counted frontText backText fitsWord rfl full flags
      positive (Table.option?_of_mem distinct member fillable)
  · intro full stopWhenFilled noFlags
    obtain ⟨values, spans⟩ := State.run_optionLine_stopped slots frontText backText fitsWord
      rfl full stopWhenFilled noFlags positive
    rw [values, spans, wordArgs, Filling.args, String.toList_ofList]
    rfl

/-- One word in front of two slots. -/
theorem parse_optionLine_free :
    ((⟨"go", [{ name := "x" }, { name := "y" }, { name := "n", flag := true }], none⟩ :
        Command).parse { singleValue := true } "foo --n w\nbar baz" none).values.get? "n" =
      some "w" := by
  have fits : (Item.named "n" "w").Fits
      ⟨"go", [{ name := "x" }, { name := "y" }, { name := "n", flag := true }], none⟩
      { singleValue := true } :=
    ⟨by decide, rfl, ⟨⟨'n', rfl, rfl⟩, List.all_eq_true.1 (by decide +kernel)⟩,
      { name := "n", flag := true }, by simp, rfl, rfl, rfl⟩
  have frontWords := chars_of_all (show ['f', 'o', 'o'].all _ = true from rfl)
  have backWords := chars_of_all (show ['b', 'a', 'r', ' ', 'b', 'a', 'z'].all _ = true from rfl)
  exact (parse_optionLine { singleValue := true } (by decide +kernel) (by simp [Table.ofCommand])
    fits (List.all_eq_true.1 (by decide +kernel)) frontWords backWords).1 (by decide)

/-- One word in front of one slot. -/
theorem not_parse_optionLine_full :
    ¬ ∀ (command : Command) (shared : Config) (front back : List Char) (name word : String),
      shared.singleValue = true → shared.delimiters = {} → command.overrides = none →
      command.defect? = none → (∀ o ∈ command.options, o.choices = [] ∧ o.singleValue = none) →
      (Item.named name word).Fits command shared → (∀ c ∈ word.toList, c.isAlphanum = true) →
      (∀ c ∈ front, c = ' ' ∨ c.isAlphanum = true) →
      (∀ c ∈ back, c = ' ' ∨ c.isAlphanum = true) →
      ∃ value, (command.parse shared
          (String.ofList (optionLine front name word back)) none).values.get? name = some value ∧
        word.toList <+: value.toList := by
  intro always
  have fits : (Item.named "n" "w").Fits
      ⟨"go", [{ name := "x" }, { name := "n", flag := true }], none⟩ { singleValue := true } :=
    ⟨by decide, rfl, ⟨⟨'n', rfl, rfl⟩, List.all_eq_true.1 (by decide +kernel)⟩,
      { name := "n", flag := true }, by simp, rfl, rfl, rfl⟩
  obtain ⟨value, found, starts⟩ := always
    ⟨"go", [{ name := "x" }, { name := "n", flag := true }], none⟩ { singleValue := true }
    ['f', 'o', 'o'] ['b', 'a', 'r'] "n" "w" rfl rfl rfl (by decide +kernel) (by decide +kernel) fits
    (List.all_eq_true.1 (by decide +kernel)) (chars_of_all rfl) (chars_of_all rfl)
  have lost : ((⟨"go", [{ name := "x" }, { name := "n", flag := true }], none⟩ : Command).parse
      { singleValue := true } (String.ofList (optionLine ['f', 'o', 'o'] "n" "w" ['b', 'a', 'r']))
        none).values.get? "n" = some "" := rfl
  rw [lost] at found
  rw [← Option.some.inj found] at starts
  exact absurd starts (by decide +kernel)

end Command

end ChatArgs
