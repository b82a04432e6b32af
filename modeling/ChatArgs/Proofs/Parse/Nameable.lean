import ChatArgs.Command.Validation
import ChatArgs.Proofs.Parse.Appended

/-!
# Every option can be named

A sound declaration names its options with letters, digits and underscores of ASCII. A colon marker
spells any such name, and a marker with hyphens spells it unless it begins with a digit. So some
marker that is switched on opens the option, and the option takes the word behind it, unless only
markers with hyphens are switched on and the name begins with a digit.
-/

namespace ChatArgs

open Parse Text

/-! ## Names that a sound declaration has -/

theorem isNameStart_of_isNamePart {c : Char} (part : isNamePart c = true)
    (noDigit : c.isDigit = false) : isNameStart c = true := by
  simp only [isNamePart, Bool.or_eq_true, Bool.and_eq_true, decide_eq_true_eq] at part
  cases part with
  | inl start => exact start
  | inr digit =>
      simp [Char.isDigit, Char.le_def] at noDigit digit
      exact absurd digit.2 (by simpa using noDigit digit.1)

namespace Command

theorem name_of_defect? {command : Command} (sound : command.defect? = none) {o : OptionDecl}
    (member : o ∈ command.options) :
    o.name.toList ≠ [] ∧ ∀ c ∈ o.name.toList, isNamePart c = true := by
  have checked := wellFormed_of_mem sound member
  obtain ⟨c, inside, -⟩ := checked.visible
  refine ⟨List.ne_nil_of_mem inside, fun x written => ?_⟩
  rcases checked.spelled x written with alphanum | rfl
  · exact isNamePart_of_isAlphanum alphanum
  · decide

end Command

/-! ## Markers as they are written -/

namespace MarkerStyle

def write : MarkerStyle → String → List Char
  | .hyphen, name => '-' :: name.toList
  | .doubleHyphen, name => markerOf name
  | .colon, name => name.toList ++ [':']

def opening : MarkerStyle → Opening
  | .hyphen => .hyphens 1
  | .doubleHyphen => .hyphens 2
  | .colon => .colon

/-- Markers in this style can be written for the name. -/
def Spells : MarkerStyle → String → Prop
  | .colon, name => name.toList ≠ [] ∧ ∀ c ∈ name.toList, isNamePart c = true
  | _, name => IsIdentifier name.toList

end MarkerStyle

namespace Parse

theorem hyphenMarker?_of_namePart {d : Delimiters} {escapes : Nat} {c : Char} {cs : List Char}
    (part : isNamePart c = true) : hyphenMarker? d escapes (c :: cs) = none := by
  have other : '-' ≠ c := by
    rintro rfl
    exact absurd part (by decide)
  simp [hyphenMarker?, hyphensMarker?, List.replicate, other]

theorem takeWhile_backslash_of_namePart {c : Char} {cs : List Char} (part : isNamePart c = true) :
    (c :: cs).takeWhile (· == '\\') = [] := by
  simp [ne_backslash_of_isNamePart part]

theorem tokenAt?_hyphen {d : Delimiters} {name : String} (enabled : d.hasSingleHyphen = true)
    (valid : IsIdentifier name.toList) (rest : List Char) :
    tokenAt? d ('-' :: name.toList ++ ' ' :: rest) =
      some (.marker 0 (.hyphens 1) name, name.toList.length + 1) := by
  have found := @tokenAt?_hyphens d 1 _ (' ' :: rest) (.inl ⟨rfl, enabled⟩) valid
    (by simp; decide) 0
  simpa [backslashes, List.replicate, signLength, Nat.add_comm] using found

/-- A name and a colon are a marker, unless they look like the scheme of a web address. -/
theorem tokenAt?_colonMarker {d : Delimiters} {name rest : List Char} (enabled : d.hasColon = true)
    (filled : name ≠ []) (parts : ∀ c ∈ name, isNamePart c = true)
    (noAddress : isAddressRest rest = false) :
    tokenAt? d (name ++ ':' :: rest) =
      some (.marker 0 .colon (String.ofList name), name.length + 1) := by
  obtain ⟨x, xs, rfl⟩ := List.exists_cons_of_ne_nil filled
  have part := parts x List.mem_cons_self
  have noBackslash : x ≠ '\\' := ne_backslash_of_isNamePart part
  have noHyphen : '-' ≠ x := by
    rintro rfl
    exact absurd part (by decide)
  have run : (x :: (xs ++ ':' :: rest)).takeWhile isNamePart = x :: xs :=
    takeWhile_append_stop parts (by simp; decide)
  have marked : matchAt? d true (x :: (xs ++ ':' :: rest)) =
      some (.marker 0 .colon (String.ofList (x :: xs)), (x :: xs).length + 1) := by
    simp [matchAt?, marker?, noBackslash, hyphenMarker?, hyphensMarker?, List.replicate, noHyphen,
      enabled, colonMarker?, run]
  rw [List.cons_append, tokenAt?, marked]
  have behind : (x :: (xs ++ ':' :: rest)).drop ((x :: xs).length + 1) = rest := by simp
  simp only [behind, noAddress, Bool.false_eq_true, if_false]

theorem tokenAt?_colon {d : Delimiters} {name : String} (enabled : d.hasColon = true)
    (filled : name.toList ≠ []) (parts : ∀ c ∈ name.toList, isNamePart c = true)
    (rest : List Char) :
    tokenAt? d (name.toList ++ [':'] ++ ' ' :: rest) =
      some (.marker 0 .colon name, name.toList.length + 1) := by
  have noAddress : isAddressRest (' ' :: rest) = false := by simp [isAddressRest]
  have found := tokenAt?_colonMarker enabled filled parts noAddress
  rw [String.ofList_toList] at found
  rw [List.append_assoc, List.singleton_append, found]

theorem tokenAt?_write {d : Delimiters} {style : MarkerStyle} {name : String}
    (enabled : style ∈ d.markers) (spells : style.Spells name) (rest : List Char) :
    tokenAt? d (style.write name ++ ' ' :: rest) =
      some (.marker 0 style.opening name, (style.write name).length) := by
  cases style with
  | hyphen =>
      exact tokenAt?_hyphen (by simpa [Delimiters.hasSingleHyphen] using enabled) spells rest
  | doubleHyphen =>
      exact tokenAt?_markerOf (by simpa [Delimiters.hasDoubleHyphen] using enabled) spells rest
  | colon =>
      have length : (MarkerStyle.colon.write name).length = name.toList.length + 1 := by
        simp [MarkerStyle.write]
      rw [length]
      exact tokenAt?_colon (by simpa [Delimiters.hasColon] using enabled) spells.1 spells.2 rest

theorem TokenFront.marker_sign {d : Delimiters} {escapes : Nat} {opening : Opening}
    {name : String} {text rest : List Char}
    (front : TokenFront d (.marker escapes opening name) text rest) : '-' ∈ text ∨ ':' ∈ text := by
  cases front with
  | hyphens count =>
      left
      rcases count with rfl | rfl <;> simp
  | colon =>
      right
      simp

theorem tokensFrom_unmarked (d : Delimiters) (fuel : Nat) {c : Cursor} (noHyphen : '-' ∉ c.rest)
    (noColon : ':' ∉ c.rest) :
    ∀ t ∈ tokensFrom d fuel c, ∀ escapes opening name, t.kind ≠ .marker escapes opening name := by
  induction fuel generalizing c with
  | zero => simp [tokensFrom]
  | succ fuel ih =>
      cases all : c.rest with
      | nil => simp [tokensFrom, all]
      | cons x rest =>
          rw [tokensFrom]
          simp only [all]
          cases found : tokenAt? d (x :: rest) with
          | none =>
              have later : c.next.rest = rest := by rw [Cursor.next_eq_past all]; rfl
              rw [all, List.mem_cons, not_or] at noHyphen noColon
              exact ih (by rw [later]; exact noHyphen.2) (by rw [later]; exact noColon.2)
          | some found' =>
              obtain ⟨kind, size⟩ := found'
              obtain ⟨text, rest', split, rfl, front⟩ := tokenAt?_front found
              have later : (c.forward text.length).rest = rest' := by
                rw [Cursor.forward_eq_past (all.trans split)]
                rfl
              rw [all, split, List.mem_append, not_or] at noHyphen noColon
              intro t member escapes opening name same
              cases List.mem_cons.1 member with
              | inl first =>
                  subst first
                  subst same
                  cases front.marker_sign with
                  | inl hyphen => exact noHyphen.1 hyphen
                  | inr colon => exact noColon.1 colon
              | inr others =>
                  exact ih (by rw [later]; exact noHyphen.2) (by rw [later]; exact noColon.2) t
                    others escapes opening name same

/-! ## A marker in front of a text -/

namespace State

variable {ctx : Context} {s : State}

theorem openNamed_of_quiet (noNamed : s.named = none) (noHeld : s.held = none)
    (noLast : s.lastSlot = none) (t : Token) (family : Family) (option : OptionDecl)
    (justClosed : Bool) :
    s.openNamed ctx t 0 family option justClosed =
      { s with named := some ⟨option, t.stop, t.start.offset, family⟩ } := by
  simp [openNamed, backslashes, flushHeld, closeNamed, closeLastSlot, noNamed, noHeld, noLast]

/-- The first marker of an option may decide the family of all, and opens the option. -/
theorem onMarker_of_quiet {opening : Opening} {name : String} {option : OptionDecl}
    (noNamed : s.named = none) (noHeld : s.held = none) (noLast : s.lastSlot = none)
    (noFamily : s.family = none) (declared : ctx.table.option? name = some option) (t : Token)
    (justClosed : Bool) :
    ∃ family, s.onMarker ctx t 0 opening name justClosed =
      { s with
        family := family
        named := some ⟨option, t.stop, t.start.offset, opening.family⟩ } := by
  have opens (s' : State) : s'.declaredMarker ctx t 0 opening option name justClosed =
      s'.openNamed ctx t 0 opening.family option justClosed := by
    cases opening <;> rfl
  cases lock : ctx.config.oneFamily with
  | false =>
      refine ⟨s.family, ?_⟩
      simp only [onMarker, declared, lock, Bool.false_eq_true, if_false, opens]
      exact openNamed_of_quiet noNamed noHeld noLast t _ option justClosed
  | true =>
      refine ⟨some opening.family, ?_⟩
      simp only [onMarker, declared, lock, if_true, noFamily, opens]
      exact openNamed_of_quiet (s := { s with family := some opening.family }) noNamed noHeld
        noLast t _ option justClosed

theorem stops_initial (counted : 0 < ctx.table.optionCount) :
    (initial ctx).stops ctx = false := by
  have open' : (initial ctx).allFilled ctx = false := by
    simp [allFilled, initial]
    omega
  rw [stops, open', Bool.and_false]

/-- An option that is named in front of all text takes the text. -/
theorem run_write_values {style : MarkerStyle} {name : String} {option : OptionDecl}
    {text : List Char} (content : ctx.content = style.write name ++ ' ' :: text)
    (counted : 0 < ctx.table.optionCount) (enabled : style ∈ ctx.patterns.delimiters.markers)
    (spells : style.Spells name) (declared : ctx.table.option? name = some option)
    (whole : option.takesOneValue ctx.config.singleValue = false) (noHyphen : '-' ∉ text)
    (noColon : ':' ∉ text) (plain : '\\' ∉ text) :
    ∃ named : Named, named.option = option ∧ (run ctx none).values =
      (⟨[]⟩ : Entries String).insert option.name (named.valueOf (trim (' ' :: text))) := by
  let start := Cursor.start ctx.content
  let behind := start.past (style.write name) (' ' :: text)
  let marker := Token.reading (.marker 0 style.opening name) start (style.write name) (' ' :: text)
  have split : start.rest = style.write name ++ ' ' :: text := content
  have found : tokenAt? ctx.patterns.delimiters start.rest =
      some (.marker 0 style.opening name, (style.write name).length) := by
    rw [split]
    exact tokenAt?_write enabled spells text
  let named : Named := ⟨option, behind, start.offset, style.opening.family⟩
  let quiet : State := { initial ctx with justClosed := false }
  have opened : ∃ family, quiet.onMarker ctx marker 0 style.opening name
      (initial ctx).justClosed = { quiet with family := family, named := some named } :=
    onMarker_of_quiet rfl rfl rfl rfl declared marker (initial ctx).justClosed
  obtain ⟨family, opened⟩ := opened
  have raw : behind.textTo ctx.length = ' ' :: text := by
    have total : behind.offset + byteLength behind.rest = ctx.length :=
      (Cursor.past_total split).trans (Nat.zero_add _)
    rw [← total]
    exact Cursor.textTo_eq_rest
  have unmarked : ∀ t ∈ tokensAt ctx.patterns.delimiters behind, ∀ escapes opening name,
      t.kind = .marker escapes opening name → ctx.table.option? name = none := by
    intro t member escapes opening name same
    have other := tokensFrom_unmarked ctx.patterns.delimiters behind.rest.length (c := behind)
      (by simpa [behind] using noHyphen) (by simpa [behind] using noColon) t member
    exact absurd same (other escapes opening name)
  have passed := closeAll_passed_values (s := { quiet with family := family, named := some named })
    rfl whole rfl unmarked rfl raw (by simpa using plain)
  refine ⟨named, rfl, ?_⟩
  rw [run_none, sweep_token split found (stops_initial counted), step_eq_onMarker rfl, opened,
    sweep, passed]
  rfl

end State

/-! ## Words of letters -/

theorem notMem_of_letters {word : List Char} (letters : ∀ c ∈ word, c.isAlpha = true) {x : Char}
    (other : x.isAlpha = false) : x ∉ word := by
  intro member
  rw [letters x member] at other
  simp at other

theorem isBlank_of_letter {c : Char} (letter : c.isAlpha = true) : isBlank c = false :=
  isBlank_of_isNamePart (isNamePart_of_isAlphanum (by simp [Char.isAlphanum, letter]))

theorem Named.valueOf_letters (named : Named) {word : String} (filled : word ≠ "")
    (letters : ∀ c ∈ word.toList, c.isAlpha = true) :
    named.valueOf (trim (' ' :: word.toList)) = word := by
  have visible : ∀ c ∈ word.toList, isBlank c = false :=
    fun c inside => isBlank_of_letter (letters c inside)
  have shown : word.toList.all isBlank = false := by
    cases all : word.toList with
    | nil => exact absurd (String.toList_eq_nil_iff.1 all) filled
    | cons c cs => simp [visible c (by simp [all])]
  rw [trim_cons_blank, trim_of_visible visible, valueOf, shown]
  simp

end Parse

namespace Command

/-- Some marker that is switched on spells the name, unless only markers with hyphens are and the
name begins with a digit. -/
theorem exists_spelling {command : Command} {o : OptionDecl} (sound : command.defect? = none)
    (member : o ∈ command.options) {markers : List MarkerStyle} (enabled : markers ≠ [])
    (spelled : .colon ∈ markers ∨ ∀ c ∈ o.name.toList.head?, c.isDigit = false) :
    ∃ style ∈ markers, style.Spells o.name := by
  obtain ⟨filled, parts⟩ := name_of_defect? sound member
  by_cases colon : .colon ∈ markers
  · exact ⟨.colon, colon, filled, parts⟩
  · have noDigit := spelled.resolve_left colon
    obtain ⟨style, others, rfl⟩ := List.exists_cons_of_ne_nil enabled
    refine ⟨style, List.mem_cons_self, ?_⟩
    obtain ⟨c, cs, front⟩ := List.exists_cons_of_ne_nil filled
    have start : isNameStart c = true :=
      isNameStart_of_isNamePart (parts c (by simp [front])) (noDigit c (by simp [front]))
    have identifier : IsIdentifier o.name.toList := ⟨⟨c, by simp [front], start⟩, parts⟩
    cases style with
    | hyphen => exact identifier
    | doubleHyphen => exact identifier
    | colon => exact absurd List.mem_cons_self colon

def namedWord (style : MarkerStyle) (name word : String) : String :=
  String.ofList (style.write name ++ ' ' :: word.toList)

/-- With any settings under which options take all text behind their markers, an option of a sound
declaration takes the word behind one of the markers that are switched on. It has to be spelled by
them: a name that begins with a digit needs the colon. -/
theorem parse_namedWord {command : Command} {shared : Config} {o : OptionDecl} {word : String}
    (sound : command.defect? = none)
    (markers : ((Table.ofCommand command).configFor shared).delimiters.markers ≠ [])
    (noChoices : ((Table.ofCommand command).configFor shared).choices = none)
    (member : o ∈ command.options) (fillable : o.isFillable = true)
    (whole : o.takesOneValue ((Table.ofCommand command).configFor shared).singleValue = false)
    (spelled : .colon ∈ ((Table.ofCommand command).configFor shared).delimiters.markers ∨
      ∀ c ∈ o.name.toList.head?, c.isDigit = false)
    (filled : word ≠ "") (letters : ∀ c ∈ word.toList, c.isAlpha = true) :
    ∃ style ∈ ((Table.ofCommand command).configFor shared).delimiters.markers,
      (command.parse shared (namedWord style o.name word) none).values.get? o.name =
        some word := by
  have distinct := names_nodup_of_defect? sound
  have counted := Table.optionCount_pos distinct member fillable
  have declared := Table.option?_of_mem distinct member fillable
  obtain ⟨style, enabled, spells⟩ := exists_spelling sound member markers spelled
  refine ⟨style, enabled, ?_⟩
  rw [Command.parse]
  generalize (Table.ofCommand command).configFor shared = config at enabled noChoices whole ⊢
  let ctx : Context :=
    ⟨(namedWord style o.name word).toList, Table.ofCommand command, config, .ofConfig config⟩
  have content : ctx.content = style.write o.name ++ ' ' :: word.toList := String.toList_ofList ..
  obtain ⟨named, same, values⟩ := State.run_write_values content counted enabled spells declared
    whole
    (notMem_of_letters letters (by decide)) (notMem_of_letters letters (by decide))
    (notMem_of_letters letters (by decide))
  have found : ¬ ((Table.ofCommand command).optionCount == 0) = true := by
    simp only [beq_iff_eq]
    omega
  rw [Table.parse, if_neg found]
  show (matchChoices _ config.choices (State.run ctx none).values).get? o.name = some word
  rw [values, noChoices, matchChoices, Entries.get?_insert, if_pos rfl,
    Named.valueOf_letters named filled letters]

def digitFlag : Command :=
  ⟨"roll", [{ name := "6", flag := true }], none⟩

def markersOnly (markers : List MarkerStyle) : Config :=
  { delimiters := { markers }, choices := none }

/-- The colon spells a name that begins with a digit. -/
theorem parse_namedWord_digit :
    ∃ style ∈ [MarkerStyle.doubleHyphen, .colon],
      (digitFlag.parse (markersOnly [.doubleHyphen, .colon]) (namedWord style "6" "fast")
        none).values.get? "6" = some "fast" :=
  @parse_namedWord digitFlag (markersOnly [.doubleHyphen, .colon]) { name := "6", flag := true }
    "fast" (by decide +kernel) (by decide) rfl (by simp [digitFlag]) rfl rfl (.inl (by decide))
    (by decide) (List.all_eq_true.1 (by decide +kernel))

/-- Hyphens do not spell a name that begins with a digit. -/
theorem not_parse_namedWord_hyphens :
    ¬ ∀ (command : Command) (shared : Config) (o : OptionDecl) (word : String),
      command.defect? = none →
      ((Table.ofCommand command).configFor shared).delimiters.markers ≠ [] →
      ((Table.ofCommand command).configFor shared).choices = none →
      ((Table.ofCommand command).configFor shared).singleValue = false →
      o ∈ command.options → o.isFillable = true → o.singleValue = none → word ≠ "" →
      (∀ c ∈ word.toList, c.isAlpha = true) →
      ∃ style ∈ ((Table.ofCommand command).configFor shared).delimiters.markers,
        (command.parse shared (namedWord style o.name word) none).values.get? o.name =
          some word := by
  intro always
  obtain ⟨style, enabled, found⟩ := always digitFlag (markersOnly [.doubleHyphen])
    { name := "6", flag := true } "fast" (by decide +kernel) (by decide) rfl rfl
    (by simp [digitFlag]) rfl rfl (by decide) (List.all_eq_true.1 (by decide +kernel))
  have only : style = .doubleHyphen := List.mem_singleton.1 enabled
  subst only
  have missing : (digitFlag.parse (markersOnly [.doubleHyphen])
      (namedWord .doubleHyphen "6" "fast") none).values.get? "6" = none := by
    decide +kernel
  rw [missing] at found
  simp at found

end Command

end ChatArgs
