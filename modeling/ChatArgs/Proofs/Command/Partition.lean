import ChatArgs.Proofs.Command.Names
import Mathlib.Data.Finset.Card

/-!
# How a table divides a declaration

A table is filled in one pass: an option that text can fill becomes a slot or a flag, takes its name
over from the options in front, and brings its choices along; any other option is passed over. So
slots and flags keep the order of the declaration, options are counted by name, and a marker means
the last option of its name. Where names are distinct, as a sound declaration has them, this is the
first one too, which a search of the declaration finds.
-/

namespace ChatArgs

/-! ## Names -/

theorem Entries.nodup_keys_insert {α : Type} {m : Entries α} (apart : m.keys.Nodup)
    (name : String) (value : α) : (m.insert name value).keys.Nodup := by
  by_cases old : name ∈ m.keys
  · rwa [keys_insert_of_mem old]
  · have behind : (m.insert name value).keys = m.keys ++ [name] := by
      rw [keys, insert, put_of_notMem old, List.map_append]
      rfl
    rw [behind, List.nodup_append]
    refine ⟨apart, List.nodup_singleton name, ?_⟩
    intro other known new fresh same
    rw [List.mem_singleton.1 fresh] at same
    exact old (same ▸ known)

/-- Where names are distinct, one option has a name at most, so that it does not count from which
end it is searched. -/
theorem OptionDecl.find?_name_iff {os : List OptionDecl} (distinct : (os.map (·.name)).Nodup)
    {name : String} {o : OptionDecl} :
    os.find? (·.name == name) = some o ↔ o ∈ os ∧ o.name = name := by
  constructor
  · intro found
    have same := List.find?_some found
    exact ⟨List.mem_of_find?_eq_some found, by simpa using same⟩
  · rintro ⟨member, rfl⟩
    rw [← List.head?_filter, filter_eq_singleton_of_nodup distinct member, List.head?_cons]

namespace Table

/-! ## One option more -/

/-- The table of a command that declares one option more, behind the others. -/
def declare (t : Table) (o : OptionDecl) : Table :=
  if o.isFillable then
    { t with
      slots := if o.flag then t.slots else t.slots ++ [o]
      flags := if o.flag then t.flags ++ [o] else t.flags
      options := t.options.insert o.name o
      choices := if o.choices.isEmpty then t.choices else t.choices ++ [.ofOption o] }
  else t

theorem declare_of_not_fillable {t : Table} {o : OptionDecl} (other : o.isFillable = false) :
    t.declare o = t := by
  simp [declare, other]

theorem options_declare {t : Table} {o : OptionDecl} (fillable : o.isFillable = true) :
    (t.declare o).options = t.options.insert o.name o := by
  simp [declare, fillable]

theorem ofCommand_withOption (c : Command) (o : OptionDecl) :
    ofCommand (c.withOption o) = (ofCommand c).declare o := by
  cases fillable : o.isFillable with
  | false => simp [ofCommand, Command.withOption, declare, fillable]
  | true =>
      cases flag : o.flag <;> cases choices : o.choices.isEmpty <;>
        simp [ofCommand, Command.withOption, declare, Entries.ofList, fillable, flag, choices]

/-- A table is filled in one pass over the options. -/
theorem ofCommand_withOptions (c : Command) (os : List OptionDecl) :
    ofCommand (c.withOptions os) = os.foldl declare (ofCommand c) := by
  induction os generalizing c with
  | nil => simp [Command.withOptions]
  | cons o os ih =>
      have step : c.withOptions (o :: os) = (c.withOption o).withOptions os := by
        simp [Command.withOptions, Command.withOption]
      rw [step, ih, ofCommand_withOption, List.foldl_cons]

/-! ## What a pass keeps -/

/-- What a table holds of the options that are declared so far. -/
structure Divides (os : List OptionDecl) (t : Table) : Prop where
  slots : t.slots = os.filter fun o => o.isFillable && !o.flag
  flags : t.flags = os.filter fun o => o.isFillable && o.flag
  apart : t.options.keys.Nodup
  last : ∀ name, t.option? name = os.reverse.find? fun o => o.isFillable && o.name == name
  chosen : t.hasChoices = true ↔ ∃ o ∈ os, o.isFillable = true ∧ o.choices ≠ []

variable {os : List OptionDecl} {t : Table} {c : Command}

theorem Divides.passOver (divides : Divides os t) {o : OptionDecl} (other : o.isFillable = false) :
    Divides (os ++ [o]) t where
  slots := by simp [divides.slots, other]
  flags := by simp [divides.flags, other]
  apart := divides.apart
  last := by simp [divides.last, other]
  chosen := by simp [divides.chosen, or_and_right, exists_or, other]

theorem Divides.take (divides : Divides os t) {o : OptionDecl} (fillable : o.isFillable = true) :
    Divides (os ++ [o]) (t.declare o) where
  slots := by cases flag : o.flag <;> simp [Table.declare, divides.slots, fillable, flag]
  flags := by cases flag : o.flag <;> simp [Table.declare, divides.flags, fillable, flag]
  apart := by
    rw [options_declare fillable]
    exact Entries.nodup_keys_insert divides.apart o.name o
  last := by
    intro name
    have front := divides.last name
    rw [option?] at front ⊢
    rw [options_declare fillable, Entries.get?_insert]
    -- The new option is the first that a search from the back looks at.
    by_cases same : o.name = name
    · simp [same, fillable]
    · simp [same, fillable, front]
  chosen := by
    have front := divides.chosen
    cases choices : o.choices with
    | nil => simpa [hasChoices, Table.declare, fillable, choices, or_and_right, exists_or]
        using front
    | cons choice rest =>
        refine iff_of_true ?_ ⟨o, by simp, fillable, by simp [choices]⟩
        simp [hasChoices, Table.declare, fillable, choices]

theorem Divides.declare (divides : Divides os t) (o : OptionDecl) :
    Divides (os ++ [o]) (t.declare o) := by
  cases fillable : o.isFillable with
  | false =>
      rw [declare_of_not_fillable fillable]
      exact divides.passOver fillable
  | true => exact divides.take fillable

theorem Divides.foldl (divides : Divides os t) (more : List OptionDecl) :
    Divides (os ++ more) (more.foldl Table.declare t) := by
  induction more generalizing os t with
  | nil => simpa using divides
  | cons o more ih =>
      have rest := ih (divides.declare o)
      rwa [List.append_assoc, List.singleton_append] at rest

theorem divides_ofCommand (c : Command) : Divides c.options (ofCommand c) := by
  have nothing : Divides [] (ofCommand { c with options := [] }) :=
    ⟨rfl, rfl, List.nodup_nil, fun _ => rfl, by simp [hasChoices, ofCommand]⟩
  have whole := nothing.foldl c.options
  rwa [← ofCommand_withOptions] at whole

/-! ## Counting -/

theorem Divides.mem_keys (divides : Divides os t) {name : String} :
    name ∈ t.options.keys ↔ name ∈ (os.filter (·.isFillable)).map (·.name) := by
  have found := divides.last name
  rw [option?] at found
  rw [← Entries.get?_isSome_iff, found, List.find?_isSome]
  simp [and_assoc]

theorem Divides.optionCount (divides : Divides os t) :
    t.optionCount = ((os.filter (·.isFillable)).map (·.name)).toFinset.card := by
  have names : t.options.keys.toFinset = ((os.filter (·.isFillable)).map (·.name)).toFinset := by
    ext name
    rw [List.mem_toFinset, List.mem_toFinset, divides.mem_keys]
  calc t.optionCount
      = t.options.keys.length := by
        rw [Table.optionCount, Entries.size, Entries.keys, List.length_map]
    _ = t.options.keys.toFinset.card := (List.toFinset_card_of_nodup divides.apart).symm
    _ = ((os.filter (·.isFillable)).map (·.name)).toFinset.card := by rw [names]

/-- Each option that text can fill is a slot or a flag, and not both. -/
theorem Divides.perm (divides : Divides os t) :
    (t.slots ++ t.flags).Perm (os.filter (·.isFillable)) := by
  have both := List.filter_append_perm (fun o : OptionDecl => !o.flag) (os.filter (·.isFillable))
  rw [divides.slots, divides.flags]
  simpa [List.filter_filter, Bool.and_comm] using both

/-- No option is lost in the count just where no name is declared twice. -/
theorem Divides.optionCount_eq_iff (divides : Divides os t) :
    t.optionCount = t.slots.length + t.flags.length ↔
      ((os.filter (·.isFillable)).map (·.name)).Nodup := by
  have sum : t.slots.length + t.flags.length =
      ((os.filter (·.isFillable)).map (·.name)).length := by
    rw [← List.length_append, divides.perm.length_eq, List.length_map]
  rw [divides.optionCount, sum]
  exact Multiset.toFinset_card_eq_card_iff_nodup

/-! ## Markers -/

/-- Where names are distinct, a marker means the option that is declared with its name, if text
can fill it. -/
theorem option?_eq_some_iff (distinct : (c.options.map (·.name)).Nodup) {name : String}
    {o : OptionDecl} :
    (ofCommand c).option? name = some o ↔ c.option? name = some o ∧ o.isFillable = true := by
  -- A marker means the option that is found from the back, and reversing keeps names distinct.
  have distinct' : ((c.options.filter (·.isFillable)).reverse.map (·.name)).Nodup := by
    rw [List.map_reverse, List.nodup_reverse]
    exact distinct.sublist (List.filter_sublist.map _)
  have last : (ofCommand c).option? name =
      (c.options.filter (·.isFillable)).reverse.find? (·.name == name) := by
    rw [(divides_ofCommand c).last, ← List.filter_reverse, List.find?_filter]
    simp only [Bool.decide_and, Bool.decide_eq_true]
  rw [last, OptionDecl.find?_name_iff distinct', Command.option?,
    OptionDecl.find?_name_iff distinct, List.mem_reverse, List.mem_filter, and_right_comm]

/-- A table divides what text can fill into slots and flags in the order of the declaration,
counts options by name, knows whether choices are declared, and leads the markers of a sound
declaration to the options that are declared with their names. -/
theorem ofCommand_partitions (c : Command) :
    ((ofCommand c).slots = (c.options.filter fun o => o.isFillable && !o.flag) ∧
      (ofCommand c).flags = c.options.filter fun o => o.isFillable && o.flag) ∧
    ((ofCommand c).optionCount =
        ((c.options.filter (·.isFillable)).map (·.name)).toFinset.card ∧
      ((ofCommand c).optionCount = (ofCommand c).slots.length + (ofCommand c).flags.length ↔
        ((c.options.filter (·.isFillable)).map (·.name)).Nodup)) ∧
    ((ofCommand c).hasChoices = true ↔
      ∃ o ∈ c.options, o.isFillable = true ∧ o.choices ≠ []) ∧
    (c.defect? = none → ∀ name o, (ofCommand c).option? name = some o ↔
      c.option? name = some o ∧ o.isFillable = true) := by
  have divides := divides_ofCommand c
  refine ⟨⟨divides.slots, divides.flags⟩, ⟨divides.optionCount, divides.optionCount_eq_iff⟩,
    divides.chosen, ?_⟩
  intro sound name o
  exact option?_eq_some_iff (Command.names_nodup_of_defect? sound)

/-- An attachment in front of the others is neither counted nor meant by a marker. -/
theorem ofCommand_partitions_attachment :
    let file : OptionDecl := { name := "file", kind := .attachment }
    let title : OptionDecl := { name := "title", choices := [⟨"Untitled", .text "-"⟩] }
    let visible : OptionDecl := { name := "public", kind := .boolean, flag := true }
    let upload : Command := { name := "upload", options := [file, title, visible] }
    upload.defect? = none ∧ (ofCommand upload).optionCount = 2 ∧
      (ofCommand upload).hasChoices = true ∧
      (ofCommand upload).option? "public" = some visible ∧
      ∀ o, (ofCommand upload).option? "file" ≠ some o := by
  intro file title visible upload
  obtain ⟨-, ⟨count, -⟩, choices, markers⟩ := ofCommand_partitions upload
  have sound : upload.defect? = none := by decide +kernel
  refine ⟨sound, count.trans (by decide +kernel), ?_, ?_, ?_⟩
  · exact choices.2 ⟨title, by simp [upload], rfl, by simp [title]⟩
  · exact (markers sound "public" visible).2 ⟨rfl, rfl⟩
  · intro o meant
    obtain ⟨declared, fillable⟩ := (markers sound "file" o).1 meant
    have attachment : o = file := Option.some.inj (declared.symm.trans rfl)
    rw [attachment] at fillable
    exact absurd fillable (by decide)

end Table

end ChatArgs
