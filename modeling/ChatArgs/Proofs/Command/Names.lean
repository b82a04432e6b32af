import ChatArgs.Command.Table
import ChatArgs.Proofs.Command.Defects
import Mathlib.Data.List.Perm.Subperm

/-!
# Names of options

A table keeps the fillable options of a command under their names. Where names are
distinct, as a sound declaration has them, nothing is replaced: there are as many
options as were declared, and a name means the option that was declared with it.
-/

namespace ChatArgs

/-! ## Distinct names -/

/-- Where no value is taken twice, an item is the only one with its value. -/
theorem filter_eq_singleton_of_nodup {α β : Type} [BEq β] [LawfulBEq β] {f : α → β} {l : List α}
    {x : α} (distinct : (l.map f).Nodup) (member : x ∈ l) : l.filter (f · == f x) = [x] := by
  induction l with
  | nil => simp at member
  | cons y l ih =>
      obtain ⟨absent, distinct⟩ := List.nodup_cons.mp distinct
      cases List.mem_cons.mp member with
      | inl same =>
          subst same
          have others : l.filter (f · == f x) = [] := by
            rw [List.filter_eq_nil_iff]
            intro z inside equal
            apply absent
            exact List.mem_map.mpr ⟨z, inside, eq_of_beq equal⟩
          simp only [List.filter_cons, others, BEq.rfl, if_true]
      | inr inside =>
          have other : ¬ (f y == f x) = true := by
            intro equal
            apply absent
            exact List.mem_map.mpr ⟨x, inside, (eq_of_beq equal).symm⟩
          simp only [List.filter_cons, other, ih distinct inside, Bool.false_eq_true, if_false]

/-! ## Entries with new names -/

namespace Entries

variable {α : Type}

theorem put_append_of_notMem {name : String} {l : List (String × α)}
    (fresh : name ∉ l.map (·.1)) (value : α) (m : List (String × α)) :
    put name value (l ++ m) = l ++ put name value m := by
  induction l with
  | nil => rfl
  | cons entry l ih =>
      simp only [List.map_cons, List.mem_cons, not_or] at fresh
      have different : ¬ entry.1 = name := fun same => fresh.1 same.symm
      rw [List.cons_append, put, if_neg different, ih fresh.2, List.cons_append]

theorem put_of_notMem {name : String} {l : List (String × α)}
    (fresh : name ∉ l.map (·.1)) (value : α) : put name value l = l ++ [(name, value)] := by
  have whole := put_append_of_notMem fresh value []
  rwa [List.append_nil] at whole

theorem put_put (name : String) (a b : α) (l : List (String × α)) :
    put name b (put name a l) = put name b l := by
  induction l with
  | nil => simp [put]
  | cons entry l ih =>
      by_cases same : entry.1 = name
      · simp [put, same]
      · simp [put, same, ih]

theorem keys_put_of_mem {name : String} {l : List (String × α)} (old : name ∈ l.map (·.1))
    (value : α) : (put name value l).map (·.1) = l.map (·.1) := by
  induction l with
  | nil => simp at old
  | cons entry l ih =>
      by_cases same : entry.1 = name
      · simp [put, same]
      · have later : name ∈ l.map (·.1) := by
          rw [List.map_cons, List.mem_cons] at old
          exact old.resolve_left fun here => same here.symm
        simp [put, same, ih later]

theorem keys_insert_of_mem {m : Entries α} {name : String} (old : name ∈ m.keys) (value : α) :
    (m.insert name value).keys = m.keys :=
  keys_put_of_mem old value

theorem put_of_find {name : String} {value : α} {l : List (String × α)}
    (found : find name l = some value) : put name value l = l := by
  induction l with
  | nil => simp [find] at found
  | cons entry l ih =>
      rw [find] at found
      split at found
      · rename_i same
        rw [put, if_pos same, ← same, ← Option.some.inj found]
      · rename_i other
        rw [put, if_neg other, ih found]

theorem insert_of_get? {m : Entries α} {name : String} {value : α}
    (found : m.get? name = some value) : m.insert name value = m :=
  congrArg Entries.mk (put_of_find found)

theorem toList_ofList {pairs : List (String × α)} (distinct : (pairs.map (·.1)).Nodup) :
    (ofList pairs).toList = pairs := by
  have kept (front : List (String × α)) (h : ((front ++ pairs).map (·.1)).Nodup) :
      (pairs.foldl (fun (m : Entries α) pair => m.insert pair.1 pair.2) ⟨front⟩).toList =
        front ++ pairs := by
    clear distinct
    induction pairs generalizing front with
    | nil => simp
    | cons pair pairs ih =>
        have fresh : pair.1 ∉ front.map (·.1) := by
          intro old
          rw [List.map_append, List.nodup_append] at h
          exact h.2.2 _ old _ List.mem_cons_self rfl
        rw [List.foldl_cons, insert, put_of_notMem fresh, ih]
        · simp
        · simpa using h
  exact kept [] distinct

theorem ofList_of_nodup {pairs : List (String × α)} (distinct : (pairs.map (·.1)).Nodup) :
    ofList pairs = ⟨pairs⟩ :=
  congrArg Entries.mk (toList_ofList distinct)

theorem mem_or_get?_of_foldl {pairs : List (String × α)} {m : Entries α} {name : String}
    {value : α}
    (h : (pairs.foldl (fun (m : Entries α) pair => m.insert pair.1 pair.2) m).get? name =
      some value) :
    (name, value) ∈ pairs ∨ m.get? name = some value := by
  induction pairs generalizing m with
  | nil => exact .inr h
  | cons pair pairs ih =>
      rcases ih h with later | now
      · exact .inl (List.mem_cons_of_mem _ later)
      · rw [get?_insert] at now
        split at now
        · rename_i same
          subst same
          cases now
          exact .inl List.mem_cons_self
        · exact .inr now

theorem mem_of_get?_ofList {pairs : List (String × α)} {name : String} {value : α}
    (h : (ofList pairs).get? name = some value) : (name, value) ∈ pairs := by
  rcases mem_or_get?_of_foldl h with member | none
  · exact member
  · simp at none

theorem mem_keys_ofList {pairs : List (String × α)} {name : String} :
    name ∈ (ofList pairs).keys ↔ name ∈ pairs.map (·.1) := by
  have kept (m : Entries α) :
      name ∈ (pairs.foldl (fun (m : Entries α) pair => m.insert pair.1 pair.2) m).keys ↔
        name ∈ m.keys ∨ name ∈ pairs.map (·.1) := by
    induction pairs generalizing m with
    | nil => simp
    | cons pair pairs ih =>
        rw [List.foldl_cons, ih, mem_keys_insert, List.map_cons, List.mem_cons, or_assoc,
          or_left_comm]
  exact (kept empty).trans (by simp [keys, empty])

theorem find_of_mem {l : List (String × α)} (distinct : (l.map (·.1)).Nodup) {name : String}
    {value : α} (h : (name, value) ∈ l) : find name l = some value := by
  induction l with
  | nil => simp at h
  | cons entry l ih =>
      rw [List.map_cons, List.nodup_cons] at distinct
      rw [find]
      rcases List.mem_cons.1 h with rfl | later
      · rw [if_pos rfl]
      · have different : ¬ entry.1 = name := by
          rintro rfl
          exact distinct.1 (List.mem_map.2 ⟨_, later, rfl⟩)
        rw [if_neg different, ih distinct.2 later]

theorem get?_ofList_of_mem {pairs : List (String × α)} (distinct : (pairs.map (·.1)).Nodup)
    {name : String} {value : α} (h : (name, value) ∈ pairs) :
    (ofList pairs).get? name = some value := by
  rw [get?, toList_ofList distinct]
  exact find_of_mem distinct h

theorem find_eq_some_iff {l : List (String × α)} (distinct : (l.map (·.1)).Nodup) (name : String)
    (value : α) : find name l = some value ↔ (name, value) ∈ l := by
  constructor
  · intro found
    clear distinct
    induction l with
    | nil => simp [find] at found
    | cons entry l ih =>
        rw [find] at found
        split at found
        · rename_i same
          rw [← same, ← Option.some.inj found]
          exact List.mem_cons_self
        · exact List.mem_cons_of_mem entry (ih found)
  · exact find_of_mem distinct

/-- The order of entries does not count, where names are distinct. -/
theorem find_perm {l l' : List (String × α)} (distinct : (l.map (·.1)).Nodup)
    (perm : l'.Perm l) (name : String) : find name l' = find name l := by
  have distinct' : (l'.map (·.1)).Nodup := (perm.map (·.1)).nodup_iff.2 distinct
  apply Option.ext
  intro value
  rw [find_eq_some_iff distinct, find_eq_some_iff distinct', perm.mem_iff]

end Entries

/-! ## Options of a command -/

namespace Table

variable {c : Command}

theorem option?_eq_some {name : String} {o : OptionDecl}
    (h : (ofCommand c).option? name = some o) :
    o ∈ c.options ∧ o.isFillable = true ∧ o.name = name := by
  have pair := Entries.mem_of_get?_ofList h
  obtain ⟨o', member, same⟩ := List.mem_map.1 pair
  obtain ⟨rfl, rfl⟩ := Prod.mk.injEq .. ▸ same
  exact ⟨(List.mem_filter.1 member).1, (List.mem_filter.1 member).2, rfl⟩

/-- A marker means no option just where no option that text can fill has its name. -/
theorem option?_eq_none_iff {name : String} :
    (ofCommand c).option? name = none ↔
      ∀ o ∈ c.options, o.isFillable = true → o.name ≠ name := by
  rw [option?, ← Option.not_isSome_iff_eq_none, Entries.get?_isSome_iff, ofCommand,
    Entries.mem_keys_ofList]
  simp

theorem optionCount_pos_of_option? {t : Table} {name : String} {o : OptionDecl}
    (known : t.option? name = some o) : 0 < t.optionCount := by
  have member : name ∈ t.options.keys := by
    rw [← Entries.get?_isSome_iff]
    exact Option.isSome_of_eq_some known
  have filled := List.length_pos_of_mem member
  rwa [Entries.keys, List.length_map] at filled

theorem optionCount_pos_of_slot {o : OptionDecl} (slot : o ∈ (ofCommand c).slots) :
    0 < (ofCommand c).optionCount := by
  have member : o.name ∈ (ofCommand c).options.keys := by
    rw [ofCommand, Entries.mem_keys_ofList, List.map_map]
    exact List.mem_map_of_mem (List.mem_filter.1 slot).1
  have filled := List.length_pos_of_mem member
  rwa [Entries.keys, List.length_map] at filled

section

variable (distinct : (c.options.map (·.name)).Nodup)
include distinct

theorem fillable_names_nodup :
    (((c.options.filter (·.isFillable)).map fun o => (o.name, o)).map (·.1)).Nodup := by
  rw [List.map_map]
  exact distinct.sublist (List.Sublist.map _ List.filter_sublist)

theorem slot_names_nodup : ((ofCommand c).slots.map (·.name)).Nodup := by
  have inner : List.Sublist (ofCommand c).slots c.options :=
    List.filter_sublist.trans List.filter_sublist
  exact distinct.sublist (inner.map _)

theorem option?_of_mem {o : OptionDecl} (member : o ∈ c.options) (fillable : o.isFillable = true) :
    (ofCommand c).option? o.name = some o := by
  apply Entries.get?_ofList_of_mem (fillable_names_nodup distinct)
  exact List.mem_map_of_mem (List.mem_filter.2 ⟨member, fillable⟩)

/-- An option that is declared is a flag or has a slot, and no slot has the name of a flag. -/
theorem flag_or_slot {name : String} {o : OptionDecl}
    (known : (ofCommand c).option? name = some o) :
    o.flag = true ∧ (∀ o' ∈ (ofCommand c).slots, o'.name ≠ name) ∨
      o.flag = false ∧ ∃ slot, (ofCommand c).slotOf? name = some slot := by
  obtain ⟨member, fillable, rfl⟩ := option?_eq_some known
  cases flag : o.flag with
  | true =>
      left
      refine ⟨rfl, ?_⟩
      intro o' slot same
      obtain ⟨inner, unflagged⟩ := List.mem_filter.1 slot
      obtain ⟨member', fillable'⟩ := List.mem_filter.1 inner
      have known' := option?_of_mem distinct member' fillable'
      rw [same, known] at known'
      rw [← Option.some.inj known'] at unflagged
      simp [flag] at unflagged
  | false =>
      right
      refine ⟨rfl, ?_⟩
      rw [← Option.isSome_iff_exists, slotOf?, List.findIdx?_isSome, List.any_eq_true]
      refine ⟨o, ?_, by simp⟩
      simp [ofCommand, member, fillable, flag]

theorem optionCount_eq :
    (ofCommand c).optionCount = (c.options.filter (·.isFillable)).length := by
  rw [optionCount, Entries.size, ofCommand, Entries.toList_ofList (fillable_names_nodup distinct),
    List.length_map]

/-- Each option that text can fill is a slot or a flag. -/
theorem optionCount_eq_add :
    (ofCommand c).optionCount = (ofCommand c).slots.length + (ofCommand c).flags.length := by
  rw [optionCount_eq distinct, ofCommand, Nat.add_comm]
  exact List.length_eq_length_filter_add _

/-- Distinct names of fillable options are at most as many as the options. -/
theorem length_le_optionCount {names : List String} (nodup : names.Nodup)
    (declared : ∀ name ∈ names, ∃ o ∈ c.options, o.name = name ∧ o.isFillable = true) :
    names.length ≤ (ofCommand c).optionCount := by
  have inside : names ⊆ (c.options.filter (·.isFillable)).map (·.name) := by
    intro name member
    obtain ⟨o, known, rfl, fillable⟩ := declared name member
    exact List.mem_map_of_mem (List.mem_filter.2 ⟨known, fillable⟩)
  have length := (List.subperm_of_subset nodup inside).length_le
  rwa [List.length_map, ← optionCount_eq distinct] at length

theorem optionCount_pos {o : OptionDecl} (member : o ∈ c.options) (fillable : o.isFillable = true) :
    0 < (ofCommand c).optionCount := by
  rw [optionCount_eq distinct]
  exact List.length_pos_of_mem (List.mem_filter.2 ⟨member, fillable⟩)

theorem slots_length_le_optionCount : (ofCommand c).slots.length ≤ (ofCommand c).optionCount := by
  rw [optionCount_eq distinct]
  exact List.length_filter_le _ _

end

end Table

/-! ## Sound declarations -/

namespace Command

theorem names_nodup_of_defect? {c : Command} (sound : c.defect? = none) :
    (c.options.map (·.name)).Nodup :=
  (defect?_eq_none_iff.1 sound).distinct

end Command

end ChatArgs
