import ChatArgs.Options.Form
import ChatArgs.Proofs.Document.JsonText

/-!
# Records with fields that may be left out

A record is written from slots: each slot has a name, and a value if there is one. Asking the record
for the same names gives the values of the slots again, as long as no name stands there twice.
-/

namespace ChatArgs

namespace Document

variable {α : Type} {slots : List (String × Option Document)}

def givenFields (slots : List (String × Option Document)) : List (String × Document) :=
  slots.filterMap fun slot => slot.2.map (slot.1, ·)

/-- The fields of the slots that have a value, as `fieldsBy?` looks at them. -/
def namedSlots (slots : List (String × Option Document)) : List (Option String × Document) :=
  (givenFields slots).map fun field => (some field.1, field.2)

theorem givenFields_cons (slot : String × Option Document) :
    givenFields (slot :: slots) = (slot.2.map (slot.1, ·)).toList ++ givenFields slots := by
  cases given : slot.2 <;> simp [givenFields, given]

theorem namedSlots_cons (slot : String × Option Document) :
    namedSlots (slot :: slots) = (slot.2.map (some slot.1, ·)).toList ++ namedSlots slots := by
  cases given : slot.2 <;> simp [namedSlots, givenFields_cons, given]

theorem Written.ofFields_givenFields
    (written : ∀ slot ∈ slots, ∀ d, slot.2 = some d → Written d) :
    Written (.ofFields (givenFields slots)) := by
  apply Written.record
  intro field member
  simp only [givenFields, List.mem_filterMap, Option.map_eq_some_iff] at member
  obtain ⟨slot, inSlots, d, given, rfl⟩ := member
  exact written slot inSlots d given

/-! ## Asking for the names of the slots -/

theorem filter_namedSlots_of_not_mem {name : String} (absent : name ∉ slots.map (·.1)) :
    (namedSlots slots).filter (·.1 == some name) = [] := by
  induction slots with
  | nil => rfl
  | cons slot slots ih =>
      simp only [List.map_cons, List.mem_cons, not_or] at absent
      have other : slot.1 ≠ name := fun same => absent.1 same.symm
      rw [namedSlots_cons, List.filter_append, ih absent.2]
      cases slot.2 <;> simp [other]

theorem filter_namedSlots (distinct : (slots.map (·.1)).Nodup) {slot : String × Option Document}
    (member : slot ∈ slots) :
    (namedSlots slots).filter (·.1 == some slot.1) =
      (slot.2.map (some slot.1, ·)).toList := by
  induction slots with
  | nil => simp at member
  | cons head slots ih =>
      obtain ⟨absent, distinct⟩ := List.nodup_cons.mp distinct
      rw [namedSlots_cons, List.filter_append]
      cases List.mem_cons.mp member with
      | inl same =>
          subst same
          rw [filter_namedSlots_of_not_mem absent]
          cases slot.2 <;> simp
      | inr member =>
          have other : head.1 ≠ slot.1 := by
            intro same
            apply absent
            exact List.mem_map.mpr ⟨slot, member, same.symm⟩
          rw [ih distinct member]
          cases head.2 <;> simp [other]

theorem field?_namedSlots (distinct : (slots.map (·.1)).Nodup) {slot : String × Option Document}
    (member : slot ∈ slots) : field? slot.1 (namedSlots slots) = some slot.2 := by
  rw [field?, filter_namedSlots distinct member]
  cases slot.2 <;> rfl

theorem mapM_eq_some_map {β : Type} {f : α → Option β} {g : α → β} {xs : List α}
    (each : ∀ x ∈ xs, f x = some (g x)) : xs.mapM f = some (xs.map g) := by
  induction xs with
  | nil => rfl
  | cons x xs ih =>
      rw [List.mapM_cons, each x List.mem_cons_self,
        ih fun y member => each y (List.mem_cons_of_mem x member)]
      rfl

/-- A record is read back by any reader of keys that takes texts for themselves. -/
theorem fieldsBy?_givenFields {nameOf : Document → Option (Option String)}
    (texts : ∀ key, nameOf (.text key) = some (some key)) (positional : Bool)
    (distinct : (slots.map (·.1)).Nodup) :
    fieldsBy? nameOf positional (slots.map (·.1)) (.ofFields (givenFields slots)) =
      some (slots.map (·.2)) := by
  have named : namedFields? nameOf
      ((givenFields slots).map fun field => (.text field.1, field.2)) =
      some (namedSlots slots) := by
    rw [namedFields?, List.mapM_map]
    exact mapM_eq_some_map fun field _ => by simp [texts]
  have values : (slots.map (·.1)).mapM (field? · (namedSlots slots)) = some (slots.map (·.2)) := by
    rw [List.mapM_map]
    exact mapM_eq_some_map fun slot member => field?_namedSlots distinct member
  simp only [fieldsBy?, ofFields, node, followed, untagged, named, Option.bind_eq_bind,
    Option.bind_some, values]

theorem recordFields?_givenFields (format : Format) (distinct : (slots.map (·.1)).Nodup) :
    recordFields? format (slots.map (·.1)) (.ofFields (givenFields slots)) =
      some (slots.map (·.2)) :=
  fieldsBy?_givenFields (fun _ => rfl) _ distinct

theorem looseFields?_givenFields (distinct : (slots.map (·.1)).Nodup) :
    looseFields? (slots.map (·.1)) (.ofFields (givenFields slots)) = some (slots.map (·.2)) :=
  fieldsBy?_givenFields (fun _ => rfl) true distinct

/-! ## Fields that may be left out -/

/-- A document that stands for itself and is not null. -/
def Solid (d : Document) : Prop :=
  d.isNull = false ∧ d.claimsNull = false

theorem optional_of_solid {read : Document → Option α} {d : Document} {x : α} (solid : Solid d)
    (back : read d = some x) : optional read (some d) = some (some x) := by
  simp [optional, solid.1, solid.2, back]

theorem optional_map {read : Document → Option α} {write : α → Document}
    (solid : ∀ x, Solid (write x)) (back : ∀ x, read (write x) = some x) (value : Option α) :
    optional read (value.map write) = some value := by
  cases value with
  | none => rfl
  | some x => exact optional_of_solid (solid x) (back x)

theorem solid_bool (b : Bool) : Solid (.bool b) := ⟨rfl, rfl⟩

theorem solid_list (items : List Document) : Solid (.list items) := ⟨rfl, rfl⟩

theorem solid_ofFields (fields : List (String × Document)) : Solid (.ofFields fields) := ⟨rfl, rfl⟩

theorem optional_asBool?_map (value : Option Bool) :
    optional asBool? (value.map .bool) = some value :=
  optional_map solid_bool (fun _ => rfl) value

theorem asListOf?_map {read : Document → Option α} {write : α → Document} (xs : List α)
    (back : ∀ x ∈ xs, read (write x) = some x) :
    asListOf? read (.list (xs.map write)) = some xs := by
  have items : (xs.map write).mapM read = some (xs.map id) := by
    rw [List.mapM_map]
    exact mapM_eq_some_map back
  simpa [asListOf?, asList?, node, followed, untagged] using items

end Document

/-! ## Writing slot by slot -/

open Document (givenFields)

theorem givenField_append {α : Type} (name : String) (write : α → Document) (value : Option α)
    (slots : List (String × Option Document)) :
    givenField name write value ++ givenFields slots =
      givenFields ((name, value.map write) :: slots) := by
  cases value <;> simp [givenField, Document.givenFields_cons]

theorem givenField_eq {α : Type} (name : String) (write : α → Document) (value : Option α) :
    givenField name write value = givenFields [(name, value.map write)] := by
  cases value <;> rfl

end ChatArgs
