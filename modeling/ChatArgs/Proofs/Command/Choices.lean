import ChatArgs.Proofs.Command.Names
import Mathlib.Data.List.Nodup

/-!
# Choices of an option

A value means the choice that has its name in lower case; else, where values count, the first
choice that has it as its value; else itself. This is what the table of the option finds, where
names in lower case are distinct, as a sound declaration has them. What a value means, means itself.
-/

namespace ChatArgs

open Text

/-! ## Sound declarations -/

namespace Command

variable {c : Command} (sound : c.defect? = none) {o : OptionDecl} (member : o ∈ c.options)
include sound member

/-- Only options of some kinds have choices. -/
theorem choices_eq_nil (kind : o.kind.allowsChoices = false) : o.choices = [] := by
  by_contra choices
  have allowed := o.kind.allowsChoices_iff.2 ((wellFormed_of_mem sound member).chosen choices)
  simp [kind] at allowed

theorem isFillable_of_choices (choices : o.choices ≠ []) : o.isFillable = true := by
  have chosen := (wellFormed_of_mem sound member).chosen choices
  apply o.kind.isFillable_iff.2
  rw [List.mem_cons, List.mem_cons, List.mem_singleton] at chosen
  rcases chosen with kind | kind | kind <;> simp [kind]

theorem choice_names_nodup : (o.choices.map fun choice => lowercase choice.name).Nodup :=
  (wellFormed_of_mem sound member).distinct

end Command

/-! ## What a value means -/

namespace OptionDecl

variable {o : OptionDecl} {byValue : Bool} {value meant : String}

/-- What a value of the option means: the choice of this name, the first one of this value, or
nothing else than the value. -/
inductive Means (o : OptionDecl) (byValue : Bool) (value : String) : String → Prop
  | name {choice : Choice} : choice ∈ o.choices → lowercase choice.name = lowercase value →
      Means o byValue value choice.name
  | value {front back : List Choice} {choice : Choice} : byValue = true →
      (∀ other ∈ o.choices, lowercase other.name ≠ lowercase value) →
      o.choices = front ++ choice :: back → lowercase choice.value.display = lowercase value →
      (∀ other ∈ front, lowercase other.value.display ≠ lowercase value) →
      Means o byValue value choice.name
  | itself : (∀ other ∈ o.choices, lowercase other.name ≠ lowercase value) →
      (byValue = true →
        ∀ other ∈ o.choices, lowercase other.value.display ≠ lowercase value) →
      Means o byValue value value

theorem Means.self (means : o.Means byValue value meant) : o.Means byValue meant meant := by
  cases means with
  | name member _ => exact .name member rfl
  | value _ _ split _ _ => exact .name (by simp [split]) rfl
  | itself noName noValue => exact .itself noName noValue

end OptionDecl

namespace ChoiceTable

variable {o : OptionDecl} {byValue : Bool} {value meant : String}

theorem find?_ofOption (o : OptionDecl) (lowered : String) (byValue : Bool) :
    (ofOption o).find? lowered byValue =
      match o.choices.find? fun choice => lowercase choice.name == lowered with
      | some choice => some choice.name
      | none =>
          if byValue then
            (o.choices.find? fun choice => lowercase choice.value.display == lowered).map (·.name)
          else none := by
  simp only [find?, ofOption, List.find?_map, Function.comp_def]
  cases o.choices.find? fun choice => lowercase choice.name == lowered with
  | some choice => rfl
  | none => simp only [Option.map_none, Option.map_map, Function.comp_def]

theorem means_find? (o : OptionDecl) (value : String) (byValue : Bool) :
    o.Means byValue value (((ofOption o).find? (lowercase value) byValue).getD value) := by
  rw [find?_ofOption]
  cases named : o.choices.find? fun choice => lowercase choice.name == lowercase value with
  | some choice =>
      have same := List.find?_some named
      exact .name (List.mem_of_find?_eq_some named) (by simpa using same)
  | none =>
      have noName : ∀ other ∈ o.choices, lowercase other.name ≠ lowercase value := by
        simpa using named
      cases byValue with
      | false => exact .itself noName (by simp)
      | true =>
          cases valued : o.choices.find? fun choice =>
              lowercase choice.value.display == lowercase value with
          | some choice =>
              obtain ⟨same, front, back, split, earlier⟩ := List.find?_eq_some_iff_append.1 valued
              exact .value rfl noName split (by simpa using same) (by simpa using earlier)
          | none => exact .itself noName fun _ => by simpa using valued

section

variable (distinct : (o.choices.map fun choice => lowercase choice.name).Nodup)
include distinct

/-- A name in lower case belongs to one choice only. -/
theorem find?_choice_of_name {choice : Choice} (member : choice ∈ o.choices)
    (same : lowercase choice.name = lowercase value) :
    (o.choices.find? fun other => lowercase other.name == lowercase value) = some choice := by
  have named : (o.choices.find? fun other => lowercase other.name == lowercase value).isSome :=
    List.find?_isSome.2 ⟨choice, member, by simp [same]⟩
  obtain ⟨other, found⟩ := Option.isSome_iff_exists.1 named
  have same' : lowercase other.name = lowercase value := by
    have holds := List.find?_some found
    simpa using holds
  rw [found, List.inj_on_of_nodup_map distinct (List.mem_of_find?_eq_some found) member
    (same'.trans same.symm)]

/-- Where names are distinct in lower case, nothing else is meant. -/
theorem means_iff :
    o.Means byValue value meant ↔
      ((ofOption o).find? (lowercase value) byValue).getD value = meant := by
  constructor
  · intro means
    rw [find?_ofOption]
    cases means with
    | @name choice member same =>
        rw [find?_choice_of_name distinct member same]
        rfl
    | @value front back choice allowed noName split same earlier =>
        have unnamed : o.choices.find? (fun choice => lowercase choice.name == lowercase value) =
            none := by simpa using noName
        have found : o.choices.find? (fun choice =>
            lowercase choice.value.display == lowercase value) = some choice :=
          List.find?_eq_some_iff_append.2 ⟨by simpa using same, front, back, split,
            by simpa using earlier⟩
        rw [unnamed, found, allowed]
        rfl
    | itself noName noValue =>
        have unnamed : o.choices.find? (fun choice => lowercase choice.name == lowercase value) =
            none := by simpa using noName
        rw [unnamed]
        cases byValue with
        | false => rfl
        | true =>
            have none : o.choices.find? (fun choice =>
                lowercase choice.value.display == lowercase value) = none := by
              simpa using noValue rfl
            rw [none]
            rfl
  · rintro rfl
    exact means_find? o value byValue

end

end ChoiceTable

end ChatArgs
