import ChatArgs.Command.Validation
import Mathlib.Data.List.Nodup

/-!
# The defect that a check reports

A declaration has requirements in an order: those of a command, then those of each option, and for
each option those of its choices; names have to differ from the names in front. A check reports the
first requirement that is not met, and nothing where the declaration is well formed.
-/

namespace ChatArgs

open Text
open Decimal (Double)

/-! ## Requirements in an order -/

/-- What a declaration has to meet, and its defect where it does not. -/
structure Requirement where
  Met : Prop
  defect : Defect

/-- What a check of these requirements finds: nothing, or the defect of the first one that is not
met. -/
inductive Reports : List Requirement → Option Defect → Prop
  | nothing {requirements : List Requirement} : (∀ r ∈ requirements, r.Met) →
      Reports requirements none
  | first {front back : List Requirement} {r : Requirement} : (∀ q ∈ front, q.Met) → ¬ r.Met →
      Reports (front ++ r :: back) (some r.defect)

namespace Reports

variable {r : Requirement} {rs qs : List Requirement} {found : Option Defect}

theorem of_not_met (unmet : ¬ r.Met) : Reports (r :: rs) (some r.defect) :=
  @first [] rs r (by simp) unmet

theorem of_met (met : r.Met) (others : Reports rs found) : Reports (r :: rs) found := by
  cases others with
  | nothing all => exact nothing (List.forall_mem_cons.2 ⟨met, all⟩)
  | @first front back q all unmet =>
      exact @first (r :: front) back q (List.forall_mem_cons.2 ⟨met, all⟩) unmet

theorem append_of_none (front : Reports rs none) (back : Reports qs found) :
    Reports (rs ++ qs) found := by
  cases front with
  | nothing all =>
      induction rs with
      | nil => exact back
      | cons r rs ih =>
          obtain ⟨met, others⟩ := List.forall_mem_cons.1 all
          exact of_met met (ih others)

theorem append_of_some {defect : Defect} (front : Reports rs (some defect)) :
    Reports (rs ++ qs) (some defect) := by
  cases front with
  | @first front back r all unmet =>
      rw [List.append_assoc, List.cons_append]
      exact first all unmet

theorem toList_eq_nil_iff (report : Reports rs found) :
    found.toList = [] ↔ ∀ r ∈ rs, r.Met := by
  cases report with
  | nothing all => exact iff_of_true rfl all
  | @first front back r _ unmet =>
      refine iff_of_false (by simp) fun all => unmet ?_
      exact all r (by simp)

/-- Where a requirement is not met, there is one defect, that of the first such requirement. -/
theorem exists_toList_iff (report : Reports rs found) :
    (¬ ∀ r ∈ rs, r.Met) ↔ ∃ d, found.toList = [d] ∧ Reports rs (some d) := by
  rw [← report.toList_eq_nil_iff]
  cases found with
  | none => simp
  | some d => simpa using report

end Reports

/-! ## The items of a list in turn -/

section

variable {α : Type}

/-- The requirements of each item, which knows the items in front of it. -/
def eachInOrder (requirements : List α → α → List Requirement) (earlier : List α) :
    List α → List Requirement
  | [] => []
  | x :: xs => requirements earlier x ++ eachInOrder requirements (earlier ++ [x]) xs

variable {requirements : List α → α → List Requirement} {key : α → String}

/-- Where an item has to be sound by itself and to differ from the items in front, all items have
to be sound and to differ from each other. -/
theorem met_eachInOrder_iff {Sound : α → Prop}
    (each : ∀ earlier x,
      (∀ r ∈ requirements earlier x, r.Met) ↔ Sound x ∧ ∀ y ∈ earlier, key y ≠ key x)
    (earlier xs : List α) :
    (∀ r ∈ eachInOrder requirements earlier xs, r.Met) ↔
      (∀ x ∈ xs, Sound x) ∧ (xs.map key).Nodup ∧ ∀ y ∈ earlier, ∀ x ∈ xs, key y ≠ key x := by
  induction xs generalizing earlier with
  | nil => simp [eachInOrder]
  | cons x xs ih =>
      rw [eachInOrder, List.forall_mem_append, each, ih, List.map_cons, List.nodup_cons,
        List.forall_mem_cons]
      constructor
      · rintro ⟨⟨sound, fresh⟩, others, distinct, apart⟩
        refine ⟨⟨sound, others⟩, ⟨?_, distinct⟩, ?_⟩
        · intro again
          obtain ⟨other, member, same⟩ := List.mem_map.1 again
          exact apart x (by simp) other member same.symm
        · intro y front
          rw [List.forall_mem_cons]
          exact ⟨fresh y front, apart y (List.mem_append_left _ front)⟩
      · rintro ⟨⟨sound, others⟩, ⟨fresh, distinct⟩, apart⟩
        refine ⟨⟨sound, fun y front => apart y front x (by simp)⟩, others, distinct, ?_⟩
        intro y front other member
        rcases List.mem_append.1 front with front | last
        · exact apart y front other (List.mem_cons_of_mem _ member)
        · rw [List.mem_singleton.1 last]
          exact fun same => fresh (List.mem_map.2 ⟨other, member, same.symm⟩)

/-- A loop that checks each item with the keys that it has seen, and ends with the first defect. -/
theorem reports_eachInOrder {check : List String → α → Option Defect}
    {loop : List String → List α → Option Defect}
    (last : ∀ seen, loop seen [] = none)
    (next : ∀ seen x xs, loop seen (x :: xs) = (check seen x).or (loop (key x :: seen) xs))
    (checked : ∀ {seen : List String} {earlier : List α} (x : α),
      (∀ n, n ∈ seen ↔ ∃ y ∈ earlier, key y = n) →
        Reports (requirements earlier x) (check seen x))
    {seen : List String} {earlier : List α} (xs : List α)
    (known : ∀ n, n ∈ seen ↔ ∃ y ∈ earlier, key y = n) :
    Reports (eachInOrder requirements earlier xs) (loop seen xs) := by
  induction xs generalizing seen earlier with
  | nil =>
      rw [last]
      exact .nothing (by simp [eachInOrder])
  | cons x xs ih =>
      have front := checked x known
      rw [next, eachInOrder]
      cases found : check seen x with
      | some defect =>
          rw [found] at front
          exact front.append_of_some
      | none =>
          rw [found] at front
          refine front.append_of_none (ih fun n => ?_)
          rw [List.mem_cons, known]
          constructor
          · rintro (rfl | ⟨y, member, same⟩)
            · exact ⟨x, by simp, rfl⟩
            · exact ⟨y, List.mem_append_left _ member, same⟩
          · rintro ⟨y, member, rfl⟩
            rcases List.mem_append.1 member with front | back
            · exact .inr ⟨y, front, rfl⟩
            · exact .inl (by rw [List.mem_singleton.1 back])

end

/-! ## Choices -/

inductive Decimal.Double.IsWhole : Double → Prop
  | zero (negative : Bool) : IsWhole (.zero negative)
  | finite {negative : Bool} {m : Decimal.Binary} (n : Nat) :
      m.mantissa * Nat.pow 2 m.exponent.toNat = n * Nat.pow 2 (-m.exponent).toNat →
        IsWhole (.finite negative m)

theorem Decimal.Double.isIntegral_iff (x : Double) : x.isIntegral = true ↔ x.IsWhole := by
  cases x with
  | nan => exact iff_of_false (by simp [isIntegral]) (by rintro ⟨⟩)
  | infinite negative => exact iff_of_false (by simp [isIntegral]) (by rintro ⟨⟩)
  | zero negative => exact iff_of_true rfl (.zero negative)
  | finite negative m =>
      rw [isIntegral, beq_iff_eq, ← Nat.dvd_iff_mod_eq_zero]
      constructor
      · rintro ⟨n, eq⟩
        refine .finite (n * Nat.pow 2 m.exponent.toNat) ?_
        rw [eq, Nat.mul_comm _ n, Nat.mul_right_comm]
      · rintro (_ | ⟨n, eq⟩)
        rcases Int.le_total 0 m.exponent with above | below
        · rw [Int.toNat_of_nonpos (Int.neg_nonpos_of_nonneg above)]
          exact Nat.one_dvd _
        · have unit : m.mantissa * Nat.pow 2 m.exponent.toNat = m.mantissa := by
            rw [Int.toNat_of_nonpos below]
            exact Nat.mul_one _
          exact ⟨n, by rw [← unit, eq, Nat.mul_comm]⟩

namespace ChoiceValue

/-- Texts stand for texts, numbers for numbers, and numbers without a fractional part for integers
too. -/
inductive Fits : ValueKind → ChoiceValue → Prop
  | text (s : String) : Fits .string (.text s)
  | number (x : Float) : Fits .number (.number x)
  | integer {x : Float} : (Double.ofFloat x).IsWhole → Fits .integer (.number x)

theorem fits_iff (kind : ValueKind) (value : ChoiceValue) :
    value.fits kind = true ↔ value.Fits kind := by
  cases value with
  | text s =>
      rw [fits, beq_iff_eq]
      constructor
      · rintro rfl
        exact .text s
      · rintro ⟨⟩
        rfl
  | number x =>
      simp only [fits, Bool.or_eq_true, Bool.and_eq_true, beq_iff_eq, Double.isIntegral_iff]
      constructor
      · rintro (rfl | ⟨rfl, whole⟩)
        · exact .number x
        · exact .integer whole
      · rintro (_ | _ | whole)
        · exact .inl rfl
        · exact .inr ⟨rfl, whole⟩

end ChoiceValue

def Choice.loweredName (choice : Choice) : String :=
  lowercase choice.name

namespace OptionDecl

def choiceRequirements (o : OptionDecl) (earlier : List Choice) (choice : Choice) :
    List Requirement :=
  [⟨choice.value.Fits o.kind, .choiceMismatch o.name choice.name⟩,
    ⟨∀ other ∈ earlier, other.loweredName ≠ choice.loweredName,
      .duplicateChoice o.name choice.name⟩]

/-- One round of `choiceDefectAux`. -/
def checkChoice (o : OptionDecl) (seen : List String) (choice : Choice) : Option Defect :=
  if !choice.value.fits o.kind then some (.choiceMismatch o.name choice.name)
  else if choice.loweredName ∈ seen then some (.duplicateChoice o.name choice.name)
  else none

variable (o : OptionDecl)

theorem choiceDefectAux_cons (seen : List String) (choice : Choice) (rest : List Choice) :
    o.choiceDefectAux seen (choice :: rest) =
      (o.checkChoice seen choice).or (o.choiceDefectAux (choice.loweredName :: seen) rest) := by
  simp only [choiceDefectAux, checkChoice, Choice.loweredName]
  by_cases fits : (!choice.value.fits o.kind) = true
  · simp [fits]
  · by_cases again : lowercase choice.name ∈ seen
    · simp [fits, again]
    · simp [fits, again]

theorem reports_checkChoice {seen : List String} {earlier : List Choice} (choice : Choice)
    (known : ∀ n, n ∈ seen ↔ ∃ other ∈ earlier, other.loweredName = n) :
    Reports (o.choiceRequirements earlier choice) (o.checkChoice seen choice) := by
  unfold checkChoice choiceRequirements
  by_cases fits : choice.value.Fits o.kind
  · rw [(choice.value.fits_iff o.kind).2 fits]
    refine .of_met fits ?_
    by_cases again : choice.loweredName ∈ seen
    · obtain ⟨other, member, same⟩ := (known _).1 again
      rw [if_neg (by simp), if_pos again]
      exact .of_not_met fun apart => apart other member same
    · rw [if_neg (by simp), if_neg again]
      refine .of_met (fun other member same => again ?_) (.nothing (by simp))
      exact (known _).2 ⟨other, member, same⟩
  · have refused : choice.value.fits o.kind = false :=
      Bool.eq_false_iff.2 fun fitting => fits ((choice.value.fits_iff o.kind).1 fitting)
    rw [refused]
    exact .of_not_met fits

theorem reports_choiceDefectAux :
    Reports (eachInOrder o.choiceRequirements [] o.choices) (o.choiceDefectAux [] o.choices) :=
  reports_eachInOrder (fun _ => rfl) o.choiceDefectAux_cons (o.reports_checkChoice) o.choices
    (by simp)

theorem met_choiceRequirements_iff :
    (∀ r ∈ eachInOrder o.choiceRequirements [] o.choices, r.Met) ↔
      (∀ choice ∈ o.choices, choice.value.Fits o.kind) ∧
        (o.choices.map Choice.loweredName).Nodup := by
  rw [@met_eachInOrder_iff _ _ Choice.loweredName (fun choice => choice.value.Fits o.kind)]
  · simp
  · intro earlier choice
    simp [choiceRequirements]

end OptionDecl

/-! ## Options -/

theorem isBlankText_eq_false_iff (s : String) :
    isBlankText s = false ↔ ∃ c ∈ s.toList, isBlank c = false := by
  simp [isBlankText]

theorem isNameChar_iff (c : Char) : isNameChar c = true ↔ c.isAlphanum = true ∨ c = '_' := by
  have alphanum : c.isAlphanum = (c.isUpper || c.isLower || c.isDigit) := rfl
  have upper : c.isUpper = decide ('A' ≤ c ∧ c ≤ 'Z') := rfl
  have lower : c.isLower = (decide ('a' ≤ c) && decide (c ≤ 'z')) := rfl
  have digit : c.isDigit = (decide ('0' ≤ c) && decide (c ≤ '9')) := rfl
  rw [alphanum, upper, lower, digit]
  simp only [isNameChar, Bool.or_eq_true, Bool.and_eq_true, decide_eq_true_eq, beq_iff_eq]
  tauto

theorem isMarkerName_iff (name : String) :
    isMarkerName name = true ↔ ∀ c ∈ name.toList, c.isAlphanum = true ∨ c = '_' := by
  simp [isMarkerName, isNameChar_iff]

theorem ValueKind.isFillable_iff (kind : ValueKind) :
    kind.isFillable = true ↔ kind ∉ [.attachment, .subcommand, .subcommandGroup] := by
  cases kind <;> decide

theorem ValueKind.allowsChoices_iff (kind : ValueKind) :
    kind.allowsChoices = true ↔ kind ∈ [.string, .integer, .number] := by
  cases kind <;> decide

namespace OptionDecl

def requirements (earlier : List OptionDecl) (o : OptionDecl) : List Requirement :=
  [⟨∃ c ∈ o.name.toList, isBlank c = false, .blankOptionName⟩,
    ⟨∀ c ∈ o.name.toList, c.isAlphanum = true ∨ c = '_', .invalidOptionName o.name⟩,
    ⟨∀ other ∈ earlier, other.name ≠ o.name, .duplicateOption o.name⟩,
    ⟨o.flag = true → o.kind ∉ [.attachment, .subcommand, .subcommandGroup],
      .flagNotFillable o.name⟩,
    ⟨o.choices ≠ [] → o.kind ∈ [.string, .integer, .number], .choicesNotSupported o.name⟩] ++
  eachInOrder o.choiceRequirements [] o.choices

/-- An option that is declared well, whatever stands in front of it. -/
structure WellFormed (o : OptionDecl) : Prop where
  visible : ∃ c ∈ o.name.toList, isBlank c = false
  spelled : ∀ c ∈ o.name.toList, c.isAlphanum = true ∨ c = '_'
  filled : o.flag = true → o.kind ∉ [.attachment, .subcommand, .subcommandGroup]
  chosen : o.choices ≠ [] → o.kind ∈ [.string, .integer, .number]
  fitting : ∀ choice ∈ o.choices, choice.value.Fits o.kind
  distinct : (o.choices.map Choice.loweredName).Nodup

theorem met_requirements_iff (earlier : List OptionDecl) (o : OptionDecl) :
    (∀ r ∈ o.requirements earlier, r.Met) ↔
      o.WellFormed ∧ ∀ other ∈ earlier, other.name ≠ o.name := by
  rw [requirements, List.forall_mem_append, met_choiceRequirements_iff]
  simp only [List.forall_mem_cons, List.not_mem_nil, false_implies, implies_true, and_true]
  constructor
  · rintro ⟨⟨visible, spelled, apart, filled, chosen⟩, fitting, distinct⟩
    exact ⟨⟨visible, spelled, filled, chosen, fitting, distinct⟩, apart⟩
  · rintro ⟨⟨visible, spelled, filled, chosen, fitting, distinct⟩, apart⟩
    exact ⟨⟨visible, spelled, apart, filled, chosen⟩, fitting, distinct⟩

theorem reports_choiceDefect? (o : OptionDecl) :
    Reports (⟨o.choices ≠ [] → o.kind ∈ [.string, .integer, .number],
        .choicesNotSupported o.name⟩ :: eachInOrder o.choiceRequirements [] o.choices)
      o.choiceDefect? := by
  unfold choiceDefect?
  by_cases none : o.choices = []
  · rw [if_pos (by simp [none])]
    refine .of_met (absurd none) ?_
    rw [none]
    exact .nothing (by simp [eachInOrder])
  · rw [if_neg (by simpa using none)]
    by_cases allowed : o.kind.allowsChoices = true
    · rw [allowed]
      refine .of_met (fun _ => o.kind.allowsChoices_iff.1 allowed) ?_
      exact o.reports_choiceDefectAux
    · rw [Bool.eq_false_iff.2 allowed]
      refine .of_not_met fun chosen => allowed ?_
      exact o.kind.allowsChoices_iff.2 (chosen none)

theorem reports_defect? {seen : List String} {earlier : List OptionDecl} (o : OptionDecl)
    (known : ∀ n, n ∈ seen ↔ ∃ other ∈ earlier, other.name = n) :
    Reports (requirements earlier o) (o.defect? seen) := by
  unfold defect? requirements
  simp only [List.cons_append, List.nil_append]
  by_cases visible : isBlankText o.name = false
  · refine .of_met ((isBlankText_eq_false_iff _).1 visible) ?_
    rw [visible, if_neg (by simp)]
    by_cases spelled : isMarkerName o.name = true
    · refine .of_met ((isMarkerName_iff _).1 spelled) ?_
      rw [spelled, if_neg (by simp)]
      by_cases again : o.name ∈ seen
      · rw [if_pos again]
        obtain ⟨other, member, same⟩ := (known _).1 again
        exact .of_not_met fun apart => apart other member same
      · rw [if_neg again]
        refine .of_met (fun other member same => again ((known _).2 ⟨other, member, same⟩)) ?_
        by_cases filled : o.flag = true → o.isFillable = true
        · rw [if_neg (by simpa using filled)]
          refine .of_met (fun flag => o.kind.isFillable_iff.1 (filled flag)) ?_
          exact o.reports_choiceDefect?
        · rw [if_pos (by simpa using filled)]
          refine .of_not_met fun fillable => filled fun flag => ?_
          exact o.kind.isFillable_iff.2 (fillable flag)
    · rw [Bool.eq_false_iff.2 spelled]
      refine .of_not_met fun all => spelled ?_
      exact (isMarkerName_iff _).2 all
  · rw [Bool.not_eq_false _ |>.mp visible]
    refine .of_not_met fun seen => visible ?_
    exact (isBlankText_eq_false_iff _).2 seen

end OptionDecl

/-! ## Commands -/

namespace Command

def requirements (c : Command) : List Requirement :=
  ⟨∃ x ∈ c.name.toList, isBlank x = false, .blankCommandName⟩ ::
    eachInOrder OptionDecl.requirements [] c.options

/-- What a command has to meet in a list, with those in front of it. -/
def registered (earlier : List Command) (c : Command) : List Requirement :=
  ⟨∀ other ∈ earlier, other.name ≠ c.name, .duplicateCommand c.name⟩ :: c.requirements

/-- A command that is declared well, whatever stands in front of it. -/
structure WellFormed (c : Command) : Prop where
  visible : ∃ x ∈ c.name.toList, isBlank x = false
  options : ∀ o ∈ c.options, o.WellFormed
  distinct : (c.options.map (·.name)).Nodup

theorem met_requirements_iff (c : Command) : (∀ r ∈ c.requirements, r.Met) ↔ c.WellFormed := by
  rw [requirements, List.forall_mem_cons,
    @met_eachInOrder_iff _ _ OptionDecl.name _ OptionDecl.met_requirements_iff]
  constructor
  · rintro ⟨visible, options, distinct, -⟩
    exact ⟨visible, options, distinct⟩
  · rintro ⟨visible, options, distinct⟩
    exact ⟨visible, options, distinct, by simp⟩

theorem met_registered_iff (cs : List Command) :
    (∀ r ∈ eachInOrder registered [] cs, r.Met) ↔
      (∀ c ∈ cs, c.WellFormed) ∧ (cs.map (·.name)).Nodup := by
  rw [@met_eachInOrder_iff _ _ Command.name WellFormed]
  · simp
  · intro earlier c
    rw [registered, List.forall_mem_cons, met_requirements_iff]
    exact and_comm

theorem optionDefect?_cons (seen : List String) (o : OptionDecl) (rest : List OptionDecl) :
    optionDefect? seen (o :: rest) =
      (o.defect? seen).or (optionDefect? (o.name :: seen) rest) := by
  rw [optionDefect?]
  cases o.defect? seen <;> rfl

theorem reports_defect? (c : Command) : Reports c.requirements c.defect? := by
  unfold defect? requirements
  by_cases visible : isBlankText c.name = false
  · rw [visible, if_neg (by simp)]
    refine .of_met ((isBlankText_eq_false_iff _).1 visible) ?_
    exact reports_eachInOrder (fun _ => rfl) optionDefect?_cons OptionDecl.reports_defect?
      c.options (by simp)
  · rw [Bool.not_eq_false _ |>.mp visible]
    refine .of_not_met fun seen => visible ?_
    exact (isBlankText_eq_false_iff _).2 seen

theorem defect?_eq_none_iff {c : Command} : c.defect? = none ↔ c.WellFormed := by
  rw [← met_requirements_iff, ← c.reports_defect?.toList_eq_nil_iff, Option.toList_eq_nil_iff]

theorem wellFormed_of_mem {c : Command} (sound : c.defect? = none) {o : OptionDecl}
    (member : o ∈ c.options) : o.WellFormed :=
  (defect?_eq_none_iff.1 sound).options o member

/-- One round of `firstDefectAux`. -/
def registrationDefect? (seen : List String) (c : Command) : Option Defect :=
  if c.name ∈ seen then some (.duplicateCommand c.name) else c.defect?

theorem firstDefectAux_cons (seen : List String) (c : Command) (rest : List Command) :
    firstDefectAux seen (c :: rest) =
      (registrationDefect? seen c).or (firstDefectAux (c.name :: seen) rest) := by
  rw [firstDefectAux, registrationDefect?]
  split
  · rfl
  · cases c.defect? <;> rfl

theorem reports_registrationDefect? {seen : List String} {earlier : List Command} (c : Command)
    (known : ∀ n, n ∈ seen ↔ ∃ other ∈ earlier, other.name = n) :
    Reports (registered earlier c) (registrationDefect? seen c) := by
  unfold registrationDefect? registered
  by_cases again : c.name ∈ seen
  · rw [if_pos again]
    obtain ⟨other, member, same⟩ := (known _).1 again
    exact .of_not_met fun apart => apart other member same
  · rw [if_neg again]
    refine .of_met (fun other member same => again ((known _).2 ⟨other, member, same⟩)) ?_
    exact c.reports_defect?

theorem reports_firstDefect? (cs : List Command) :
    Reports (eachInOrder registered [] cs) (firstDefect? cs) :=
  reports_eachInOrder (fun _ => rfl) firstDefectAux_cons reports_registrationDefect? cs (by simp)

/-- A check accepts what is declared well, and nothing else: a command with well-declared options
of different names, and commands of different names that are all well declared. Otherwise there
is one defect, that of the first requirement that is not met. -/
theorem first_defect_reported :
    (∀ c : Command,
      (c.defect?.toList = [] ↔ c.WellFormed) ∧
        (¬ c.WellFormed ↔ ∃ d, c.defect?.toList = [d] ∧ Reports c.requirements (some d))) ∧
      ∀ cs : List Command,
        ((firstDefect? cs).toList = [] ↔
            (∀ c ∈ cs, c.WellFormed) ∧ (cs.map (·.name)).Nodup) ∧
          (¬ ((∀ c ∈ cs, c.WellFormed) ∧ (cs.map (·.name)).Nodup) ↔
            ∃ d, (firstDefect? cs).toList = [d] ∧
              Reports (eachInOrder registered [] cs) (some d)) := by
  constructor
  · intro c
    rw [← met_requirements_iff]
    exact ⟨c.reports_defect?.toList_eq_nil_iff, c.reports_defect?.exists_toList_iff⟩
  · intro cs
    rw [← met_registered_iff]
    exact ⟨(reports_firstDefect? cs).toList_eq_nil_iff,
      (reports_firstDefect? cs).exists_toList_iff⟩

end Command

end ChatArgs
