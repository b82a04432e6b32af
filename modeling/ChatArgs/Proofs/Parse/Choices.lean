import ChatArgs.Parse.Run
import ChatArgs.Proofs.Command.Choices

/-!
# Matching choices behind a parse

Choices are matched when the text was read, and no step looks at them. So the result is that of a
parse without matching, with each value replaced by what it means to its option; and matching the
values once more changes nothing.
-/

namespace ChatArgs

namespace Parse

/-! ## Choices of an option -/

theorem matchChoices_nil (matching : Option ChoiceMatching) (values : Entries String) :
    matchChoices [] matching values = values := by
  cases matching <;> rfl

theorem get?_foldl_matchChoice (matching : ChoiceMatching) (tables : List ChoiceTable)
    {name : String} {values values' : Entries String}
    (same : values.get? name = values'.get? name) :
    (tables.foldl (matchChoice matching) values).get? name =
      ((tables.filter (·.option == name)).foldl (matchChoice matching) values').get? name := by
  induction tables generalizing values values' with
  | nil => exact same
  | cons t tables ih =>
      by_cases own : t.option = name
      · rw [List.filter_cons_of_pos (by simpa using own), List.foldl_cons, List.foldl_cons]
        apply ih
        subst own
        rw [matchChoice, matchChoice, same]
        split
        · exact same
        · split
          · rw [Entries.get?_insert, Entries.get?_insert, if_pos rfl, if_pos rfl]
          · exact same
      · rw [List.filter_cons_of_neg (by simpa using own), List.foldl_cons]
        apply ih
        rw [← same, matchChoice]
        split
        · rfl
        · split
          · rw [Entries.get?_insert, if_neg own]
          · rfl

/-- What an option is given depends on its own choices only. -/
theorem get?_matchChoices_congr {tables tables' : List ChoiceTable} {name : String}
    (own : tables.filter (·.option == name) = tables'.filter (·.option == name))
    {values values' : Entries String} (same : values.get? name = values'.get? name)
    (matching : Option ChoiceMatching) :
    (matchChoices tables matching values).get? name =
      (matchChoices tables' matching values').get? name := by
  cases matching with
  | none => exact same
  | some matching =>
      have left := get?_foldl_matchChoice matching tables (Eq.refl (values.get? name))
      have right := get?_foldl_matchChoice matching tables' same.symm
      rw [own] at left
      exact left.trans right.symm

theorem get?_matchChoices_of_other {tables : List ChoiceTable} {name : String}
    (other : ∀ t ∈ tables, t.option ≠ name) (matching : Option ChoiceMatching)
    (values : Entries String) :
    (matchChoices tables matching values).get? name = values.get? name := by
  have own : tables.filter (·.option == name) =
      ([] : List ChoiceTable).filter (·.option == name) := by
    rw [List.filter_nil, List.filter_eq_nil_iff]
    exact fun t member => by simpa using other t member
  rw [get?_matchChoices_congr own rfl, matchChoices_nil]

theorem get?_matchChoices_single (t : ChoiceTable) (matching : ChoiceMatching)
    (values : Entries String) :
    (matchChoices [t] (some matching) values).get? t.option =
      (values.get? t.option).map fun value =>
        (t.find? (Text.lowercase value) matching.byValue).getD value := by
  cases known : values.get? t.option with
  | none => simp [matchChoices, matchChoice, known]
  | some value =>
      cases found : t.find? (Text.lowercase value) matching.byValue with
      | none => simp [matchChoices, matchChoice, known, found]
      | some name => simp [matchChoices, matchChoice, known, found, Entries.get?_insert]

/-! ## All values -/

theorem keys_matchChoices (tables : List ChoiceTable) (matching : Option ChoiceMatching)
    (values : Entries String) : (matchChoices tables matching values).keys = values.keys := by
  cases matching with
  | none => rfl
  | some matching =>
      change (tables.foldl (matchChoice matching) values).keys = values.keys
      induction tables generalizing values with
      | nil => rfl
      | cons t tables ih =>
          rw [List.foldl_cons, ih, matchChoice]
          split
          · rfl
          · rename_i value found
            split
            · apply Entries.keys_insert_of_mem
              rw [← Entries.get?_isSome_iff, found]
              rfl
            · rfl

/-- Where every table finds the value of its option or nothing, nothing is replaced. -/
theorem matchChoices_of_found {tables : List ChoiceTable} {matching : ChoiceMatching}
    {values : Entries String}
    (same : ∀ t ∈ tables, ∀ value, values.get? t.option = some value →
      (t.find? (Text.lowercase value) matching.byValue).getD value = value) :
    matchChoices tables (some matching) values = values := by
  unfold matchChoices
  simp only
  induction tables with
  | nil => rfl
  | cons t tables ih =>
      have first := same t List.mem_cons_self
      have kept : matchChoice matching values t = values := by
        rw [matchChoice]
        split
        · rfl
        · rename_i value known
          split
          · rename_i name found
            have means := first value known
            rw [found, Option.getD_some] at means
            rw [means]
            exact Entries.insert_of_get? known
          · rfl
      rw [List.foldl_cons, kept]
      exact ih fun other member => same other (List.mem_cons_of_mem t member)

theorem matchChoices_of_notMem {tables : List ChoiceTable} {values : Entries String}
    (absent : ∀ t ∈ tables, t.option ∉ values.keys) (matching : Option ChoiceMatching) :
    matchChoices tables matching values = values := by
  cases matching with
  | none => rfl
  | some matching =>
      apply matchChoices_of_found
      intro t member value known
      apply absurd _ (absent t member)
      rw [← Entries.get?_isSome_iff, known]
      rfl

/-! ## The steps of a parse -/

def Context.matching (ctx : Context) (choices : Option ChoiceMatching) : Context :=
  { ctx with config := { ctx.config with choices := choices } }

namespace State

theorem steps_matching (ctx : Context) (choices : Option ChoiceMatching) (s : State)
    (ts : List Token) : s.steps (ctx.matching choices) ts = s.steps ctx ts := by
  induction ts generalizing s with
  | nil => rfl
  | cons t ts ih =>
      have stops : s.stops (ctx.matching choices) = s.stops ctx := rfl
      have step : s.step (ctx.matching choices) t = s.step ctx t := rfl
      rw [steps, steps, stops, step, ih]

theorem run_matching (ctx : Context) (choices : Option ChoiceMatching)
    (message : Option Message) : run (ctx.matching choices) message = run ctx message := by
  have replied (s : State) :
      s.fillReplied? (ctx.matching choices) message = s.fillReplied? ctx message := rfl
  simp only [run, replied, steps_matching]
  rfl

end State

end Parse

/-! ## Choices of a command -/

namespace Table

theorem exists_of_mem_choices {c : Command} {t : ChoiceTable} (member : t ∈ (ofCommand c).choices) :
    ∃ o ∈ c.options, o.choices ≠ [] ∧ ChoiceTable.ofOption o = t := by
  obtain ⟨o, declared, rfl⟩ := List.mem_map.1 member
  obtain ⟨fillable, some⟩ := List.mem_filter.1 declared
  exact ⟨o, (List.mem_filter.1 fillable).1, by simpa using some, rfl⟩

theorem filter_choices (c : Command) (name : String) :
    (ofCommand c).choices.filter (·.option == name) =
      (c.options.filter fun o =>
        o.name == name && !o.choices.isEmpty && o.isFillable).map ChoiceTable.ofOption := by
  rw [ofCommand, List.filter_map, List.filter_filter, List.filter_filter]
  rfl

section

variable {c : Command} (sound : c.defect? = none) {o : OptionDecl} (member : o ∈ c.options)
include sound member

/-- The choices of an option are the only ones that have its name. -/
theorem filter_choices_of_mem (choices : o.choices ≠ []) :
    (ofCommand c).choices.filter (·.option == o.name) = [ChoiceTable.ofOption o] := by
  have fillable := Command.isFillable_of_choices sound member choices
  have alone : c.options.filter (·.name == o.name) = [o] :=
    filter_eq_singleton_of_nodup (Command.names_nodup_of_defect? sound) member
  have chosen : (c.options.filter fun o' =>
      o'.name == o.name && !o'.choices.isEmpty && o'.isFillable) =
        (c.options.filter (·.name == o.name)).filter fun o' =>
          !o'.choices.isEmpty && o'.isFillable := by
    rw [List.filter_filter]
    congr 1
    funext o'
    rw [Bool.and_assoc, Bool.and_comm]
  rw [filter_choices, chosen, alone]
  simp [choices, fillable]

open Parse Text in
theorem get?_matched (matching : ChoiceMatching) (values : Entries String) :
    (matchChoices (ofCommand c).choices (some matching) values).get? o.name =
      (values.get? o.name).map fun value =>
        ((ChoiceTable.ofOption o).find? (lowercase value) matching.byValue).getD value := by
  by_cases choices : o.choices = []
  · have other : ∀ t ∈ (ofCommand c).choices, t.option ≠ o.name := by
      intro t inside same
      obtain ⟨o', declared, some, rfl⟩ := exists_of_mem_choices inside
      have equal : o' = o := List.inj_on_of_nodup_map (Command.names_nodup_of_defect? sound)
        declared member same
      exact some (equal ▸ choices)
    rw [get?_matchChoices_of_other other]
    simp [ChoiceTable.find?_ofOption, choices]
  · have own : (ofCommand c).choices.filter (·.option == o.name) =
        [ChoiceTable.ofOption o].filter (·.option == o.name) := by
      rw [filter_choices_of_mem sound member choices]
      simp [ChoiceTable.ofOption]
    rw [get?_matchChoices_congr own rfl]
    exact get?_matchChoices_single (ChoiceTable.ofOption o) matching values

end

open Parse

/-- The result of a parse is that of a parse without matching, with the choices matched. -/
theorem parse_matching (t : Table) (config : Config) (patterns : Patterns) (content : String)
    (message : Option Message) :
    t.parse config patterns content message =
      { t.parse { config with choices := none } patterns content message with
        values := matchChoices t.choices config.choices
          (t.parse { config with choices := none } patterns content message).values } := by
  unfold parse
  split
  · have unmatched : matchChoices t.choices config.choices {} = {} :=
      matchChoices_of_notMem (by simp [Entries.keys]) config.choices
    simp [Args.ofContent, unmatched]
  · have same := State.run_matching ⟨content.toList, t, config, patterns⟩ none message
    simp only [Context.matching] at same
    rw [same]
    rfl

end Table

namespace Command

open Parse

/-- Under settings that differ in nothing else, a parse with matching gives the same options
values from the same spans as one without. It keeps the value of an option without choices; to
every other option it gives what the value means. Matched once more, no value changes. -/
theorem parse_matched {command : Command} (off on : Config) {matching : ChoiceMatching}
    (content : String) (message : Option Message) {plain matched : Args}
    (sound : command.defect? = none)
    (enabled : ((Table.ofCommand command).configFor on).choices = some matching)
    (disabled : (Table.ofCommand command).configFor off =
      { (Table.ofCommand command).configFor on with choices := none })
    (read : command.parse off content message = plain)
    (resolved : command.parse on content message = matched) :
    matched.values.keys = plain.values.keys ∧ matched.spans = plain.spans ∧
      (∀ o ∈ command.options, o.choices = [] →
        matched.get? o.name = plain.get? o.name) ∧
      (∀ o ∈ command.options, o.choices ≠ [] → ∀ value, plain.get? o.name = some value →
        ∀ meant, matched.get? o.name = some meant ↔ o.Means matching.byValue value meant) ∧
      matchChoices (Table.ofCommand command).choices (some matching) matched.values =
        matched.values := by
  have whole : matched = { plain with
      values := matchChoices (Table.ofCommand command).choices (some matching) plain.values } := by
    rw [← resolved, ← read]
    simp only [Command.parse]
    rw [disabled, Table.parse_matching, enabled]
    rfl
  have given (o : OptionDecl) (member : o ∈ command.options) :=
    Table.get?_matched sound member matching plain.values
  refine ⟨?_, by rw [whole], ?_, ?_, ?_⟩
  · rw [whole]
    exact keys_matchChoices _ _ _
  · intro o member none
    rw [whole]
    refine (given o member).trans ?_
    simp [ChoiceTable.find?_ofOption, none, Args.get?]
  · intro o member some value known meant
    have distinct := choice_names_nodup sound member
    rw [ChoiceTable.means_iff distinct, whole]
    change (matchChoices _ _ plain.values).get? o.name = _ ↔ _
    change plain.values.get? o.name = _ at known
    rw [given o member, known, Option.map_some, Option.some.injEq]
  · -- What was found for an option means itself.
    apply matchChoices_of_found
    intro t inside meant known
    obtain ⟨o, member, -, rfl⟩ := Table.exists_of_mem_choices inside
    rw [whole] at known
    change (matchChoices _ _ plain.values).get? o.name = some meant at known
    rw [given o member] at known
    obtain ⟨value, -, found⟩ := Option.map_eq_some_iff.1 known
    have means := ChoiceTable.means_find? o value matching.byValue
    rw [found] at means
    exact (ChoiceTable.means_iff (choice_names_nodup sound member)).1 means.self

theorem parse_matched_byValue :
    ((⟨"order", [{ name := "size", choices := [⟨"Small", .text "s"⟩, ⟨"Large", .text "l"⟩] },
        { name := "note" }], none⟩ : Command).parse {} "L please" none).get? "size" =
      some "Large" := by
  have sound : (⟨"order", [{ name := "size", choices := [⟨"Small", .text "s"⟩,
      ⟨"Large", .text "l"⟩] }, { name := "note" }], none⟩ : Command).defect? = none := by
    decide +kernel
  have means := (parse_matched { choices := none } {} "L please" none sound rfl rfl rfl rfl).2.2.2.1
    { name := "size", choices := [⟨"Small", .text "s"⟩, ⟨"Large", .text "l"⟩] }
    List.mem_cons_self (List.cons_ne_nil _ _) "L" (by decide +kernel) "Large"
  have split : ([⟨"Small", .text "s"⟩, ⟨"Large", .text "l"⟩] : List Choice) =
      [⟨"Small", .text "s"⟩] ++ ⟨"Large", .text "l"⟩ :: [] := rfl
  have byValue : OptionDecl.Means
      { name := "size", choices := [⟨"Small", .text "s"⟩, ⟨"Large", .text "l"⟩] } true "L"
      (⟨"Large", .text "l"⟩ : Choice).name :=
    .value rfl (by decide +kernel) split (by decide +kernel) (by decide +kernel)
  exact means.2 byValue

end Command

end ChatArgs
