import ChatArgs.Proofs.Parse.SlotOrder

/-!
# A parse that ends early

Whether a parse ends as soon as every option has a value shows in no step. So a parse that may end
early goes along with one that reads the whole text, until every option has a value; and what has
a value then keeps one until the end.
-/

namespace ChatArgs

namespace Parse

open Text

def Context.stopping (ctx : Context) (early : Bool) : Context :=
  { ctx with config := { ctx.config with stopWhenFilled := early } }

namespace State

variable {ctx : Context} {s : State}

/-! ## Where the end does not show -/

section

variable (plainLast : ctx.config.plainLast = none) (early : Bool) (s : State)
include plainLast

theorem closeLastSlot_stopping (stop : Nat) (post : List Char) :
    s.closeLastSlot (ctx.stopping early) stop post = s.closeLastSlot ctx stop post := by
  simp [closeLastSlot, Context.stopping, Context.length, plainLast]

theorem closeAll_stopping : s.closeAll (ctx.stopping early) = s.closeAll ctx := by
  rw [closeAll, closeLastSlot_stopping plainLast]
  rfl

theorem openNamed_stopping (t : Token) (escapes : Nat) (family : Family) (option : OptionDecl)
    (justClosed : Bool) :
    s.openNamed (ctx.stopping early) t escapes family option justClosed =
      s.openNamed ctx t escapes family option justClosed := by
  simp only [openNamed, closeLastSlot_stopping plainLast]
  rfl

theorem onMarker_stopping (t : Token) (escapes : Nat) (opening : Opening) (name : String)
    (justClosed : Bool) :
    s.onMarker (ctx.stopping early) t escapes opening name justClosed =
      s.onMarker ctx t escapes opening name justClosed := by
  simp only [onMarker, declaredMarker, openNamed_stopping plainLast]
  rfl

theorem step_stopping (t : Token) : s.step (ctx.stopping early) t = s.step ctx t := by
  simp only [step, onMarker_stopping plainLast]
  rfl

end

/-! ## Two parses -/

/-- A parse that may end early comes where the other one comes, or every option has a value. -/
theorem steps_stopping (plainLast : ctx.config.plainLast = none) (s : State) (ts : List Token) :
    s.steps (ctx.stopping true) ts = s.steps (ctx.stopping false) ts ∨
      (s.steps (ctx.stopping true) ts).allFilled ctx = true := by
  induction ts generalizing s with
  | nil => exact .inl rfl
  | cons t ts ih =>
      have goesOn : s.stops (ctx.stopping false) = false := stops_of_goesOn rfl s
      have early : s.stops (ctx.stopping true) = s.allFilled ctx := Bool.true_and _
      rw [steps, steps, goesOn, early]
      cases filled : s.allFilled ctx with
      | true => exact .inr filled
      | false =>
          rw [step_stopping plainLast, step_stopping plainLast]
          exact ih _

/-! ## When every option has a value -/

/-- As many slots and flags are filled as there are options: each option has a value. -/
theorem Backed.complete {c : Command} {opens known : String → Prop}
    (distinct : (c.options.map (·.name)).Nodup) (table : ctx.table = .ofCommand c)
    (backed : Backed ctx opens known s) (filled : s.allFilled ctx = true) {o : OptionDecl}
    (member : o ∈ c.options) (fillable : o.isFillable = true) : o.name ∈ s.values.keys := by
  have enough := of_decide_eq_true filled
  have slots := backed.slots
  have taken := backed.count ▸ List.count_le_length (a := true) (l := s.taken)
  have flagNames : s.filledFlags ⊆ ctx.table.flags.map (·.name) := by
    intro name flag
    obtain ⟨-, o, declared, rfl⟩ := backed.flagged name flag
    exact List.mem_map_of_mem declared
  have flags := List.subperm_of_subset backed.once flagNames
  have flagCount := flags.length_le
  have total : ctx.table.optionCount = ctx.table.slots.length + ctx.table.flags.length := by
    rw [table]
    exact Table.optionCount_eq_add distinct
  rw [List.length_map] at flagCount
  cases flag : o.flag with
  | true =>
      have all := flags.perm_of_length_le (by rw [List.length_map]; omega)
      have declared : o ∈ ctx.table.flags := by
        simp [table, Table.ofCommand, member, fillable, flag]
      exact (backed.flagged _ (all.mem_iff.2 (List.mem_map_of_mem declared))).1
  | false =>
      have declared : o ∈ ctx.table.slots := by
        simp [table, Table.ofCommand, member, fillable, flag]
      obtain ⟨slot, found⟩ := List.mem_iff_getElem?.1 declared
      have inside := (List.getElem?_eq_some_iff.1 found).1
      have all : s.taken.count true = s.taken.length := by
        have count := backed.count
        omega
      apply backed.valued slot o _ found
      rw [List.getElem?_eq_getElem (by omega), Option.some.injEq]
      exact (List.count_eq_length.1 all _ (List.getElem_mem _)).symm

theorem Backed.closeAll_steps_stopping {c : Command} {opens known : String → Prop}
    (distinct : (c.options.map (·.name)).Nodup) (table : ctx.table = .ofCommand c)
    (plainLast : ctx.config.plainLast = none) (noLanguage : ctx.config.languageAsValue = false)
    (backed : Backed (ctx.stopping true) opens known s) {ts : List Token}
    (source : ∀ t ∈ ts, ∀ escapes opening name,
      t.kind = .marker escapes opening name → opens name) :
    (s.steps (ctx.stopping true) ts).closeAll (ctx.stopping true) =
        (s.steps (ctx.stopping false) ts).closeAll (ctx.stopping false) ∨
      ∀ o ∈ c.options, o.isFillable = true →
        o.name ∈ ((s.steps (ctx.stopping true) ts).closeAll (ctx.stopping true)).values.keys := by
  have indexed : (ctx.stopping true).table.Indexed := table ▸ Table.indexed_ofCommand c
  rcases steps_stopping plainLast s ts with same | filled
  · left
    rw [same, closeAll_stopping plainLast, closeAll_stopping plainLast]
  · right
    intro o member fillable
    have noLanguage' : (ctx.stopping true).config.languageAsValue = false := noLanguage
    have reached := backed.steps indexed noLanguage' source
    have table' : (ctx.stopping true).table = .ofCommand c := table
    have valued := reached.complete distinct table' filled member fillable
    exact (reached.know.closeAll noLanguage').kept o.name valued

theorem run_stopping {c : Command} (distinct : (c.options.map (·.name)).Nodup)
    (table : ctx.table = .ofCommand c) (plainLast : ctx.config.plainLast = none)
    (noLanguage : ctx.config.languageAsValue = false) (message : Option Message) :
    run (ctx.stopping true) message = run (ctx.stopping false) message ∨
      ∀ o ∈ c.options, o.isFillable = true →
        o.name ∈ (run (ctx.stopping true) message).values.keys := by
  have start := Backed.initial (ctx.stopping true) fun _ => True
  have replied : (initial (ctx.stopping false)).fillReplied? (ctx.stopping false) message =
      (initial (ctx.stopping true)).fillReplied? (ctx.stopping true) message := rfl
  simp only [run, replied]
  cases filled : (initial (ctx.stopping true)).fillReplied? (ctx.stopping true) message with
  | none => exact start.closeAll_steps_stopping distinct table plainLast noLanguage (by simp)
  | some s =>
      have same : s.allFilled (ctx.stopping false) = s.allFilled (ctx.stopping true) := rfl
      simp only [same]
      split
      · exact .inl rfl
      · have backed := start.fillReplied? filled
        exact backed.closeAll_steps_stopping distinct table plainLast noLanguage (by simp)

end State

end Parse

open Parse

theorem Table.configFor_stopWhenFilled (t : Table) (shared : Config) :
    (∀ early, t.configFor { shared with stopWhenFilled := early } =
      { t.configFor shared with stopWhenFilled := early }) ∨
      t.configFor { shared with stopWhenFilled := true } =
        t.configFor { shared with stopWhenFilled := false } := by
  unfold configFor
  cases t.overrides with
  | none => exact .inl fun _ => rfl
  | some o =>
      cases decided : o.stopWhenFilled with
      | none => exact .inl fun early => by simp [Config.resolve, decided]
      | some early => exact .inr (by simp [Config.resolve, decided])

theorem Table.parse_stopping {c : Command} (distinct : (c.options.map (·.name)).Nodup)
    {config : Config} (noPlainLast : config.plainLast = none)
    (noLanguage : config.languageAsValue = false) (patterns : Patterns) (content : String)
    (message : Option Message) :
    (ofCommand c).parse { config with stopWhenFilled := true } patterns content message =
        (ofCommand c).parse { config with stopWhenFilled := false } patterns content message ∨
      ∀ o ∈ c.options, o.isFillable = true → o.name ∈
        ((ofCommand c).parse { config with stopWhenFilled := true } patterns content
          message).values.keys := by
  unfold Table.parse
  split
  · exact .inl rfl
  · simp only [keys_matchChoices]
    let ctx : Context := ⟨content.toList, .ofCommand c, config, patterns⟩
    have table : ctx.table = .ofCommand c := rfl
    rcases State.run_stopping distinct table noPlainLast noLanguage message with same | all
    · left
      exact congrArg (fun s : State => Args.mk content
        (matchChoices (ofCommand c).choices config.choices s.values) s.spans) same
    · exact .inr all

/-- A parse that may end early costs no option: it answers what a parse of the whole text answers,
or every option has a value. -/
theorem Command.parse_stopWhenFilled {command : Command} {shared : Config}
    (sound : command.defect? = none)
    (noPlainLast : ((Table.ofCommand command).configFor shared).plainLast = none)
    (noLanguage : ((Table.ofCommand command).configFor shared).languageAsValue = false)
    (content : String) (message : Option Message) :
    command.parse { shared with stopWhenFilled := true } content message =
        command.parse { shared with stopWhenFilled := false } content message ∨
      ∀ o ∈ command.options, o.isFillable = true → o.name ∈
        (command.parse { shared with stopWhenFilled := true } content message).values.keys := by
  have distinct := names_nodup_of_defect? sound
  simp only [Command.parse]
  rcases Table.configFor_stopWhenFilled (.ofCommand command) shared with decided | same
  · rw [decided true, decided false]
    exact Table.parse_stopping distinct noPlainLast noLanguage _ content message
  · rw [same]
    exact .inl rfl

/-- A parse that ends early leaves the marker behind the last word in the value. -/
theorem Command.parse_stopWhenFilled_word :
    Command.parse ⟨"say", [{ name := "x" }], none⟩ { stopWhenFilled := true } "a --x b" none ≠
        Command.parse ⟨"say", [{ name := "x" }], none⟩ { stopWhenFilled := false } "a --x b" none ∧
      "x" ∈ (Command.parse ⟨"say", [{ name := "x" }], none⟩ { stopWhenFilled := true } "a --x b"
        none).values.keys := by
  have differ : Command.parse ⟨"say", [{ name := "x" }], none⟩ { stopWhenFilled := true }
        "a --x b" none ≠
      Command.parse ⟨"say", [{ name := "x" }], none⟩ { stopWhenFilled := false } "a --x b" none :=
    fun same => absurd (congrArg (·.values.get? "x") same) (by decide +kernel)
  have both := @Command.parse_stopWhenFilled ⟨"say", [{ name := "x" }], none⟩ {}
    (by decide +kernel) rfl rfl "a --x b" none
  exact ⟨differ, both.resolve_left differ { name := "x" } (by simp) rfl⟩

end ChatArgs
