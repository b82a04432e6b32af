import ChatArgs.Proofs.Command.Names
import ChatArgs.Proofs.Parse.Moves

/-!
# Names in a result

A parse writes values and spans in two maps, from many places. `Keyed` holds of every state of
a parse: names in the maps are those of options that text can fill, and both maps have the same
names, apart from an option that was filled without text.
-/

namespace ChatArgs

def Table.Holds (t : Table) (name : String) : Prop :=
  (∃ o ∈ t.slots, o.name = name) ∨ ∃ key o, t.option? key = some o ∧ o.name = name

theorem Table.Holds.exists_option {c : Command} {name : String}
    (holds : (Table.ofCommand c).Holds name) :
    ∃ o ∈ c.options, o.isFillable = true ∧ o.name = name := by
  rcases holds with ⟨o, slot, named⟩ | ⟨key, o, known, named⟩
  · obtain ⟨inner, -⟩ := List.mem_filter.1 slot
    obtain ⟨member, fillable⟩ := List.mem_filter.1 inner
    exact ⟨o, member, fillable, named⟩
  · obtain ⟨member, fillable, -⟩ := Table.option?_eq_some known
    exact ⟨o, member, fillable, named⟩

namespace Parse

open Text

namespace State

variable {ctx : Context} {unplaced : String → Prop} {s : State}

/-- Names of values and spans are those of options, and every value has a span unless it is
`unplaced`. What is open bears the name of an option too. -/
structure Keyed (ctx : Context) (unplaced : String → Prop) (s : State) : Prop where
  declared : ∀ name ∈ s.values.keys, ctx.table.Holds name
  valued : ∀ name ∈ s.spans.keys, name ∈ s.values.keys
  placed : ∀ name ∈ s.values.keys, name ∈ s.spans.keys ∨ unplaced name
  lastFilled : ∀ name ∈ s.lastFilled, name ∈ s.spans.keys
  named : ∀ named ∈ s.named, ctx.table.Holds named.option.name
  lastSlot : ∀ slot ∈ s.lastSlot, ctx.table.Holds slot.name

namespace Keyed

theorem congr {s' : State} (keyed : Keyed ctx unplaced s) (values : s'.values = s.values)
    (spans : s'.spans = s.spans) (lastFilled : s'.lastFilled = s.lastFilled)
    (named : s'.named = s.named) (lastSlot : s'.lastSlot = s.lastSlot) :
    Keyed ctx unplaced s' := by
  constructor
  · rw [values]
    exact keyed.declared
  · rw [values, spans]
    exact keyed.valued
  · rw [values, spans]
    exact keyed.placed
  · rw [lastFilled, spans]
    exact keyed.lastFilled
  · rw [named]
    exact keyed.named
  · rw [lastSlot]
    exact keyed.lastSlot

/-! ## Writing a value -/

theorem setValue {name : String} (keyed : Keyed ctx unplaced s) (holds : ctx.table.Holds name)
    (value : String) (start stop : Nat) :
    Keyed ctx unplaced (s.setValue name value start stop) where
  declared := by
    intro other member
    rcases (Entries.mem_keys_insert ..).1 member with rfl | old
    · exact holds
    · exact keyed.declared other old
  valued := by
    intro other member
    rw [State.setValue, Entries.mem_keys_insert]
    rcases (Entries.mem_keys_insert ..).1 member with same | old
    · exact .inl same
    · exact .inr (keyed.valued other old)
  placed := by
    intro other member
    rw [State.setValue, Entries.mem_keys_insert]
    rcases (Entries.mem_keys_insert ..).1 member with same | old
    · exact .inl (.inl same)
    · exact (keyed.placed other old).imp_left .inr
  lastFilled := by
    intro last filled
    rw [State.setValue, Entries.mem_keys_insert]
    exact .inr (keyed.lastFilled last filled)
  named := keyed.named
  lastSlot := keyed.lastSlot

theorem fill {s' : State} {name value : String} {span : Span} (keyed : Keyed ctx unplaced s)
    (holds : ctx.table.Holds name) (values : s'.values = s.values.insert name value)
    (spans : s'.spans = s.spans.insert name span) (last : s'.lastFilled = some name)
    (named : ∀ named ∈ s'.named, s.named = some named)
    (lastSlot : ∀ slot ∈ s'.lastSlot, s.lastSlot = some slot ∨ slot.name = name) :
    Keyed ctx unplaced s' := by
  have set := keyed.setValue holds value span.start span.stop
  refine ⟨?_, ?_, ?_, ?_, ?_, ?_⟩
  · rw [values]
    exact set.declared
  · rw [values, spans]
    exact set.valued
  · rw [values, spans]
    exact set.placed
  · intro other filled
    rw [last] at filled
    rw [spans, Entries.mem_keys_insert]
    exact .inl (Option.some.inj filled).symm
  · exact fun open' member => keyed.named open' (named open' member)
  · intro slot member
    rcases lastSlot slot member with old | same
    · exact keyed.lastSlot slot old
    · rw [same]
      exact holds

theorem append {last : String} (keyed : Keyed ctx unplaced s) (filled : s.lastFilled = some last)
    (text : String) (stop : Nat) : Keyed ctx unplaced (s.append last text stop) := by
  have spans : (s.append last text stop).spans.keys = s.spans.keys := Entries.keys_modify ..
  have placed := keyed.lastFilled last filled
  have values (name : String) : name ∈ (s.append last text stop).values.keys ↔
      name ∈ s.values.keys := by
    rw [State.append, Entries.keys_insert_of_mem (keyed.valued last placed)]
  refine ⟨?_, ?_, ?_, ?_, keyed.named, keyed.lastSlot⟩
  · exact fun name member => keyed.declared name ((values name).1 member)
  · rw [spans]
    exact fun name member => (values name).2 (keyed.valued name member)
  · rw [spans]
    exact fun name member => keyed.placed name ((values name).1 member)
  · rw [spans]
    exact keyed.lastFilled

theorem take (keyed : Keyed ctx unplaced s) (slot : Nat) : Keyed ctx unplaced (s.take slot) := by
  rw [take_frame]
  exact keyed.congr rfl rfl rfl rfl rfl

/-! ## Giving values to options -/

theorem fillSlot (keyed : Keyed ctx unplaced s) (value : String) (start : Cursor) (stop : Nat)
    (long : Bool) : Keyed ctx unplaced (s.fillSlot ctx value start stop long) := by
  refine fillSlot_cases keyed fun slot option value spanStart lastSlot _ found _ last => ?_
  have holds : ctx.table.Holds option.name := .inl ⟨option, List.mem_of_getElem? found, rfl⟩
  rw [take_frame]
  refine keyed.fill holds rfl rfl rfl (fun _ => id) fun opened member => ?_
  cases last with
  | same => exact .inl member
  | opens => exact .inr (congrArg LastSlot.name (Option.some.inj member).symm)

theorem fillNamed {named : Named} (keyed : Keyed ctx unplaced s) (opened : s.named = some named)
    (value : String) (start stop : Nat) :
    Keyed ctx unplaced (s.fillNamed ctx named value start stop) := by
  rw [State.fillNamed, markFilled_frame]
  exact keyed.fill (keyed.named named opened) rfl rfl rfl (by simp [State.setValue]) fun _ => .inl

theorem closeLastSlot (keyed : Keyed ctx unplaced s) (stop : Nat) (post : List Char) :
    Keyed ctx unplaced (s.closeLastSlot ctx stop post) := by
  refine closeLastSlot_cases (fun _ => keyed) fun slot value opened => ?_
  apply setValue _ (keyed.lastSlot slot opened)
  exact ⟨keyed.declared, keyed.valued, keyed.placed, keyed.lastFilled, keyed.named, by simp⟩

/-! ## Steps -/

theorem put {s' : State} (keyed : Keyed ctx unplaced s) (put : Put ctx s s') :
    Keyed ctx unplaced s' := by
  cases put with
  | hold => exact keyed.congr rfl rfl rfl rfl rfl
  | append filled => exact keyed.append filled _ _
  | fillSlot => exact keyed.fillSlot ..
  | fillNamed opened => exact keyed.fillNamed opened ..
  | closeLastSlot => exact keyed.closeLastSlot ..

theorem write {s' : State} (keyed : Keyed ctx unplaced s) (write : Write ctx s s') :
    Keyed ctx unplaced s' := by
  cases write with
  | put put => exact keyed.put put
  | note => exact keyed.congr rfl rfl rfl rfl rfl
  | take _ _ slot => exact keyed.take slot

theorem move {s' : State} {t : Token} (keyed : Keyed ctx unplaced s) (move : Move ctx t s s') :
    Keyed ctx unplaced s' := by
  cases move with
  | write write => exact keyed.write write
  | decide => exact keyed.congr rfl rfl rfl rfl rfl
  | openNamed _ declared =>
      refine { keyed with named := ?_ }
      intro named opened
      rw [← Option.some.inj opened]
      exact .inr ⟨_, _, declared, rfl⟩

/-! ## Runs -/

theorem initial (ctx : Context) (unplaced : String → Prop) :
    Keyed ctx unplaced (State.initial ctx) := by
  constructor <;> simp [State.initial, Entries.keys]

end Keyed

end State

/-- The author of the message replied to fills the option with this name: the first slot, which
has to be a user option. -/
def RepliedFills (table : Table) (config : Config) (message : Option Message) (name : String) :
    Prop :=
  ∃ filling m replied option, config.replyFilling = some filling ∧ message = some m ∧
    m.repliedTo = some replied ∧
    (filling.requirePing = true → replied = m.author ∨ m.mentionsUser replied = true) ∧
    table.slots.head? = some option ∧ option.kind = .user ∧ option.name = name

namespace State

variable {ctx : Context} {message : Option Message}

theorem fillReplied?_eq_some {s : State}
    (filled : (initial ctx).fillReplied? ctx message = some s) :
    ∃ option replied slot, option ∈ ctx.table.slots ∧
      RepliedFills ctx.table ctx.config message option.name ∧
      s = ({ initial ctx with
        values := Entries.insert {} option.name replied } : State).take slot := by
  simp only [fillReplied?, Option.bind_eq_bind, Option.bind_eq_some_iff] at filled
  obtain ⟨filling, given, m, sent, replied, repliedTo, found⟩ := filled
  split at found
  · simp at found
  · rename_i pinged
    obtain ⟨slot, free, found⟩ := Option.bind_eq_some_iff.1 found
    obtain ⟨option, declared, found⟩ := Option.bind_eq_some_iff.1 found
    split at found
    · rename_i user
      have first : slot = 0 := by
        simp only [freeSlot?, initial, List.findIdx?_map] at free
        cases slots : ctx.table.slots with
        | nil => simp [slots] at free
        | cons o os => simpa [slots, List.findIdx?_cons] using free.symm
      rw [first, ← List.head?_eq_getElem?] at declared
      refine ⟨option, replied, slot, List.mem_of_mem_head? declared,
        ⟨filling, m, replied, option, given, sent, repliedTo, ?_, declared, by simpa using user,
          rfl⟩, (Option.some.inj found).symm⟩
      intro required
      simp only [required, Bool.true_and, Bool.and_eq_true, bne_iff_ne, ne_eq,
        Bool.not_eq_true', not_and, Bool.not_eq_false] at pinged
      exact or_iff_not_imp_left.2 pinged
    · simp at found

theorem Keyed.fillReplied? {s : State}
    (filled : (State.initial ctx).fillReplied? ctx message = some s) :
    Keyed ctx (RepliedFills ctx.table ctx.config message) s := by
  obtain ⟨option, replied, slot, declared, fills, rfl⟩ := fillReplied?_eq_some filled
  apply Keyed.take
  have only (name : String) : name ∈ (Entries.insert {} option.name replied).keys ↔
      name = option.name := by
    rw [Entries.mem_keys_insert]
    simp [Entries.keys]
  refine ⟨?_, by simp [State.initial, Entries.keys], ?_, by simp [State.initial],
    by simp [State.initial], by simp [State.initial]⟩
  · intro name member
    rw [(only name).1 member]
    exact .inl ⟨option, declared, rfl⟩
  · intro name member
    rw [(only name).1 member]
    exact .inr fills

theorem run_keyed (ctx : Context) (message : Option Message) :
    Keyed ctx (RepliedFills ctx.table ctx.config message) (run ctx message) :=
  run_of_moves (.initial ctx _) (fun _ filled => .fillReplied? filled)
    (fun write keyed => keyed.write write) fun _ _ _ _ move keyed => keyed.move move

end State

end Parse

open Parse

theorem Table.parse_names (table : Table) (config : Config) (patterns : Patterns)
    (content : String) (message : Option Message) :
    (∀ name ∈ (table.parse config patterns content message).values.keys, table.Holds name) ∧
    (∀ name ∈ (table.parse config patterns content message).spans.keys,
      name ∈ (table.parse config patterns content message).values.keys) ∧
    ∀ name ∈ (table.parse config patterns content message).values.keys,
      name ∈ (table.parse config patterns content message).spans.keys ∨
        RepliedFills table config message name := by
  unfold Table.parse
  split
  · simp [Args.ofContent, Entries.keys]
  · have keyed := State.run_keyed ⟨content.toList, table, config, patterns⟩ message
    simp only [keys_matchChoices]
    exact ⟨keyed.declared, keyed.valued, keyed.placed⟩

/-- The names in a result are those of options that text can fill, and each value has a span,
apart from that of an option that the author replied to fills. -/
theorem Command.parse_keys (command : Command) (shared : Config) (content : String)
    (message : Option Message) :
    (∀ name ∈ (command.parse shared content message).values.keys, ∃ o ∈ command.options,
      o.name = name ∧ o.kind ∉ [.attachment, .subcommand, .subcommandGroup]) ∧
    (∀ name ∈ (command.parse shared content message).spans.keys,
      name ∈ (command.parse shared content message).values.keys) ∧
    (∀ name ∈ (command.parse shared content message).values.keys,
      name ∈ (command.parse shared content message).spans.keys ∨
        RepliedFills (Table.ofCommand command) ((Table.ofCommand command).configFor shared)
          message name) ∧
    ∀ name, name ∈ (command.parse shared content none).values.keys ↔
      name ∈ (command.parse shared content none).spans.keys := by
  obtain ⟨declared, valued, placed⟩ := Table.parse_names (Table.ofCommand command)
    ((Table.ofCommand command).configFor shared)
    (.ofConfig ((Table.ofCommand command).configFor shared)) content message
  obtain ⟨-, valued', placed'⟩ := Table.parse_names (Table.ofCommand command)
    ((Table.ofCommand command).configFor shared)
    (.ofConfig ((Table.ofCommand command).configFor shared)) content none
  refine ⟨?_, valued, placed, ?_⟩
  · intro name member
    obtain ⟨o, option, fillable, named⟩ := (declared name member).exists_option
    refine ⟨o, option, named, ?_⟩
    intro excluded
    rw [OptionDecl.isFillable] at fillable
    simp only [List.mem_cons, List.not_mem_nil, or_false] at excluded
    rcases excluded with kind | kind | kind <;> rw [kind] at fillable <;> cases fillable
  · intro name
    refine ⟨fun member => ?_, valued' name⟩
    rcases placed' name member with spanned | ⟨_, _, _, _, _, absent, _⟩
    · exact spanned
    · cases absent

/-- The author replied to fills the first option, which has a value without a span. -/
theorem Command.parse_keys_replied :
    RepliedFills
      (Table.ofCommand ⟨"go", [{ name := "who", kind := .user }, { name := "what" }], none⟩)
      { replyFilling := some {} } (some { author := "1", repliedTo := some "2" }) "who" := by
  have placed := (Command.parse_keys
    ⟨"go", [{ name := "who", kind := .user }, { name := "what" }], none⟩
    { replyFilling := some {} } "hi" (some { author := "1", repliedTo := some "2" })).2.2.1
  exact (placed "who" (by decide +kernel)).resolve_left (by decide +kernel)

end ChatArgs
