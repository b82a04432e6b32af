import ChatArgs.Proofs.Parse.NoFailure
import ChatArgs.Proofs.Parse.RepliedUser
import ChatArgs.Proofs.Parse.SingleWord

/-!
# The order in which slots are filled

Text goes to the first free slot, and a flag is filled by its marker only. `Backed` holds of every
state of a parse in which the language of a code block takes no slot: a slot that is taken has a
value, and a value was given by a marker or to a slot in front of which every slot has one.
-/

namespace ChatArgs

/-! ## Names in a table -/

namespace Table

/-- Markers mean options by their names, and a flag that a marker means is among the flags. -/
structure Indexed (t : Table) : Prop where
  named : ∀ name o, t.option? name = some o → o.name = name
  flags : ∀ name o, t.option? name = some o → o.flag = true → o ∈ t.flags

theorem indexed_ofCommand (c : Command) : (ofCommand c).Indexed where
  named := fun _ _ known => (option?_eq_some known).2.2
  flags := by
    intro name o known flag
    obtain ⟨member, fillable, -⟩ := option?_eq_some known
    exact List.mem_filter.2 ⟨List.mem_filter.2 ⟨member, fillable⟩, flag⟩

/-- A slot has this name, and every slot in front of it has a name among `keys`. -/
def InOrder (t : Table) (keys : List String) (name : String) : Prop :=
  ∃ front option back, t.slots = front ++ option :: back ∧ option.name = name ∧
    ∀ o ∈ front, o.name ∈ keys

theorem InOrder.mono {t : Table} {keys keys' : List String} {name : String}
    (inOrder : t.InOrder keys name) (more : ∀ other ∈ keys, other ∈ keys') :
    t.InOrder keys' name := by
  obtain ⟨front, option, back, slots, named, filled⟩ := inOrder
  exact ⟨front, option, back, slots, named, fun o member => more _ (filled o member)⟩

theorem InOrder.unflagged {c : Command} (distinct : (c.options.map (·.name)).Nodup)
    {keys : List String} {o : OptionDecl} (inOrder : (ofCommand c).InOrder keys o.name)
    (member : o ∈ c.options) : o.flag = false := by
  obtain ⟨front, slot, back, slots, named, -⟩ := inOrder
  have inside : slot ∈ (ofCommand c).slots := by simp [slots]
  obtain ⟨inner, unflagged⟩ := List.mem_filter.1 inside
  obtain rfl := List.inj_on_of_nodup_map distinct (List.mem_filter.1 inner).1 member named
  simpa using unflagged

theorem InOrder.earlier {c : Command} (distinct : (c.options.map (·.name)).Nodup)
    {keys : List String} {a b : OptionDecl} (inOrder : (ofCommand c).InOrder keys b.name)
    (declared : [a, b].Sublist c.options) (fillable : a.isFillable = true ∧ b.isFillable = true)
    (unflagged : a.flag = false ∧ b.flag = false) : a.name ∈ keys := by
  obtain ⟨front, option, back, slots, named, filled⟩ := inOrder
  have both : [a, b].Sublist (ofCommand c).slots := by
    have kept := (declared.filter (·.isFillable)).filter fun o => !o.flag
    rwa [List.filter_eq_self.2 (by simp [unflagged]),
      List.filter_eq_self.2 (by simpa using fillable)] at kept
  have names := slot_names_nodup distinct
  have slot : b ∈ (ofCommand c).slots := both.subset (by simp)
  obtain rfl : option = b := List.inj_on_of_nodup_map names (by simp [slots]) slot named
  have once := List.Nodup.of_map _ names
  rw [slots] at both once
  have absent : option ∉ back := (List.nodup_cons.1 (List.nodup_append.1 once).2.1).1
  rcases List.sublist_append_iff.1 both with ⟨left, right, split, inFront, behind⟩
  cases left with
  | nil =>
      obtain rfl : [a, option] = right := split
      exact absurd ((List.cons_sublist_cons'.1 behind).elim
        (fun later => later.subset (by simp)) fun later => later.2.subset (by simp)) absent
  | cons first left =>
      obtain rfl : a = first := (List.cons.inj split).1
      exact filled a (inFront.subset List.mem_cons_self)

end Table

namespace Parse

open Text

namespace State

variable {ctx : Context} {opens known : String → Prop} {s s' : State}

/-! ## Values and slots -/

/-- What is taken has a value, and what has a value was opened by a marker or is in order. A name
that is `known` has a value. -/
structure Backed (ctx : Context) (opens known : String → Prop) (s : State) : Prop
    extends Counted ctx s where
  kept : ∀ name, known name → name ∈ s.values.keys
  valued : ∀ (slot : Nat) (option : OptionDecl), s.taken[slot]? = some true →
    ctx.table.slots[slot]? = some option → option.name ∈ s.values.keys
  flagged : ∀ name ∈ s.filledFlags, name ∈ s.values.keys ∧ ∃ o ∈ ctx.table.flags, o.name = name
  once : s.filledFlags.Nodup
  inOrder : ∀ name ∈ s.values.keys, opens name ∨ ctx.table.InOrder s.values.keys name
  lastFilled : ∀ name ∈ s.lastFilled, name ∈ s.values.keys
  lastSlot : ∀ slot ∈ s.lastSlot, slot.name ∈ s.values.keys
  named : ∀ named ∈ s.named,
    opens named.option.name ∧ (named.option.flag = true → named.option ∈ ctx.table.flags)

namespace Backed

theorem update (backed : Backed ctx opens known s) (values : s'.values = s.values)
    (taken : s'.taken = s.taken) (count : s'.takenCount = s.takenCount)
    (flags : s'.filledFlags = s.filledFlags)
    (lastFilled : ∀ name ∈ s'.lastFilled, name ∈ s.values.keys)
    (lastSlot : ∀ slot ∈ s'.lastSlot, slot.name ∈ s.values.keys)
    (named : ∀ named ∈ s'.named,
      opens named.option.name ∧ (named.option.flag = true → named.option ∈ ctx.table.flags)) :
    Backed ctx opens known s' where
  toCounted := backed.toCounted.congr taken count
  kept := by rw [values]; exact backed.kept
  valued := by rw [values, taken]; exact backed.valued
  flagged := by rw [values, flags]; exact backed.flagged
  once := by rw [flags]; exact backed.once
  inOrder := by rw [values]; exact backed.inOrder
  lastFilled := by rw [values]; exact lastFilled
  lastSlot := by rw [values]; exact lastSlot
  named := named

theorem congr (backed : Backed ctx opens known s) (values : s'.values = s.values)
    (taken : s'.taken = s.taken) (count : s'.takenCount = s.takenCount)
    (flags : s'.filledFlags = s.filledFlags) (lastFilled : s'.lastFilled = s.lastFilled)
    (lastSlot : s'.lastSlot = s.lastSlot) (named : s'.named = s.named) :
    Backed ctx opens known s' := by
  apply backed.update values taken count flags
  · rw [lastFilled]; exact backed.lastFilled
  · rw [lastSlot]; exact backed.lastSlot
  · rw [named]; exact backed.named

theorem know (backed : Backed ctx opens known s) : Backed ctx opens (· ∈ s.values.keys) s :=
  { backed with kept := fun _ => id }

/-- A value for a name with a marker, or for a slot in order. -/
theorem setValue (backed : Backed ctx opens known s) {name : String}
    (source : opens name ∨ ctx.table.InOrder s.values.keys name) (value : String)
    (start stop : Nat) : Backed ctx opens known (s.setValue name value start stop) := by
  have more : ∀ other ∈ s.values.keys,
      other ∈ (s.setValue name value start stop).values.keys :=
    fun other old => (Entries.mem_keys_insert ..).2 (.inr old)
  refine ⟨backed.toCounted.congr rfl rfl, fun other old => more other (backed.kept other old),
    fun slot option taken declared => more _ (backed.valued slot option taken declared),
    fun flag filled => (backed.flagged flag filled).imp_left (more flag), backed.once, ?_,
    fun last filled => more last (backed.lastFilled last filled),
    fun slot waiting => more _ (backed.lastSlot slot waiting), backed.named⟩
  intro other member
  rcases (Entries.mem_keys_insert ..).1 member with rfl | old
  · exact source.imp_right (·.mono more)
  · exact (backed.inOrder other old).imp_right (·.mono more)

theorem resetValue (backed : Backed ctx opens known s) {name : String}
    (old : name ∈ s.values.keys) (value : String) (start stop : Nat) :
    Backed ctx opens known (s.setValue name value start stop) :=
  backed.setValue (backed.inOrder name old) value start stop

theorem mem_keys_setValue (s : State) (name value : String) (start stop : Nat) :
    name ∈ (s.setValue name value start stop).values.keys :=
  (Entries.mem_keys_insert ..).2 (.inl rfl)

theorem append (backed : Backed ctx opens known s) {last : String}
    (filled : s.lastFilled = some last) (text : String) (stop : Nat) :
    Backed ctx opens known (s.append last text stop) :=
  (backed.resetValue (backed.lastFilled last filled) ((s.values.get? last).getD "" ++ text) 0
    stop).congr rfl rfl rfl rfl rfl rfl rfl

theorem take (backed : Backed ctx opens known s) (slot : Nat)
    (filled : ∀ option, ctx.table.slots[slot]? = some option → option.name ∈ s.values.keys) :
    Backed ctx opens known (s.take slot) := by
  have counted := backed.toCounted.taken slot
  revert counted
  refine take_cases (fun _ => backed) fun _ counted => ?_
  refine ⟨counted, backed.kept, ?_, backed.flagged, backed.once, backed.inOrder,
    backed.lastFilled, backed.lastSlot, backed.named⟩
  intro other option taken declared
  by_cases same : slot = other
  · exact filled option (same ▸ declared)
  · rw [List.getElem?_set_ne same] at taken
    exact backed.valued other option taken declared

theorem markFilled (backed : Backed ctx opens known s) {option : OptionDecl}
    (filled : option.name ∈ s.values.keys)
    (flag : option.flag = true → option ∈ ctx.table.flags) :
    Backed ctx opens known (s.markFilled ctx option) := by
  refine markFilled_cases backed ?flag ?slot
  case flag =>
    intro flagged fresh
    refine ⟨backed.toCounted.congr rfl rfl, backed.kept, backed.valued, ?_,
      List.nodup_cons.2 ⟨fresh, backed.once⟩, backed.inOrder, backed.lastFilled,
      backed.lastSlot, backed.named⟩
    exact List.forall_mem_cons.2 ⟨⟨filled, option, flag flagged, rfl⟩, backed.flagged⟩
  case slot =>
    intro slot found
    obtain ⟨inside, same, -⟩ := List.findIdx?_eq_some_iff_getElem.1 found
    apply backed.take
    intro other declared
    rw [List.getElem?_eq_getElem inside, Option.some.injEq] at declared
    rw [declared, beq_iff_eq] at same
    rwa [same]

/-- Every slot in front of the first free one has a value. -/
theorem inOrder_freeSlot (backed : Backed ctx opens known s) {slot : Nat} {option : OptionDecl}
    (free : s.freeSlot? = some slot) (declared : ctx.table.slots[slot]? = some option) :
    ctx.table.InOrder s.values.keys option.name := by
  obtain ⟨inside, -, before⟩ := List.findIdx?_eq_some_iff_getElem.1 free
  obtain ⟨bound, here⟩ := List.getElem?_eq_some_iff.1 declared
  refine ⟨ctx.table.slots.take slot, option, ctx.table.slots.drop (slot + 1), ?_, rfl, ?_⟩
  · rw [← here, ← List.drop_eq_getElem_cons bound, List.take_append_drop]
  · intro o member
    obtain ⟨index, small, rfl⟩ := List.mem_take_iff_getElem.1 member
    have earlier : index < slot := by omega
    have taken := before index earlier
    refine backed.valued index _ ?_ (List.getElem?_eq_getElem _)
    rw [List.getElem?_eq_getElem (by omega)]
    simpa using taken

/-! ## Giving values to options -/

theorem fillSlot (backed : Backed ctx opens known s) (value : String) (start : Cursor)
    (stop : Nat) (long : Bool) : Backed ctx opens known (s.fillSlot ctx value start stop long) := by
  refine fillSlot_cases backed fun slot option value spanStart lastSlot free declared _ last => ?_
  have given :=
    backed.setValue (.inr (backed.inOrder_freeSlot free declared)) value spanStart stop
  have here := mem_keys_setValue s option.name value spanStart stop
  apply Backed.take
  · refine given.update rfl rfl rfl rfl ?_ ?_ given.named
    · rintro name ⟨⟩
      exact here
    · intro waiting member
      cases last with
      | same => exact given.lastSlot waiting member
      | opens =>
          rw [← Option.some.inj member]
          exact here
  · intro other declared'
    obtain rfl := Option.some.inj (declared.symm.trans declared')
    exact here

theorem fillNamed {named : Named} (backed : Backed ctx opens known s)
    (opened : s.named = some named) (value : String) (start stop : Nat) :
    Backed ctx opens known (s.fillNamed ctx named value start stop) := by
  obtain ⟨source, flag⟩ := backed.named named opened
  have given := backed.setValue (.inl source) value start stop
  have here := mem_keys_setValue s named.option.name value start stop
  unfold State.fillNamed
  extract_lets name closed
  refine markFilled ?_ here flag
  refine given.update rfl rfl rfl rfl ?_ given.lastSlot (by simp [closed, State.setValue])
  rintro name ⟨⟩
  exact here

theorem closeLastSlot (backed : Backed ctx opens known s) (stop : Nat) (post : List Char) :
    Backed ctx opens known (s.closeLastSlot ctx stop post) := by
  refine closeLastSlot_cases (fun _ => backed) fun slot value waiting => ?_
  have reset := backed.resetValue (backed.lastSlot slot waiting) value slot.spanStart stop
  exact reset.update rfl rfl rfl rfl reset.lastFilled (by simp [State.setValue]) reset.named

/-! ## Steps -/

theorem put (backed : Backed ctx opens known s) (put : Put ctx s s') :
    Backed ctx opens known s' := by
  cases put with
  | hold => exact backed.congr rfl rfl rfl rfl rfl rfl rfl
  | append filled => exact backed.append filled _ _
  | fillSlot => exact backed.fillSlot ..
  | fillNamed opened => exact backed.fillNamed opened ..
  | closeLastSlot => exact backed.closeLastSlot ..

/-- The language of a code block is no value, and it takes no slot. -/
theorem write (noLanguage : ctx.config.languageAsValue = false)
    (backed : Backed ctx opens known s) (write : Write ctx s s') : Backed ctx opens known s' := by
  cases write with
  | put put => exact backed.put put
  | note => exact backed.congr rfl rfl rfl rfl rfl rfl rfl
  | take asValue => simp [noLanguage] at asValue

theorem move (indexed : ctx.table.Indexed) (noLanguage : ctx.config.languageAsValue = false)
    {t : Token}
    (source : ∀ escapes opening name, t.kind = .marker escapes opening name → opens name)
    (backed : Backed ctx opens known s) (move : Move ctx t s s') : Backed ctx opens known s' := by
  cases move with
  | write write => exact backed.write noLanguage write
  | decide => exact backed.congr rfl rfl rfl rfl rfl rfl rfl
  | openNamed marker declared =>
      refine backed.update rfl rfl rfl rfl backed.lastFilled backed.lastSlot ?_
      rintro named ⟨⟩
      exact ⟨(indexed.named _ _ declared).symm ▸ source _ _ _ marker, indexed.flags _ _ declared⟩

/-! ## Runs -/

theorem steps (indexed : ctx.table.Indexed) (noLanguage : ctx.config.languageAsValue = false)
    (backed : Backed ctx opens known s) {ts : List Token}
    (source : ∀ t ∈ ts, ∀ escapes opening name,
      t.kind = .marker escapes opening name → opens name) :
    Backed ctx opens known (s.steps ctx ts) :=
  steps_of_moves (fun t member _ _ move backed =>
    backed.move indexed noLanguage (source t member) move) backed

theorem closeAll (noLanguage : ctx.config.languageAsValue = false)
    (backed : Backed ctx opens known s) : Backed ctx opens known (s.closeAll ctx) :=
  (writes_closeAll s).invariant (fun write backed => backed.write noLanguage write) backed

theorem initial (ctx : Context) (opens : String → Prop) :
    Backed ctx opens (fun _ => False) (State.initial ctx) := by
  refine ⟨.initial ctx, by simp, ?_, by simp [State.initial], List.nodup_nil,
    by simp [State.initial, Entries.keys], by simp [State.initial], by simp [State.initial],
    by simp [State.initial]⟩
  intro slot option taken
  rw [State.initial, List.map_const'] at taken
  simpa using List.eq_of_mem_replicate (List.mem_of_getElem? taken)

theorem fillReplied? {message : Option Message} (backed : Backed ctx opens known s)
    (filled : s.fillReplied? ctx message = some s') : Backed ctx opens known s' := by
  simp only [State.fillReplied?, Option.bind_eq_bind, Option.bind_eq_some_iff] at filled
  obtain ⟨filling, -, m, -, replied, -, filled⟩ := filled
  split at filled
  · simp at filled
  · obtain ⟨slot, free, filled⟩ := Option.bind_eq_some_iff.1 filled
    obtain ⟨option, declared, filled⟩ := Option.bind_eq_some_iff.1 filled
    split at filled
    · obtain rfl := Option.some.inj filled
      have given := backed.setValue (.inr (backed.inOrder_freeSlot free declared)) replied 0 0
      apply take
      · exact given.congr rfl rfl rfl rfl rfl rfl rfl
      · intro other declared'
        obtain rfl := Option.some.inj (declared.symm.trans declared')
        exact mem_keys_setValue s option.name replied 0 0
    · simp at filled

end Backed

theorem run_backed (indexed : ctx.table.Indexed) (noLanguage : ctx.config.languageAsValue = false)
    (source : ∀ t ∈ tokens ctx.patterns.delimiters ctx.content, ∀ escapes opening name,
      t.kind = .marker escapes opening name → opens name) (message : Option Message) :
    Backed ctx opens (fun _ => False) (run ctx message) :=
  have start := Backed.initial ctx opens
  run_of_moves start (fun _ filled => start.fillReplied? filled)
    (fun write backed => backed.write noLanguage write)
    fun t member _ _ move backed => backed.move indexed noLanguage (source t member) move

end State

/-! ## Names in a text -/

/-- The text holds the name directly behind a hyphen or directly in front of a colon. -/
def Marks (content : List Char) (name : String) : Prop :=
  ('-' :: name.toList) <:+: content ∨ (name.toList ++ [':']) <:+: content

instance (content : List Char) (name : String) : Decidable (Marks content name) :=
  inferInstanceAs (Decidable (_ ∨ _))

theorem tokensAt_marks {d : Delimiters} {content : List Char} {c : Cursor}
    (inside : c.In content) : ∀ t ∈ tokensAt d c, ∀ escapes opening name,
      t.kind = .marker escapes opening name → Marks content name := by
  induction c using tokensAt_induction d with
  | finish c ends => simp [tokensAt_end ends]
  | skip c x rest split gap none ih =>
      rw [tokensAt_skip split none]
      exact ih (inside.past split)
  | token c kind text rest split front found ih =>
      rw [tokensAt_token split found, List.forall_mem_cons]
      refine ⟨?_, ih (inside.past split)⟩
      rintro escapes opening name rfl
      obtain ⟨before, whole, -, -⟩ := inside
      have part : text <:+: content := ⟨before, rest, by rw [whole, split, List.append_assoc]⟩
      exact front.name_infix.imp (·.trans part) (·.trans part)

end Parse

open Parse Text

/-- What a parse of a command answers is found by a run that is backed by the names that the
text marks. -/
theorem Command.parse_backed (command : Command) {shared : Config}
    (noLanguage : ((Table.ofCommand command).configFor shared).languageAsValue = false)
    (content : String) (message : Option Message) :
    ∃ ctx s, ctx.table = Table.ofCommand command ∧
      State.Backed ctx (Marks content.toList) (fun _ => False) s ∧
      ∀ name, name ∈ (command.parse shared content message).values.keys ↔
        name ∈ s.values.keys := by
  let config := (Table.ofCommand command).configFor shared
  let ctx : Context := ⟨content.toList, .ofCommand command, config, .ofConfig config⟩
  refine ⟨ctx, ?_⟩
  by_cases empty : (Table.ofCommand command).optionCount = 0
  · refine ⟨.initial ctx, rfl, .initial ctx _, fun name => ?_⟩
    simp [Command.parse, Table.parse, empty, Args.ofContent, State.initial]
  · have marks := tokensAt_marks (d := ctx.patterns.delimiters) (Cursor.start_in content.toList)
    refine ⟨State.run ctx message, rfl,
      State.run_backed (Table.indexed_ofCommand command) noLanguage marks message, fun name => ?_⟩
    rw [Command.parse, parse_values (Nat.pos_of_ne_zero empty), keys_matchChoices]

/-- A flag has a value only if the text marks its name. A slot that the text does not mark has a
value only if every slot that is declared in front of it has one. -/
theorem Command.parse_slots_inOrder {command : Command} {shared : Config}
    (sound : command.defect? = none)
    (noLanguage : ((Table.ofCommand command).configFor shared).languageAsValue = false)
    (content : String) (message : Option Message) :
    (∀ o ∈ command.options, o.flag = true →
      o.name ∈ (command.parse shared content message).values.keys →
      Marks content.toList o.name) ∧
    ∀ a b : OptionDecl, [a, b].Sublist command.options →
      (a.isFillable = true ∧ b.isFillable = true) → (a.flag = false ∧ b.flag = false) →
      b.name ∈ (command.parse shared content message).values.keys →
      ¬ Marks content.toList b.name →
      a.name ∈ (command.parse shared content message).values.keys := by
  have distinct := names_nodup_of_defect? sound
  obtain ⟨ctx, s, table, backed, keys⟩ := parse_backed command noLanguage content message
  have source (name : String) := table ▸ backed.inOrder name
  simp only [keys]
  constructor
  · intro o member flag valued
    refine (source o.name valued).resolve_right fun inOrder => ?_
    simp [inOrder.unflagged distinct member] at flag
  · intro a b declared fillable unflagged valued unmarked
    exact ((source b.name valued).resolve_left unmarked).earlier distinct declared fillable
      unflagged

def Command.twoSlotsAndFlag : Command :=
  ⟨"say", [{ name := "x" }, { name := "y" }, { name := "f", flag := true }], none⟩

/-- Two words fill the two slots in order, and the flag behind them is filled by its marker. -/
theorem Command.parse_slots_inOrder_flag :
    Marks "a b --f c".toList "f" ∧ ¬ Marks "a b --f c".toList "y" ∧
      "y" ∈ (Command.twoSlotsAndFlag.parse {} "a b --f c" none).values.keys ∧
      "x" ∈ (Command.twoSlotsAndFlag.parse {} "a b --f c" none).values.keys := by
  obtain ⟨flags, slots⟩ := @parse_slots_inOrder twoSlotsAndFlag {} (by decide +kernel) rfl
    "a b --f c" none
  have unmarked : ¬ Marks "a b --f c".toList "y" := by decide +kernel
  have valued : "y" ∈ (twoSlotsAndFlag.parse {} "a b --f c" none).values.keys := by decide +kernel
  have declared : [{ name := "x" }, { name := "y" }].Sublist twoSlotsAndFlag.options :=
    List.sublist_append_left _ _
  refine ⟨?_, unmarked, valued, slots _ _ declared ⟨rfl, rfl⟩ ⟨rfl, rfl⟩ valued unmarked⟩
  exact flags { name := "f", flag := true } (by simp [twoSlotsAndFlag]) rfl (by decide +kernel)

end ChatArgs
