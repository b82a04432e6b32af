import ChatArgs.Proofs.Command.Choices
import ChatArgs.Proofs.Parse.Alike
import Mathlib.Data.List.Nodup

/-!
# The author of the message replied to

The author of the message replied to may fill the first slot, if that is a user option. From there
on the text is parsed as if the command had no such option (`Command.without`), as long as no
marker in the text names it. Where the author does not fill a slot, the message does not count.
-/

namespace ChatArgs

open Text Parse

/-! ## Commands without an option -/

def Command.without (c : Command) (name : String) : Command :=
  { c with options := c.options.filter (·.name != name) }

namespace Table

variable {c : Command} {user : OptionDecl}

theorem mem_of_first_slot (first : (ofCommand c).slots.head? = some user) :
    user ∈ c.options ∧ user.isFillable = true := by
  obtain ⟨inner, -⟩ := List.mem_filter.1 (List.mem_of_mem_head? first)
  exact List.mem_filter.1 inner

section

variable (distinct : (c.options.map (·.name)).Nodup)
include distinct

/-- Without the option of the first slot the other slots are left. -/
theorem slots_without (first : (ofCommand c).slots.head? = some user) :
    (ofCommand c).slots = user :: (ofCommand (c.without user.name)).slots := by
  obtain ⟨others, slots⟩ := List.head?_eq_some_iff.1 first
  have names := slot_names_nodup distinct
  rw [slots, List.map_cons, List.nodup_cons] at names
  have kept : (ofCommand (c.without user.name)).slots =
      (ofCommand c).slots.filter (·.name != user.name) := by
    simp only [ofCommand, Command.without, List.filter_filter]
    refine List.filter_congr fun o _ => ?_
    rw [← Bool.and_assoc, Bool.and_comm]
  rw [kept, slots, List.filter_cons_of_neg (by simp), List.filter_eq_self.2]
  intro o member
  rw [bne_iff_ne]
  rintro same
  exact names.1 (same ▸ List.mem_map_of_mem member)

theorem optionCount_without (member : user ∈ c.options) (fillable : user.isFillable = true) :
    (ofCommand c).optionCount = 1 + (ofCommand (c.without user.name)).optionCount := by
  have distinct' : ((c.without user.name).options.map (·.name)).Nodup :=
    distinct.sublist (List.filter_sublist.map _)
  have names : ((c.options.filter (·.isFillable)).map (·.name)).Nodup :=
    distinct.sublist (List.filter_sublist.map _)
  have named : user.name ∈ (c.options.filter (·.isFillable)).map (·.name) :=
    List.mem_map_of_mem (List.mem_filter.2 ⟨member, fillable⟩)
  have kept : ((c.without user.name).options.filter (·.isFillable)).map (·.name) =
      ((c.options.filter (·.isFillable)).map (·.name)).erase user.name := by
    rw [names.erase_eq_filter, List.filter_map]
    simp only [Command.without, List.filter_filter]
    refine congrArg _ (List.filter_congr fun o _ => ?_)
    exact Bool.and_comm ..
  have length := List.length_erase_of_mem named
  have positive := List.length_pos_of_mem named
  rw [← kept, List.length_map, List.length_map] at length
  rw [List.length_map] at positive
  rw [optionCount_eq distinct, optionCount_eq distinct']
  omega

theorem option?_without {name other : String} (different : other ≠ name) :
    (ofCommand c).option? name = (ofCommand (c.without other)).option? name := by
  have distinct' : ((c.without other).options.map (·.name)).Nodup :=
    distinct.sublist (List.filter_sublist.map _)
  apply Option.ext
  intro o
  constructor
  · intro known
    obtain ⟨member, fillable, rfl⟩ := option?_eq_some known
    refine option?_of_mem distinct' (List.mem_filter.2 ⟨member, ?_⟩) fillable
    simpa using Ne.symm different
  · intro known
    obtain ⟨member, fillable, rfl⟩ := option?_eq_some known
    exact option?_of_mem distinct (List.mem_filter.1 member).1 fillable

theorem choices_without (member : user ∈ c.options) (noChoices : user.choices = []) :
    (ofCommand (c.without user.name)).choices = (ofCommand c).choices := by
  simp only [ofCommand, Command.without, List.filter_filter]
  refine congrArg _ (List.filter_congr fun o member' => ?_)
  by_cases same : o.name = user.name
  · have same := List.inj_on_of_nodup_map distinct member' member same
    simp [same, noChoices]
  · rw [bne_iff_ne.2 same, Bool.and_true]

end

theorem ne_of_holds_without {name other : String}
    (holds : (ofCommand (c.without other)).Holds name) : other ≠ name := by
  obtain ⟨o, member, -, rfl⟩ := holds.exists_option
  have kept := (List.mem_filter.1 member).2
  exact Ne.symm (by simpa using kept)

theorem ne_of_mem_choices_without {t : ChoiceTable} {name : String}
    (inside : t ∈ (ofCommand (c.without name)).choices) : name ≠ t.option := by
  obtain ⟨o, declared, rfl⟩ := List.mem_map.1 inside
  have kept := (List.mem_filter.1 (List.mem_filter.1 declared).1).1
  exact Ne.symm (bne_iff_ne.1 (List.mem_filter.1 kept).2)

end Table

namespace Parse

/-! ## Markers -/

/-- The name of a marker stands behind a hyphen or in front of a colon. -/
theorem TokenFront.name_infix {d : Delimiters} {escapes : Nat} {opening : Opening}
    {name : String} {text rest : List Char}
    (token : TokenFront d (.marker escapes opening name) text rest) :
    ('-' :: name.toList) <:+: text ∨ (name.toList ++ [':']) <:+: text := by
  cases token with
  | @hyphens _ count name sign _ number _ _ _ =>
      left
      rw [String.toList_ofList]
      rcases number with rfl | rfl
      · exact ⟨Parse.backslashes escapes, sign, by simp⟩
      · exact ⟨Parse.backslashes escapes ++ ['-'], sign, by simp⟩
  | @colon _ name _ _ _ _ _ =>
      right
      rw [String.toList_ofList]
      exact ⟨Parse.backslashes escapes, [], by simp⟩

/-- The first slot of a command is filled from the start, and no marker in the text names it. -/
theorem relates_without {c : Command} {user : OptionDecl} {replied : String} {config : Config}
    {patterns : Patterns} {content : List Char} (distinct : (c.options.map (·.name)).Nodup)
    (first : (Table.ofCommand c).slots.head? = some user)
    (noHyphen : ¬ ('-' :: user.name.toList) <:+: content)
    (noColon : ¬ (user.name.toList ++ [':']) <:+: content) :
    Change.Relates { seats := [(user, replied)] }
      ⟨content, .ofCommand (c.without user.name), config, patterns⟩ (.ofCommand c) := by
  obtain ⟨member, fillable⟩ := Table.mem_of_first_slot first
  have seats (name : String) :
      Change.Seats { seats := [(user, replied)] } name ↔ user.name = name := by
    simp [Change.Seats]
  refine ⟨.id _, .inl rfl, Table.slots_without distinct first,
    Table.optionCount_without distinct member fillable, ?_, ?_, ?_⟩
  · intro name other
    exact Table.option?_without distinct (mt (seats name).2 other)
  · intro name holds seated
    exact Table.ne_of_holds_without holds ((seats name).1 seated)
  · intro front text rest escapes opening name whole token seated
    obtain rfl := (seats name).1 seated
    have inside : text <:+: content := ⟨front, rest, (List.append_assoc ..).trans whole.symm⟩
    rcases token.name_infix with hyphen | colon
    · exact noHyphen (hyphen.trans inside)
    · exact noColon (colon.trans inside)

/-! ## Choices -/

theorem matchChoices_entries {v : Change} (kept : v.char = id) {tables : List ChoiceTable}
    (fresh : ∀ t ∈ tables, ¬ v.Seats t.option) (matching : Option ChoiceMatching)
    (values : Entries String) :
    matchChoices tables matching (v.entries values) =
      v.entries (matchChoices tables matching values) := by
  have same (value : String) : value.map v.char = value := by rw [kept, String.map_id]
  cases matching with
  | none => rfl
  | some matching =>
      unfold matchChoices
      simp only
      induction tables generalizing values with
      | nil => rfl
      | cons t tables ih =>
          have step : matchChoice matching (v.entries values) t =
              v.entries (matchChoice matching values t) := by
            have first := fresh t List.mem_cons_self
            have found : (v.entries values).get? t.option = values.get? t.option := by
              rw [Change.entries_get? first]
              cases values.get? t.option with
              | none => rfl
              | some value => exact congrArg some (same value)
            unfold matchChoice
            rw [found]
            cases values.get? t.option with
            | none => rfl
            | some value =>
                simp only
                split
                · rename_i name _
                  rw [← v.entries_insert first, same]
                · rfl
          rw [List.foldl_cons, List.foldl_cons, step]
          exact ih (fun t' member => fresh t' (List.mem_cons_of_mem t member)) _

theorem matchChoices_empty (tables : List ChoiceTable) (matching : Option ChoiceMatching) :
    matchChoices tables matching {} = {} := by
  cases matching with
  | none => rfl
  | some matching =>
      unfold matchChoices
      simp only
      induction tables with
      | nil => rfl
      | cons t tables ih =>
          rw [List.foldl_cons]
          exact ih

/-! ## Runs -/

namespace State

variable {ctx : Context} {m : Message} {user : OptionDecl} {replied : String}

theorem fillReplied?_of_reply {filling : ReplyFilling} {others : List OptionDecl}
    (enabled : ctx.config.replyFilling = some filling) (reply : m.repliedTo = some replied)
    (pinged : filling.requirePing = true → replied = m.author ∨ replied ∈ m.mentions)
    (slots : ctx.table.slots = user :: others) (kind : user.kind = .user) :
    (initial ctx).fillReplied? ctx (some m) =
      some (({ initial ctx with values := ⟨[(user.name, replied)]⟩ } : State).take 0) := by
  have allowed :
      (filling.requirePing && replied != m.author && !m.mentionsUser replied) = false := by
    rw [Bool.eq_false_iff]
    intro missing
    simp only [Bool.and_eq_true, bne_iff_ne, Bool.not_eq_true', Message.mentionsUser,
      List.contains_eq_mem, decide_eq_false_iff_not] at missing
    rcases pinged missing.1.1 with same | member
    · exact missing.1.2 same
    · exact missing.2 member
  have free : (initial ctx).freeSlot? = some 0 := by
    simp [freeSlot?, initial, slots, List.findIdx?_cons]
  simp only [fillReplied?, enabled, reply, Option.bind_eq_bind, Option.bind_some, allowed, free,
    slots, List.getElem?_cons_zero, kind, beq_self_eq_true, if_true]
  rfl

/-- The slot that is filled is what the states differ in. -/
theorem initial_seated {table : Table} (slots : table.slots = user :: ctx.table.slots)
    (replied : String) :
    ({ initial { ctx with table := table } with
        values := ⟨[(user.name, replied)]⟩ } : State).take 0 =
      (initial ctx).image { seats := [(user, replied)] } := by
  unfold State.take initial
  simp only [slots, List.map_cons, List.getElem?_cons_zero, beq_self_eq_true, if_true,
    List.set_cons_zero]
  rfl

/-- A parse whose first slot the author replied to fills ends like one without the slot, unless
there is no other option: then it ends as it starts. -/
theorem run_seated {table : Table}
    (relates : Change.Relates { seats := [(user, replied)] } ctx table)
    (filled : (initial { ctx with table := table }).fillReplied? { ctx with table := table }
      (some m) = some ((initial ctx).image { seats := [(user, replied)] })) :
    State.run { ctx with table := table } (some m) =
      (if ctx.table.optionCount = 0 then initial ctx else State.run ctx none).image
        { seats := [(user, replied)] } := by
  have start : Alike { seats := [(user, replied)] } ctx table (initial ctx)
      ((initial ctx).image { seats := [(user, replied)] }) := .initial relates rfl
  have context :
      Change.context { seats := [(user, replied)] } ctx table = { ctx with table := table } := by
    rw [Change.context, List.map_id, List.append_nil]
  have all := start.allFilled_eq
  rw [context] at all
  rw [State.run, filled]
  simp only [all]
  by_cases none : ctx.table.optionCount = 0
  · have done : (initial ctx).allFilled ctx = true := by simp [allFilled, none]
    rw [if_pos none, if_pos done]
  · have more : (initial ctx).allFilled ctx = false :=
      decide_eq_false (Nat.not_le.2 (Nat.pos_of_ne_zero none))
    rw [if_neg none, more, ← (start.run rfl).same, context]
    rfl

theorem run_of_fillReplied? (unfilled : (initial ctx).fillReplied? ctx (some m) = none) :
    State.run ctx (some m) = State.run ctx none := by
  rw [run_none, State.run, unfilled]
  rfl

end State

end Parse

namespace Command

abbrev configFor (command : Command) (shared : Config) : Config :=
  (Table.ofCommand command).configFor shared

/-- The author replied to fills the first slot of a sound command, and no marker in the text names
it. -/
structure Seated (command : Command) (shared : Config) (message : Message) (content : String)
    (user : OptionDecl) (replied : String) : Prop where
  sound : command.defect? = none
  enabled : ∃ filling, (command.configFor shared).replyFilling = some filling ∧
    (filling.requirePing = true → replied = message.author ∨ replied ∈ message.mentions)
  reply : message.repliedTo = some replied
  first : (Table.ofCommand command).slots.head? = some user
  kind : user.kind = .user
  noHyphen : ¬ ('-' :: user.name.toList) <:+: content.toList
  noColon : ¬ (user.name.toList ++ [':']) <:+: content.toList

variable {command : Command} {shared : Config} {message : Message} {content : String}

theorem parse_eq {message : Option Message} (more : 0 < (Table.ofCommand command).optionCount) :
    command.parse shared content message =
      ⟨content, matchChoices (Table.ofCommand command).choices (command.configFor shared).choices
          (State.run ⟨content.toList, .ofCommand command, command.configFor shared,
            .ofConfig (command.configFor shared)⟩ message).values,
        (State.run ⟨content.toList, .ofCommand command, command.configFor shared,
          .ofConfig (command.configFor shared)⟩ message).spans⟩ := by
  have filled : ¬ ((Table.ofCommand command).optionCount == 0) = true := by
    rw [beq_iff_eq]
    exact Nat.ne_of_gt more
  exact if_neg filled

/-- What is in the result for the whole command, where the author replied to fills its first slot:
that author, and what is in the result for the command without the slot. -/
theorem parse_seated {user : OptionDecl} {replied : String}
    (seated : command.Seated shared message content user replied) :
    (command.parse shared content (some message)).spans =
        ((command.without user.name).parse shared content none).spans ∧
      (command.parse shared content (some message)).values =
        Change.entries { seats := [(user, replied)] }
          ((command.without user.name).parse shared content none).values := by
  obtain ⟨sound, ⟨filling, enabled, pinged⟩, reply, first, kind, noHyphen, noColon⟩ := seated
  have distinct := names_nodup_of_defect? sound
  obtain ⟨member, fillable⟩ := Table.mem_of_first_slot first
  have noChoices : user.choices = [] := choices_eq_nil sound member (by rw [kind]; rfl)
  have slots := Table.slots_without distinct first
  have count := Table.optionCount_without distinct member fillable
  have choices := Table.choices_without distinct member noChoices
  -- The parse for the other options, and the one in which the first slot is filled.
  let rest : Context := ⟨content.toList, .ofCommand (command.without user.name),
    command.configFor shared, .ofConfig (command.configFor shared)⟩
  have filled : (State.initial { rest with table := .ofCommand command }).fillReplied?
      { rest with table := .ofCommand command } (some message) =
      some ((State.initial rest).image { seats := [(user, replied)] }) := by
    rw [State.fillReplied?_of_reply enabled reply pinged slots kind]
    exact congrArg some (State.initial_seated slots replied)
  have run := State.run_seated (relates_without distinct first noHyphen noColon) filled
  have fresh : ∀ t ∈ (Table.ofCommand command).choices,
      ¬ Change.Seats { seats := [(user, replied)] } t.option := by
    rw [← choices]
    rintro t inside ⟨seat, member, same⟩
    rw [List.mem_singleton.1 member] at same
    exact Table.ne_of_mem_choices_without inside same
  have whole : command.parse shared content (some message) =
      ⟨content, matchChoices (Table.ofCommand command).choices (command.configFor shared).choices
          (State.run { rest with table := .ofCommand command } (some message)).values,
        (State.run { rest with table := .ofCommand command } (some message)).spans⟩ :=
    parse_eq (by omega)
  rw [whole, run]
  by_cases alone : rest.table.optionCount = 0
  · have empty : (command.without user.name).parse shared content none = .ofContent content :=
      if_pos (beq_iff_eq.2 alone)
    rw [if_pos alone, empty]
    refine ⟨rfl, (matchChoices_entries rfl fresh _ {}).trans ?_⟩
    rw [matchChoices_empty]
    rfl
  · have others : (command.without user.name).parse shared content none =
        ⟨content, matchChoices (Table.ofCommand (command.without user.name)).choices
            (command.configFor shared).choices (State.run rest none).values,
          (State.run rest none).spans⟩ :=
      parse_eq (Nat.pos_of_ne_zero alone)
    rw [if_neg alone, others, choices]
    exact ⟨rfl, matchChoices_entries rfl fresh _ _⟩

/-- The author replied to acts as if the first option were taken: what is left is the parse for
the command without it. -/
theorem parse_replied {user : OptionDecl} {replied : String}
    (seated : command.Seated shared message content user replied) :
    (command.parse shared content (some message)).spans =
        ((command.without user.name).parse shared content none).spans ∧
      ∀ name, (command.parse shared content (some message)).values.get? name =
        (((command.without user.name).parse shared content none).values.insert user.name
          replied).get? name := by
  obtain ⟨spans, values⟩ := parse_seated seated
  refine ⟨spans, fun name => ?_⟩
  rw [values, Entries.get?_insert]
  split
  · rename_i same
    simp [Change.entries, Entries.get?, Entries.find, same]
  · rename_i other
    have free : ¬ Change.Seats { seats := [(user, replied)] } name := by
      simpa [Change.Seats] using other
    rw [Change.entries_get? free]
    have same : String.map id = id := funext fun _ => String.map_id
    rw [same, Option.map_id]
    rfl

/-- Where the author replied to does not fill a slot, the message does not count. -/
theorem parse_unfilled
    (unfilled : (command.configFor shared).replyFilling = none ∨ message.repliedTo = none ∨
      (∃ filling replied, (command.configFor shared).replyFilling = some filling ∧
        filling.requirePing = true ∧ message.repliedTo = some replied ∧
        replied ≠ message.author ∧ replied ∉ message.mentions) ∨
      ∀ user, (Table.ofCommand command).slots.head? = some user → user.kind ≠ .user) :
    command.parse shared content (some message) = command.parse shared content none := by
  have nobody (name : String) :
      ¬ RepliedFills (.ofCommand command) (command.configFor shared) (some message) name := by
    rintro ⟨filling, m, replied, user, enabled, sent, reply, pinged, first, kind, -⟩
    obtain rfl := Option.some.inj sent
    rcases unfilled with off | noReply | ⟨_, _, on, required, reply', stranger⟩ | other
    · simp [off] at enabled
    · simp [noReply] at reply
    · obtain rfl := Option.some.inj (enabled.symm.trans on)
      obtain rfl := Option.some.inj (reply.symm.trans reply')
      simp [Message.mentionsUser, stranger] at pinged
      simp [pinged] at required
    · exact other user first kind
  unfold Command.parse Table.parse
  simp only
  split
  · rfl
  · rw [State.run_of_fillReplied?]
    refine Option.eq_none_iff_forall_ne_some.2 fun s filled => ?_
    obtain ⟨option, replied, slot, -, fills, -⟩ := State.fillReplied?_eq_some filled
    exact nobody _ fills

end Command

end ChatArgs
