import ChatArgs.Proofs.Parse.Apart
import ChatArgs.Proofs.Parse.NoFailure
import ChatArgs.Proofs.Parse.QuotedItems
import ChatArgs.Proofs.Parse.Transitions

/-!
# What can be open at once

Between two tokens a parse may hold text, and have a long text, a named option and the last slot
open. Which of them exclude each other is `Exclusive`: it holds in front of the first token and
behind each one (`exclusive_of_mem_between`). Most of it comes from where the next text goes
(`Phase`). That the last slot is open only where no slot is free rests on the count of the taken
slots (`Accounted`): the slot is opened when the count leaves one, and that one is taken with it.
-/

namespace ChatArgs

namespace Parse

open Text

variable {ctx : Context} {s s' : State}

/-! ## Slots -/

namespace State

theorem freeSlot?_eq_none_iff : s.freeSlot? = none ↔ ∀ taken ∈ s.taken, taken = true := by
  simp [freeSlot?, List.findIdx?_eq_none_iff]

theorem take_of_full (full : s.freeSlot? = none) (slot : Nat) : s.take slot = s := by
  refine take_cases rfl fun free => ?_
  have taken := freeSlot?_eq_none_iff.1 full false (List.mem_of_getElem? free)
  contradiction

theorem remaining_take {slot : Nat} (free : s.freeSlot? = some slot) :
    (s.take slot).remaining = s.remaining - 1 := by
  have there : (s.taken[slot]? == some false) = true := by simp [taken_of_freeSlot free]
  have length : (s.taken.set slot true).length = s.taken.length := List.length_set
  rw [take, if_pos there, remaining, remaining, length]
  exact Nat.sub_add_eq ..

end State

/-- By the count it is known whether a slot is free. -/
theorem Counted.freeSlot?_eq_none_iff (counted : Counted ctx s) :
    s.freeSlot? = none ↔ s.remaining = 0 := by
  have bound : s.taken.count true ≤ s.taken.length := List.count_le_length
  rw [State.freeSlot?_eq_none_iff, State.remaining, counted.count]
  constructor
  · intro full
    have all : s.taken.count true = s.taken.length :=
      List.count_eq_length.2 fun taken member => (full taken member).symm
    omega
  · intro none taken member
    have all : s.taken.count true = s.taken.length := by omega
    exact (List.count_eq_length.1 all taken member).symm

/-- The taken slots are counted, and the last slot is open only where no slot is free. -/
structure Accounted (ctx : Context) (s : State) : Prop extends Counted ctx s where
  full : s.lastSlot ≠ none → s.freeSlot? = none

namespace Accounted

theorem congr (accounted : Accounted ctx s) (taken : s'.taken = s.taken)
    (count : s'.takenCount = s.takenCount)
    (last : s'.lastSlot ≠ none → s.lastSlot ≠ none) : Accounted ctx s' where
  toCounted := accounted.toCounted.congr taken count
  full opened := by
    rw [State.freeSlot?, taken]
    exact accounted.full (last opened)

theorem take (accounted : Accounted ctx s) (slot : Nat) : Accounted ctx (s.take slot) where
  toCounted := accounted.toCounted.taken slot
  full opened := by
    have before : s.lastSlot ≠ none := by
      rw [State.take_frame] at opened
      exact opened
    have full := accounted.full before
    rw [State.take_of_full full]
    exact full

theorem markFilled (accounted : Accounted ctx s) (option : OptionDecl) :
    Accounted ctx (s.markFilled ctx option) :=
  State.markFilled_cases accounted (fun _ _ => accounted.congr rfl rfl id)
    fun slot _ => accounted.take slot

/-! ## Giving values to options -/

/-- Where the last slot is opened, the slot that is taken is the only free one. -/
theorem fillSlot (accounted : Accounted ctx s) (value : String) (start : Cursor) (stop : Nat)
    (long : Bool) : Accounted ctx (s.fillSlot ctx value start stop long) := by
  refine State.fillSlot_cases accounted
    fun slot option value spanStart lastSlot free _ _ last => ?_
  let filled : State := { s with
    held := none
    lastSlot := lastSlot
    lastFilled := some option.name }
  have counted : Counted ctx (filled.setValue option.name value spanStart stop) :=
    accounted.toCounted.congr rfl rfl
  refine ⟨counted.taken slot, fun opened => ?_⟩
  rw [State.take_frame] at opened
  have only : s.remaining = 1 := by
    cases last with
    | same =>
        have full := accounted.full opened
        rw [free] at full
        contradiction
    | opens _ only => exact only
  have free' : (filled.setValue option.name value spanStart stop).freeSlot? = some slot := free
  rw [(counted.taken slot).freeSlot?_eq_none_iff, State.remaining_take free']
  exact Nat.sub_eq_zero_of_le only.le

/-! ## Steps -/

theorem put (accounted : Accounted ctx s) (put : State.Put ctx s s') : Accounted ctx s' := by
  cases put with
  | hold => exact accounted.congr rfl rfl id
  | append => exact accounted.congr rfl rfl id
  | fillSlot => exact accounted.fillSlot ..
  | fillNamed =>
      apply markFilled
      exact accounted.congr rfl rfl id
  | closeLastSlot =>
      rw [State.closeLastSlot_frame]
      exact accounted.congr rfl rfl fun opened => absurd rfl opened

theorem move {t : Token} (accounted : Accounted ctx s) (move : State.Move ctx t s s') :
    Accounted ctx s' := by
  cases move with
  | write write =>
      cases write with
      | put put => exact accounted.put put
      | note => exact accounted.congr rfl rfl id
      | take _ _ slot => exact accounted.take slot
  | decide => exact accounted.congr rfl rfl id
  | openNamed => exact accounted.congr rfl rfl id

theorem step (accounted : Accounted ctx s) (t : Token) : Accounted ctx (s.step ctx t) :=
  (State.moves_step s t).invariant (fun move accounted => accounted.move move) accounted

theorem started (ctx : Context) (message : Option Message) :
    Accounted ctx (State.started ctx message) where
  toCounted := by
    unfold State.started
    cases filled : (State.initial ctx).fillReplied? ctx message with
    | none => exact .initial ctx
    | some s => exact fillReplied?_counted filled
  full opened := absurd (State.started_untouched ctx message).lastSlot opened

end Accounted

/-! ## Between tokens -/

/-- What is open or held excludes other things, and the slots are counted. -/
structure Exclusive (ctx : Context) (s : State) : Prop where
  slots : s.taken.length = ctx.table.slots.length
  counted : s.takenCount = s.taken.count true
  lastOrLong : s.lastSlot = none ∨ s.longText = none
  /-- With the last slot no option is open, and every slot is taken. -/
  last : s.lastSlot ≠ none → s.named = none ∧ ∀ taken ∈ s.taken, taken = true
  /-- With an option that takes all text no long text is open. -/
  whole : ∀ named ∈ s.named, named.option.takesOneValue ctx.config.singleValue = false →
    s.longText = none
  held : s.held ≠ none → s.named = none ∧ s.lastSlot = none

theorem Exclusive.of_reads {p : String → Prop} {mark bound : Nat}
    (reads : State.Reads ctx p mark bound s) (accounted : Accounted ctx s) : Exclusive ctx s where
  slots := accounted.slots
  counted := accounted.count
  lastOrLong := by
    cases reads.phase with
    | slots _ noLast => exact .inl noLast
    | single _ _ _ noLast _ => exact .inl noLast
    | whole _ _ _ _ _ noLast _ _ => exact .inl noLast
    | last _ _ _ _ _ noLong => exact .inr noLong
  last opened := by
    refine ⟨?_, State.freeSlot?_eq_none_iff.1 (accounted.full opened)⟩
    cases reads.phase with
    | slots _ noLast => exact absurd noLast opened
    | single _ _ _ noLast _ => exact absurd noLast opened
    | whole _ _ _ _ _ noLast _ _ => exact absurd noLast opened
    | last _ _ _ noNamed _ _ => exact noNamed
  whole named opened takesAll := by
    cases reads.phase with
    | slots noNamed _ => simp [noNamed] at opened
    | single opened' single _ _ _ =>
        obtain rfl := Option.some.inj (opened'.symm.trans opened)
        simp [single] at takesAll
    | whole _ _ _ _ _ _ _ noLong => exact noLong
    | last _ _ _ noNamed _ _ => simp [noNamed] at opened
  held filled := by
    cases reads.phase with
    | slots noNamed noLast => exact ⟨noNamed, noLast⟩
    | single _ _ _ _ noHeld => exact absurd noHeld filled
    | whole _ _ _ _ _ _ noHeld _ => exact absurd noHeld filled
    | last _ _ _ _ noHeld _ => exact absurd noHeld filled

namespace State

/-- The states of a parse in front of its first token and behind each one. -/
def between (ctx : Context) (message : Option Message) : List State :=
  started ctx message :: (runTransitions ctx message).map (·.after)

/-- What tokens and the characters between them keep, as the place moves on, holds behind each
token. -/
theorem forall_transitions_at {p : Cursor → State → Prop}
    (skip : ∀ (c : Cursor) (s : State) (x : Char) (rest : List Char), c.rest = x :: rest →
      p c s → p (c.past [x] rest) s)
    (token : ∀ (c : Cursor) (s : State) (kind : TokenKind) (text rest : List Char),
      c.rest = text ++ rest → TokenFront ctx.patterns.delimiters kind text rest → p c s →
      p (c.past text rest) (s.step ctx (.reading kind c text rest)))
    {c : Cursor} (start : p c s) :
    ∀ tr ∈ s.transitions ctx (tokensAt ctx.patterns.delimiters c), ∃ c, p c tr.after := by
  induction c using tokensAt_induction ctx.patterns.delimiters generalizing s with
  | finish c ends => simp [tokensAt_end ends, transitions]
  | skip c x rest split _ none ih =>
      rw [tokensAt_skip split none]
      exact ih (skip c s x rest split start)
  | token c kind text rest split front found ih =>
      have stepped := token c s kind text rest split front start
      rw [tokensAt_token split found, transitions]
      split
      · simp
      · intro tr member
        rcases List.mem_cons.1 member with rfl | later
        · exact ⟨_, stepped⟩
        · exact ih stepped tr later

theorem ReadsAt.started (ctx : Context) (p : String → Prop) (message : Option Message) :
    ReadsAt ctx p (Cursor.start ctx.content) (State.started ctx message) := by
  unfold State.started
  cases filled : (State.initial ctx).fillReplied? ctx message with
  | none => exact .initial ctx p
  | some s => exact .fillReplied? filled

theorem exclusive_of_mem_between {message : Option Message} (member : s ∈ between ctx message) :
    Exclusive ctx s := by
  -- No names are asked about, so that no option has to be left out.
  have outside : SingleOutside ctx fun _ => False := fun _ _ _ _ => id
  have reads := ReadsAt.started ctx (fun _ => False) message
  have accounted := Accounted.started ctx message
  rcases List.mem_cons.1 member with rfl | behind
  · exact .of_reads reads.reads accounted
  · obtain ⟨tr, inside, rfl⟩ := List.mem_map.1 behind
    unfold runTransitions at inside
    split at inside
    · simp at inside
    · have kept := forall_transitions_at
        (p := fun c s => ReadsAt ctx (fun _ => False) c s ∧ Accounted ctx s)
        (fun c s x rest _ both => ⟨both.1.skip x rest, both.2⟩)
        (fun c s kind text rest split front both =>
          ⟨both.1.step (t := .reading kind c text rest) outside front split rfl, both.2.step _⟩)
        ⟨reads, accounted⟩ tr inside
      obtain ⟨c, reads, accounted⟩ := kept
      exact .of_reads reads.reads accounted

end State

end Parse

open Parse

namespace Command

def context (command : Command) (shared : Config) (content : String) : Context :=
  let table := Table.ofCommand command
  let config := table.configFor shared
  ⟨content.toList, table, config, .ofConfig config⟩

/-- Between any two tokens of a parse the slots are counted, and what is open and held excludes
other things: whatever is declared, whatever the settings, the text and the message are. -/
theorem parse_exclusive (command : Command) (shared : Config) (content : String)
    (message : Option Message) {s : State}
    (member : s ∈ State.between (command.context shared content) message) :
    Exclusive (command.context shared content) s :=
  State.exclusive_of_mem_between member

/-- The last slot waits for the rest of the text. -/
theorem parse_exclusive_last :
    ∃ s ∈ State.between (context ⟨"go", [{ name := "x" }], none⟩ {} "foo bar") none,
      s.lastSlot ≠ none ∧ s.named = none ∧ s.longText = none ∧ s.held = none ∧
        s.takenCount = s.taken.count true ∧ ∀ taken ∈ s.taken, taken = true := by
  obtain ⟨s, member, opened⟩ :
      ∃ s ∈ State.between (context ⟨"go", [{ name := "x" }], none⟩ {} "foo bar") none,
        s.lastSlot.isSome = true := by decide +kernel
  have exclusive := parse_exclusive ⟨"go", [{ name := "x" }], none⟩ {} "foo bar" none member
  have opened : s.lastSlot ≠ none := Option.isSome_iff_ne_none.1 opened
  obtain ⟨noNamed, all⟩ := exclusive.last opened
  refine ⟨s, member, opened, noNamed, exclusive.lastOrLong.resolve_left opened, ?_,
    exclusive.counted, all⟩
  by_contra filled
  exact opened (exclusive.held filled).2

end Command

end ChatArgs
