import ChatArgs.Proofs.Parse.Keys
import ChatArgs.Proofs.Parse.Sweep

/-!
# The steps of a parse

The result of a parse does not tell what was open or held on the way to it. `runTransitions` lists
the steps of a parse, each with the states around it; what a step keeps holds around all of them.
-/

namespace ChatArgs

namespace Parse

open Text

def Token.family? (t : Token) : Option Family :=
  match t.kind with
  | .marker _ opening _ => some opening.family
  | _ => none

namespace State

structure Transition where
  before : State
  token : Token
  after : State

/-- The named option is open behind the token, and was not in front of it. -/
def Transition.Opens (tr : Transition) (named : Named) : Prop :=
  tr.after.named = some named ∧ tr.before.named ≠ some named

def transitions (ctx : Context) (s : State) : List Token → List Transition
  | [] => []
  | t :: ts =>
      if s.stops ctx then [] else ⟨s, t, s.step ctx t⟩ :: transitions ctx (s.step ctx t) ts

def behind (s : State) (trs : List Transition) : State :=
  trs.foldl (fun _ tr => tr.after) s

def started (ctx : Context) (message : Option Message) : State :=
  ((initial ctx).fillReplied? ctx message).getD (initial ctx)

/-- The steps of a whole parse. There are none where the author replied to fills all there is. -/
def runTransitions (ctx : Context) (message : Option Message) : List Transition :=
  if ((initial ctx).fillReplied? ctx message).any (·.allFilled ctx) then []
  else
    (started ctx message).transitions ctx
      (tokensAt ctx.patterns.delimiters (Cursor.start ctx.content))

variable {ctx : Context} {s : State}

@[simp] theorem behind_nil (s : State) : s.behind [] = s := rfl

@[simp] theorem behind_cons (s : State) (tr : Transition) (trs : List Transition) :
    s.behind (tr :: trs) = tr.after.behind trs := rfl

theorem behind_append (s : State) (front back : List Transition) :
    s.behind (front ++ back) = (s.behind front).behind back :=
  List.foldl_append

theorem behind_concat (s : State) (front : List Transition) (tr : Transition) :
    s.behind (front ++ [tr]) = tr.after := by
  rw [behind_append, behind_cons]
  rfl

theorem steps_eq_behind (ctx : Context) (s : State) (ts : List Token) :
    s.steps ctx ts = s.behind (s.transitions ctx ts) := by
  induction ts generalizing s with
  | nil => rfl
  | cons t ts ih =>
      rw [steps, transitions]
      split
      · rfl
      · exact ih _

/-- What every step keeps holds around every step. -/
theorem forall_transitions {p : State → Prop} (start : p s) {ts : List Token}
    (keeps : ∀ t ∈ ts, ∀ s, p s → p (s.step ctx t)) :
    ∀ tr ∈ s.transitions ctx ts,
      tr.token ∈ ts ∧ p tr.before ∧ tr.after = tr.before.step ctx tr.token := by
  induction ts generalizing s with
  | nil => simp [transitions]
  | cons t ts ih =>
      rw [transitions]
      split
      · simp
      · intro tr member
        rcases List.mem_cons.1 member with rfl | member
        · exact ⟨List.mem_cons_self, start, rfl⟩
        · have later := ih (keeps t List.mem_cons_self s start)
            (fun t inside => keeps t (List.mem_cons_of_mem _ inside)) tr member
          exact ⟨List.mem_cons_of_mem t later.1, later.2⟩

theorem behind_transitions {p : State → Prop} (start : p s) {ts : List Token}
    (keeps : ∀ t ∈ ts, ∀ s, p s → p (s.step ctx t)) : p (s.behind (s.transitions ctx ts)) := by
  induction ts generalizing s with
  | nil => exact start
  | cons t ts ih =>
      rw [transitions]
      split
      · exact start
      · exact ih (keeps t List.mem_cons_self s start)
          fun t inside => keeps t (List.mem_cons_of_mem _ inside)

/-- Behind some steps the parse goes on with the other tokens. -/
theorem transitions_eq_append {ts : List Token} {front back : List Transition}
    (split : s.transitions ctx ts = front ++ back) :
    ∃ ts', ts' <:+ ts ∧ back = (s.behind front).transitions ctx ts' := by
  induction front generalizing s ts with
  | nil => exact ⟨ts, List.suffix_refl ts, split.symm⟩
  | cons tr front ih =>
      cases ts with
      | nil => simp [transitions] at split
      | cons t ts =>
          rw [transitions] at split
          split at split
          · simp at split
          · obtain ⟨rfl, later⟩ := List.cons.inj split
            obtain ⟨ts', suffix, rest⟩ := ih later
            exact ⟨ts', suffix.trans (List.suffix_cons t ts), rest⟩

/-! ## From the start to the end -/

/-- In front of the first token nothing is open and nothing is held. -/
structure Untouched (s : State) : Prop where
  longText : s.longText = none
  held : s.held = none
  family : s.family = none
  named : s.named = none
  lastSlot : s.lastSlot = none

theorem started_untouched (ctx : Context) (message : Option Message) :
    Untouched (started ctx message) := by
  unfold started
  cases filled : (initial ctx).fillReplied? ctx message with
  | none => exact ⟨rfl, rfl, rfl, rfl, rfl⟩
  | some s =>
      obtain ⟨option, replied, slot, -, -, rfl⟩ := fillReplied?_eq_some filled
      rw [Option.getD_some, take_frame]
      exact ⟨rfl, rfl, rfl, rfl, rfl⟩

theorem started_slots (ctx : Context) (message : Option Message) :
    (started ctx message).taken.length = ctx.table.slots.length := by
  unfold started
  cases filled : (initial ctx).fillReplied? ctx message with
  | none => exact List.length_map ..
  | some s =>
      obtain ⟨option, replied, slot, -, -, rfl⟩ := fillReplied?_eq_some filled
      rw [Option.getD_some, take]
      split
      · simp [initial]
      · simp [initial]

theorem closeAll_of_alone (noLast : s.lastSlot = none) (noNamed : s.named = none) :
    s.closeAll ctx = s.closeLongText ctx ctx.length := by
  have last : s.closeLastSlot ctx ctx.length [] = s := by simp [closeLastSlot, noLast]
  have named : s.closeNamed ctx ctx.length = s := by simp [closeNamed, noNamed]
  simp only [closeAll, last, named]

theorem closeAll_of_closed (noLast : s.lastSlot = none) (noNamed : s.named = none)
    (noLong : s.longText = none) : s.closeAll ctx = s := by
  rw [closeAll_of_alone noLast noNamed, closeLongText, noLong]

/-- A parse makes its steps and closes what is open behind them. -/
theorem run_eq_closeAll (ctx : Context) (message : Option Message) :
    run ctx message =
      ((started ctx message).behind (runTransitions ctx message)).closeAll ctx := by
  have untouched := started_untouched ctx message
  have swept (s : State) : s.steps ctx (tokens ctx.patterns.delimiters ctx.content) =
      s.behind (s.transitions ctx
        (tokensAt ctx.patterns.delimiters (Cursor.start ctx.content))) := steps_eq_behind ctx s _
  rw [runTransitions, run]
  unfold started at untouched ⊢
  cases filled : (initial ctx).fillReplied? ctx message with
  | none => simp [swept]
  | some s =>
      rw [filled] at untouched
      cases all : s.allFilled ctx with
      | false => simp [all, swept]
      | true =>
          have closed : s.closeAll ctx = s :=
            closeAll_of_closed untouched.lastSlot untouched.named untouched.longText
          simpa [all] using closed.symm

theorem behind_runTransitions {p : State → Prop} {message : Option Message}
    (start : p (started ctx message))
    (keeps : ∀ t ∈ tokensAt ctx.patterns.delimiters (Cursor.start ctx.content), ∀ s, p s →
      p (s.step ctx t)) :
    p ((started ctx message).behind (runTransitions ctx message)) := by
  unfold runTransitions
  split
  · exact start
  · exact behind_transitions start keeps

/-- What holds in front of the first token and is kept by every step holds around every step. -/
theorem forall_runTransitions {p : State → Prop} {message : Option Message}
    (start : p (started ctx message))
    (keeps : ∀ t ∈ tokensAt ctx.patterns.delimiters (Cursor.start ctx.content), ∀ s, p s →
      p (s.step ctx t)) :
    ∀ tr ∈ runTransitions ctx message,
      tr.token ∈ tokensAt ctx.patterns.delimiters (Cursor.start ctx.content) ∧ p tr.before ∧
        tr.after = tr.before.step ctx tr.token := by
  unfold runTransitions
  split
  · simp
  · exact forall_transitions start keeps

end State

end Parse

open Parse

namespace Command

def transitions (command : Command) (shared : Config) (content : String)
    (message : Option Message) : List State.Transition :=
  let table := Table.ofCommand command
  let config := table.configFor shared
  if table.optionCount == 0 then []
  else State.runTransitions ⟨content.toList, table, config, .ofConfig config⟩ message

theorem transitions_eq {command : Command} {shared config : Config}
    (counted : 0 < (Table.ofCommand command).optionCount)
    (configured : (Table.ofCommand command).configFor shared = config) (content : String)
    (message : Option Message) :
    command.transitions shared content message = State.runTransitions
      ⟨content.toList, .ofCommand command, config, .ofConfig config⟩ message := by
  have filled : ¬ ((Table.ofCommand command).optionCount == 0) = true := by
    simp only [beq_iff_eq]
    omega
  simp only [transitions, configured]
  rw [if_neg filled]

end Command

end ChatArgs
