import ChatArgs.Proofs.Parse.NamedOption

/-!
# What placing text leaves as it is

Text that becomes a value changes what is found, what is taken, and what is held. It opens
and closes nothing but the named option that takes it and the last slot.
-/

namespace ChatArgs.Parse

open Text

namespace State

variable {ctx : Context} {s : State}

/-! ## Giving a value -/

theorem fillSlot_frame (ctx : Context) (value : String) (start : Cursor) (stop : Nat)
    (long : Bool) (s : State) :
    s.fillSlot ctx value start stop long =
      { s with
        values := (s.fillSlot ctx value start stop long).values
        spans := (s.fillSlot ctx value start stop long).spans
        taken := (s.fillSlot ctx value start stop long).taken
        takenCount := (s.fillSlot ctx value start stop long).takenCount
        held := (s.fillSlot ctx value start stop long).held
        lastSlot := (s.fillSlot ctx value start stop long).lastSlot
        lastFilled := (s.fillSlot ctx value start stop long).lastFilled } := by
  refine fillSlot_cases rfl fun slot option value spanStart lastSlot _ _ _ _ => ?_
  rw [take_frame]
  rfl

theorem fillSlot_lastSlot (value : String) (start : Cursor) (stop : Nat) :
    (s.fillSlot ctx value start stop true).lastSlot = s.lastSlot := by
  refine fillSlot_cases rfl fun slot option value spanStart lastSlot _ _ _ last => ?_
  rw [take_frame]
  cases last with
  | same => rfl
  | opens _ _ outside _ => contradiction

theorem fillSlot_held (noHeld : s.held = none) (value : String) (start : Cursor) (stop : Nat)
    (long : Bool) : (s.fillSlot ctx value start stop long).held = none := by
  refine fillSlot_cases noHeld fun slot option value spanStart lastSlot _ _ _ _ => ?_
  rw [take_frame]
  rfl

theorem fillSlot_named (ctx : Context) (s : State) (value : String) (start : Cursor)
    (stop : Nat) (long : Bool) :
    (s.fillSlot ctx value start stop long).named = s.named := by
  rw [fillSlot_frame]

theorem place_held (noHeld : s.held = none) (value : String) (start : Cursor) (stop : Nat)
    (long : Bool) : (s.place ctx value start stop long).held = none := by
  refine place_cases ?named ?apart ?slot
  case named =>
    intro named _
    rw [fillNamed, markFilled_frame]
    exact noHeld
  case apart => exact fun _ _ _ _ => fillSlot_held (fillSlot_held rfl ..) ..
  case slot => exact fun _ _ => fillSlot_held noHeld ..

theorem flushHeld_held (stop : Nat) : (s.flushHeld ctx stop).held = none :=
  flushHeld_cases id fun _ _ => place_held rfl ..

theorem closeLastSlot_frame (ctx : Context) (stop : Nat) (post : List Char) (s : State) :
    s.closeLastSlot ctx stop post =
      { s with
        values := (s.closeLastSlot ctx stop post).values
        spans := (s.closeLastSlot ctx stop post).spans
        lastSlot := none
        lastSlotClosed := (s.closeLastSlot ctx stop post).lastSlotClosed } := by
  refine closeLastSlot_cases (fun none => ?_) fun slot value _ => rfl
  rw [← none]

/-- Behind a long text no slot waits for the rest, just as while the text is open. -/
theorem fillSlot_long (ctx : Context) {long : LongText} (opened : s.longText = some long)
    (longText : Option LongText) (value : String) (start : Cursor) (stop : Nat) :
    ({ s.fillSlot ctx value start stop false with longText := longText } : State) =
      { ({ s with longText := none } : State).fillSlot ctx value start stop true with
        longText := longText } := by
  have free' : ({ s with longText := none } : State).freeSlot? = s.freeSlot? := rfl
  cases free : s.freeSlot? with
  | none => simp [fillSlot, free, free']
  | some slot =>
      cases found : ctx.table.slots[slot]? with
      | none => simp [fillSlot, free, free', found]
      | some option =>
          simp only [fillSlot, free, free', found, opened, Bool.not_true, Bool.and_false,
            Bool.false_and, Option.isNone_some, take, setValue]
          split <;> rfl

end State

end ChatArgs.Parse
