import ChatArgs.Parse.State

/-! # Giving values to options

The ways in which text becomes the value of an option: the next free slot takes it,
a named option that takes one value takes it, or something that was open is closed.
Text between words is glued to the value in front, held for the next one, or placed
as a value of its own.
-/

namespace ChatArgs.Parse

open Text

namespace State

/-- Gives a value to the next free slot; held text becomes its front. Unless the value
is a long text, the last slot stays open for the rest of the text. -/
def fillSlot (ctx : Context) (value : String) (start : Cursor) (stop : Nat) (long : Bool)
    (s : State) : State :=
  match s.freeSlot? with
  | none => s
  | some slot =>
      match ctx.table.slots[slot]? with
      | none => s
      | some option =>
          let front := match s.held with
            | some held => held.text
            | none => ""
          let spanStart := match s.held with
            | some held => held.start.offset
            | none => start.offset
          let lastSlot :=
            if s.remaining == 1 && !long && s.longText.isNone then
              some ⟨option.name, start, spanStart, front⟩
            else s.lastSlot
          let s := { s with held := none, lastSlot := lastSlot, lastFilled := some option.name }
          (s.setValue option.name (front ++ value) spanStart stop).take slot

/-- The named option that takes one value takes this one. -/
def fillNamed (ctx : Context) (named : Named) (value : String) (start stop : Nat)
    (s : State) : State :=
  let name := named.option.name
  let s := { s with named := none, justClosed := true, lastFilled := some name }
  (s.setValue name value start stop).markFilled ctx named.option

/-- Places a value: an open named option that takes one value takes it, else the next
free slot. Text held in front of a long text is a value of its own. -/
def place (ctx : Context) (value : String) (start : Cursor) (stop : Nat) (long : Bool)
    (s : State) : State :=
  match s.openSingle? ctx with
  | some named => s.fillNamed ctx named value start.offset stop
  | none =>
      match long, s.held with
      | true, some held =>
          (({ s with held := none } : State).fillSlot ctx held.text held.start start.offset
            true).fillSlot ctx value start stop true
      | _, _ => s.fillSlot ctx value start stop long

/-- Closes the last slot: it takes the text up to `stop`, with `post` behind it. -/
def closeLastSlot (ctx : Context) (stop : Nat) (post : List Char) (s : State) : State :=
  match s.lastSlot with
  | none => s
  | some slot =>
      let plain := ctx.config.plainLast.isSome
      let delimiters := ctx.patterns.delimiters
      let raw := slot.start.textTo stop
      let body :=
        if plain && ctx.config.stopWhenFilled && stop == ctx.length then raw
        else
          unescapeWith
            (if plain then delimiters.unquotedEscapes s.family
              else delimiters.textEscapes s.family) raw ++ post
      let value := String.ofList (trim (slot.front.toList ++ body))
      ({ s with lastSlot := none, lastSlotClosed := true } : State).setValue
        slot.name value slot.spanStart stop

/-- Closes a long text at `stop`; its value is placed. -/
def closeLongText (ctx : Context) (stop : Nat) (s : State) : State :=
  match s.longText with
  | none => s
  | some long =>
      let value :=
        unescapeWith (ctx.patterns.delimiters.quoteEscapes long.quote) (long.body.textTo stop)
      ({ s with longText := none, justClosed := true } : State).place ctx
        (String.ofList value) long.body stop true

/-- Backslashes in front of a sign of equality or a colon, directly behind a marker:
the sign is part of the value. Answers the signs kept and the text behind them. -/
def splitSign (cs : List Char) : List Char × List Char :=
  let count := (cs.takeWhile (· == '\\')).length
  match cs.drop count with
  | c :: rest =>
      if count != 0 && (c == '=' || c == ':') then (backslashes (count / 2) ++ [c], rest)
      else ([], cs)
  | [] => ([], cs)

/-- The value of a named option that is closed at `stop`. -/
def namedValue (ctx : Context) (named : Named) (stop : Nat) (s : State) : List Char :=
  let raw := named.start.textTo stop
  let (sign, raw) := match named.family with
    | .hyphen => splitSign raw
    | .colon => ([], raw)
  sign ++ trim (unescapeWith (ctx.patterns.delimiters.markerEscapes s.family named.family) raw)

/-- Closes the named option at `stop`: it takes the text behind its marker. A boolean
option with a hyphen marker and no text is true. -/
def closeNamed (ctx : Context) (stop : Nat) (s : State) : State :=
  match s.named with
  | none => s
  | some named =>
      let name := named.option.name
      let value := s.namedValue ctx named stop
      let isSwitch := named.family == .hyphen && value.all isBlank &&
        named.option.kind == .boolean
      let s := ({ s with named := none, justClosed := true, lastFilled := some name } : State)
        |>.markFilled ctx named.option
      if isSwitch then s.setValue name "true" named.nameStart named.start.offset
      else s.setValue name (String.ofList value) named.start.offset stop

/-- Text is held for the next value. -/
def hold (text : String) (start : Cursor) (s : State) : State :=
  match s.held with
  | some held => { s with held := some { held with text := held.text ++ text } }
  | none => { s with held := some ⟨text, start⟩ }

/-- Held text becomes a value that ends at `stop`. -/
def flushHeld (ctx : Context) (stop : Nat) (s : State) : State :=
  match s.held with
  | some held =>
      ({ s with held := none } : State).place ctx held.text held.start stop false
  | none => s

/-- Places text that stands between words: glued to the value in front of it, held for
the visible character `next` behind it, or as a value of its own. -/
def placeText (ctx : Context) (text : String) (start : Cursor) (stop : Nat)
    (next : Option Char) (justClosed : Bool) (s : State) : State :=
  if s.named.isSome then s
  else
    let glued := s.held.isNone && !justClosed && isVisible start.before
    match glued, s.lastFilled with
    | true, some last => s.append last text stop
    | _, _ =>
        if isVisible next then s.hold text start
        else s.place ctx text start stop false

end State

end ChatArgs.Parse
