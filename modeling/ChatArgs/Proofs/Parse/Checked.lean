import ChatArgs.Parse.Run
import Mathlib.Data.Nat.PSub

/-!
# A parse whose operations can fail

The parse once more, where each operation that is defined for some arguments only answers `none`
for all others: a difference that would be negative, a slice of a text that does not start between
two characters, and a slot that is not there. What cannot fail is taken over from the parse.
-/

namespace ChatArgs.Parse.Checked

open Text

def sliceFrom (text : List Char) (start : Nat) : Option (List Char) :=
  sliceBytes? text start (byteLength text)

/-! ## Slots -/

def remaining (s : State) : Option Nat :=
  s.taken.length.psub s.takenCount

def oneSlotLeft (s : State) : Option Bool := do
  let left ← remaining s
  pure (left ≤ 1)

def take (slot : Nat) (s : State) : Option State := do
  let taken ← s.taken[slot]?
  if taken then pure s
  else pure { s with taken := s.taken.set slot true, takenCount := s.takenCount + 1 }

def markFilled (ctx : Context) (option : OptionDecl) (s : State) : Option State :=
  if option.flag then
    if option.name ∈ s.filledFlags then some s
    else some { s with filledFlags := option.name :: s.filledFlags }
  else match ctx.table.slotOf? option.name with
    | some slot => take slot s
    | none => some s

/-! ## Giving values to options -/

def fillSlot (ctx : Context) (value : String) (start : Cursor) (stop : Nat) (long : Bool)
    (s : State) : Option State :=
  match s.freeSlot? with
  | none => some s
  | some slot => do
      let option ← ctx.table.slots[slot]?
      let left ← remaining s
      let front := match s.held with
        | some held => held.text
        | none => ""
      let spanStart := match s.held with
        | some held => held.start.offset
        | none => start.offset
      let lastSlot :=
        if left == 1 && !long && s.longText.isNone then
          some ⟨option.name, start, spanStart, front⟩
        else s.lastSlot
      let s := { s with held := none, lastSlot := lastSlot, lastFilled := some option.name }
      take slot (s.setValue option.name (front ++ value) spanStart stop)

def fillNamed (ctx : Context) (named : Named) (value : String) (start stop : Nat)
    (s : State) : Option State :=
  let name := named.option.name
  let s := { s with named := none, justClosed := true, lastFilled := some name }
  markFilled ctx named.option (s.setValue name value start stop)

def place (ctx : Context) (value : String) (start : Cursor) (stop : Nat) (long : Bool)
    (s : State) : Option State :=
  match s.openSingle? ctx with
  | some named => fillNamed ctx named value start.offset stop s
  | none =>
      match long, s.held with
      | true, some held => do
          let s ← fillSlot ctx held.text held.start start.offset true { s with held := none }
          fillSlot ctx value start stop true s
      | _, _ => fillSlot ctx value start stop long s

def closeLongText (ctx : Context) (stop : Nat) (s : State) : Option State :=
  match s.longText with
  | none => some s
  | some long =>
      let value :=
        unescapeWith (ctx.patterns.delimiters.quoteEscapes long.quote) (long.body.textTo stop)
      place ctx (String.ofList value) long.body stop true
        { s with longText := none, justClosed := true }

/-- The text behind a sign is a slice of the text behind the marker. -/
def splitSign (cs : List Char) : Option (List Char × List Char) :=
  let count := (cs.takeWhile (· == '\\')).length
  match cs.drop count with
  | c :: _ =>
      if count != 0 && (c == '=' || c == ':') then do
        let rest ← sliceFrom cs (count + 1)
        pure (backslashes (count / 2) ++ [c], rest)
      else some ([], cs)
  | [] => some ([], cs)

def namedValue (ctx : Context) (named : Named) (stop : Nat) (s : State) : Option (List Char) := do
  let raw := named.start.textTo stop
  let (sign, raw) ← (match named.family with
    | .hyphen => splitSign raw
    | .colon => some ([], raw))
  pure
    (sign ++ trim (unescapeWith (ctx.patterns.delimiters.markerEscapes s.family named.family) raw))

def closeNamed (ctx : Context) (stop : Nat) (s : State) : Option State :=
  match s.named with
  | none => some s
  | some named => do
      let name := named.option.name
      let value ← namedValue ctx named stop s
      let isSwitch := named.family == .hyphen && value.all isBlank &&
        named.option.kind == .boolean
      let s ← markFilled ctx named.option
        { s with named := none, justClosed := true, lastFilled := some name }
      if isSwitch then pure (s.setValue name "true" named.nameStart named.start.offset)
      else pure (s.setValue name (String.ofList value) named.start.offset stop)

def flushHeld (ctx : Context) (stop : Nat) (s : State) : Option State :=
  match s.held with
  | some held => place ctx held.text held.start stop false { s with held := none }
  | none => some s

def placeText (ctx : Context) (text : String) (start : Cursor) (stop : Nat)
    (next : Option Char) (justClosed : Bool) (s : State) : Option State :=
  if s.named.isSome then some s
  else
    let glued := s.held.isNone && !justClosed && isVisible start.before
    match glued, s.lastFilled with
    | true, some last => some (s.append last text stop)
    | _, _ =>
        if isVisible next then some (s.hold text start)
        else place ctx text start stop false s

/-! ## Markers -/

def literalMarker (ctx : Context) (t : Token) (justClosed : Bool) (s : State) : Option State :=
  if s.lastSlot.isSome then some s
  else placeText ctx (String.ofList t.text) t.start t.stop.offset t.stop.after justClosed s

def openNamed (ctx : Context) (t : Token) (escapes : Nat) (family : Family)
    (option : OptionDecl) (justClosed : Bool) (s : State) : Option State := do
  let index := t.start.offset
  let kept := backslashes (escapes / 2)
  let s ← (if s.lastSlot.isNone && !kept.isEmpty then
      placeText ctx (String.ofList kept) t.start (index + escapes) none justClosed s
    else some s)
  let s ← (if s.named.isNone && s.lastSlot.isNone then flushHeld ctx index s else some s)
  let s ← closeNamed ctx (if kept.isEmpty then index else index + escapes) s
  let s := s.closeLastSlot ctx index kept
  pure { s with named := some ⟨option, t.stop, index + escapes, family⟩ }

def declaredMarker (ctx : Context) (t : Token) (escapes : Nat) (opening : Opening)
    (option : OptionDecl) (name : String) (justClosed : Bool) (s : State) : Option State :=
  match opening with
  | .hyphens count =>
      if escapes % 2 == 1 then
        if s.lastSlot.isNone then
          let text := backslashes (escapes / 2) ++ List.replicate count '-' ++ name.toList
          placeText ctx (String.ofList text) t.start t.stop.offset t.stop.after justClosed s
        else some s
      else openNamed ctx t escapes .hyphen option justClosed s
  | .colon => openNamed ctx t escapes .colon option justClosed s

def onMarker (ctx : Context) (t : Token) (escapes : Nat) (opening : Opening) (name : String)
    (justClosed : Bool) (s : State) : Option State :=
  match ctx.table.option? name with
  | none => literalMarker ctx t justClosed s
  | some option =>
      if ctx.config.oneFamily then
        match s.family with
        | none =>
            declaredMarker ctx t escapes opening option name justClosed
              { s with family := some opening.family }
        | some family =>
            if family == opening.family then
              declaredMarker ctx t escapes opening option name justClosed s
            else literalMarker ctx t justClosed s
      else declaredMarker ctx t escapes opening option name justClosed s

/-! ## Backslashes and delimiters -/

def quotesArePlain (ctx : Context) (s : State) : Option Bool :=
  if ctx.config.plainLast.isSome && s.named.isNone then oneSlotLeft s else some false

def onBackslashes (ctx : Context) (t : Token) (count : Nat) (justClosed : Bool)
    (s : State) : Option State :=
  let next := t.stop.after
  let counts := match s.longText with
    | some long => next == some long.quote.char
    | none => true
  if !counts then some s
  else do
    let plain ← quotesArePlain ctx s
    let isQuote := (next.bind Quote.ofChar?).isSome
    let odd := count % 2 == 1
    let escaping := odd && !(isQuote && plain) &&
      ctx.patterns.delimiters.escapesNext s.family next
    let s := if escaping then { s with escape := some (t.start, t.stop.offset) } else s
    if s.longText.isSome then pure s
    else
      let kept := backslashes (if odd && !escaping then count / 2 + 1 else count / 2)
      if kept.isEmpty then pure s
      else placeText ctx (String.ofList kept) t.start t.stop.offset next justClosed s

def closeCodeBlock (ctx : Context) (long : LongText) (closing : Cursor) (s : State) :
    Option State := do
  let block := long.body.textTo closing.offset
  let language := block.takeWhile fun c => !isBlank c
  let hasLanguage := !language.isEmpty && (block.drop language.length).head? == some '\n'
  let fillsSlot := ctx.config.languageAsValue && s.named.isNone
  let behind := long.body.forward (language.length + 1)
  let s ← (if !fillsSlot then some s
    else if hasLanguage then
      place ctx (String.ofList language) long.body behind.offset false s
    else match s.freeSlot? with
      | some slot => take slot s
      | none => some s)
  let body := if hasLanguage then behind else long.body
  let body := if body.after == some '\n' then body.next else body
  let stop ← (if closing.before == some '\n' then closing.offset.psub 1 else some closing.offset)
  closeLongText ctx stop { s with longText := some { long with body := body } }

def isCodeBlock (long : LongText) : Option Bool :=
  if long.quote == .backtick then do
    let count ← long.body.offset.psub long.start
    pure (count == 2)
  else some false

def onSameQuote (ctx : Context) (t : Token) (long : LongText) (s : State) : Option State :=
  let index := t.start.offset
  if long.body.offset == index then
    some { s with longText := some { long with body := t.stop } }
  else
    let again := t.stop.after == some long.quote.char
    match again, long.closing with
    | true, some run =>
        if run.last + 1 == index then
          some { s with longText := some { long with closing := some { run with last := index } } }
        else some { s with longText := some { long with closing := some ⟨t.start, index⟩ } }
    | true, none =>
        some { s with longText := some { long with closing := some ⟨t.start, index⟩ } }
    | false, closing => do
        let block ← isCodeBlock long
        match block, closing with
        | false, some run => closeLongText ctx run.first.offset s
        | false, none => closeLongText ctx index s
        | true, none => pure s
        | true, some run =>
            let length ← index.psub run.first.offset
            if length < 2 then pure s else closeCodeBlock ctx long run.first s

def onQuote (ctx : Context) (t : Token) (quote : Quote) (s : State) : Option State :=
  match s.longText with
  | none => some { s with longText := some ⟨quote, t.stop.offset, t.stop, none⟩ }
  | some long => if long.quote == quote then onSameQuote ctx t long s else some s

/-- The delimiter opens a code block. Only at a backtick the text behind it is looked at. -/
def opensCodeBlock (ctx : Context) (t : Token) (c : Char) : Option Bool :=
  if c == '`' then do
    let text ← sliceFrom ctx.content t.start.offset
    pure (['`', '`', '`'].isPrefixOf text)
  else some false

def delimiterIsValue (ctx : Context) (t : Token) (c : Char) (s : State) : Option Bool :=
  match ctx.config.plainLast with
  | none => some false
  | some plain => do
      let block ← opensCodeBlock ctx t c
      let last ← (if s.named.isNone && s.longText.isNone then oneSlotLeft s else some false)
      pure (last && !(plain.keepCodeBlocks && block))

def onBareDelimiter (ctx : Context) (t : Token) (c : Char) (justClosed : Bool)
    (s : State) : Option State := do
  let isValue ← delimiterIsValue ctx t c s
  if isValue then place ctx (String.ofList [c]) t.start t.stop.offset false s
  else match Quote.ofChar? c with
    | none =>
        if s.longText.isNone then
          placeText ctx (String.ofList [c]) t.start t.stop.offset t.stop.after justClosed s
        else pure s
    | some quote => onQuote ctx t quote s

def onDelimiter (ctx : Context) (t : Token) (c : Char) (justClosed : Bool)
    (s : State) : Option State :=
  match s.escape.filter (·.2 == t.start.offset) with
  | some (start, _) =>
      let s := { s with escape := none }
      if s.longText.isNone then do
        let _length ← t.start.offset.psub start.offset
        placeText ctx (String.ofList [c]) start t.stop.offset t.stop.after justClosed s
      else some s
  | none => onBareDelimiter ctx t c justClosed { s with escape := none }

/-! ## Steps and runs -/

def onWord (ctx : Context) (t : Token) (justClosed : Bool) (s : State) : Option State :=
  let text := String.ofList t.text
  let gap := match t.start.before with
    | some c => isGap c
    | none => false
  let glued := !(justClosed || s.held.isSome || gap)
  match glued, s.lastFilled with
  | true, some last => some (s.append last text t.stop.offset)
  | _, _ => place ctx text t.start t.stop.offset false s

def onOther (ctx : Context) (t : Token) (justClosed : Bool) (s : State) : Option State :=
  let single := (s.openSingle? ctx).isSome
  let atLine := single && t.kind == .lineFeeds && s.longText.isNone && s.lastSlot.isNone
  match atLine, s.named with
  | true, some named => closeNamed ctx named.start.offset s
  | _, _ =>
      if s.lastSlot.isSome || (s.named.isSome && !single) then some s
      else match t.kind with
        | .backslashes count => onBackslashes ctx t count justClosed s
        | .delimiter c => onDelimiter ctx t c justClosed s
        | .word =>
            if single && (s.lastSlotClosed || s.freeSlot?.isNone) then some s
            else if s.longText.isNone then onWord ctx t justClosed s
            else some s
        | _ => some s

def step (ctx : Context) (s : State) (t : Token) : Option State :=
  let justClosed := s.justClosed
  let s := { s with justClosed := false }
  match t.kind, s.longText with
  | .marker escapes opening name, none => onMarker ctx t escapes opening name justClosed s
  | _, _ => onOther ctx t justClosed s

def steps (ctx : Context) (s : State) : List Token → Option State
  | [] => some s
  | t :: ts =>
      if s.stops ctx then some s
      else do
        let s ← step ctx s t
        steps ctx s ts

def closeAll (ctx : Context) (s : State) : Option State := do
  let s := s.closeLastSlot ctx ctx.length []
  let s ← closeNamed ctx ctx.length s
  closeLongText ctx ctx.length s

def fillReplied (ctx : Context) (message : Option Message) (s : State) :
    Option (Option State) :=
  match ctx.config.replyFilling, message.bind fun message => message.repliedTo.map (message, ·) with
  | some filling, some (message, replied) =>
      if filling.requirePing && replied != message.author && !message.mentionsUser replied then
        some none
      else match s.freeSlot? with
        | none => some none
        | some slot => do
            let option ← ctx.table.slots[slot]?
            if option.kind == .user then
              let s ← take slot { s with values := s.values.insert option.name replied }
              pure (some s)
            else pure none
  | _, _ => some none

def run (ctx : Context) (message : Option Message) : Option State := do
  let tokens := tokens ctx.patterns.delimiters ctx.content
  let filled ← fillReplied ctx message (State.initial ctx)
  match filled with
  | some s =>
      if s.allFilled ctx then pure s
      else do
        let s ← steps ctx s tokens
        closeAll ctx s
  | none => do
      let s ← steps ctx (State.initial ctx) tokens
      closeAll ctx s

/-- The parse of a text for a command, or nothing if an operation fails. -/
def parse (command : Command) (shared : Config) (content : String) (message : Option Message) :
    Option Args :=
  let table := Table.ofCommand command
  let config := table.configFor shared
  if table.optionCount == 0 then some (.ofContent content)
  else do
    let s ← run ⟨content.toList, table, config, .ofConfig config⟩ message
    pure
      { content := content
        values := matchChoices table.choices config.choices s.values
        spans := s.spans }

end ChatArgs.Parse.Checked
