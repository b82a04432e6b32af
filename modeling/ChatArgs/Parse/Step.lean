import ChatArgs.Parse.Close

/-! # One token of a parse

What each kind of token does to the state. A marker may open a named option, a quote
may open or close a long text, a word goes to a slot, and a run of backslashes may
escape what follows. While the last slot or a named option that takes all text is
open, only markers count.
-/

namespace ChatArgs.Parse

open Text

namespace State

/-- A marker that opens nothing is plain text. -/
def literalMarker (ctx : Context) (t : Token) (justClosed : Bool) (s : State) : State :=
  if s.lastSlot.isSome then s
  else s.placeText ctx (String.ofList t.text) t.start t.stop.offset t.stop.after justClosed

/-- Opens a named option at a marker: everything open in front of it is closed. Half of
the backslashes in front of the marker belong to the text before it. -/
def openNamed (ctx : Context) (t : Token) (escapes : Nat) (family : Family)
    (option : OptionDecl) (justClosed : Bool) (s : State) : State :=
  let index := t.start.offset
  let kept := backslashes (escapes / 2)
  let s :=
    if s.lastSlot.isNone && !kept.isEmpty then
      s.placeText ctx (String.ofList kept) t.start (index + escapes) none justClosed
    else s
  let s := if s.named.isNone && s.lastSlot.isNone then s.flushHeld ctx index else s
  let s := s.closeNamed ctx (if kept.isEmpty then index else index + escapes)
  let s := s.closeLastSlot ctx index kept
  { s with named := some ⟨option, t.stop, index + escapes, family⟩ }

/-- A marker of a declared option, in a family that may open options. -/
def declaredMarker (ctx : Context) (t : Token) (escapes : Nat) (opening : Opening)
    (option : OptionDecl) (name : String) (justClosed : Bool) (s : State) : State :=
  match opening with
  | .hyphens count =>
      if escapes % 2 == 1 then
        if s.lastSlot.isNone then
          let text := backslashes (escapes / 2) ++ List.replicate count '-' ++ name.toList
          s.placeText ctx (String.ofList text) t.start t.stop.offset t.stop.after justClosed
        else s
      else s.openNamed ctx t escapes .hyphen option justClosed
  | .colon => s.openNamed ctx t escapes .colon option justClosed

/-- A marker outside of long texts. -/
def onMarker (ctx : Context) (t : Token) (escapes : Nat) (opening : Opening) (name : String)
    (justClosed : Bool) (s : State) : State :=
  match ctx.table.option? name with
  | none => s.literalMarker ctx t justClosed
  | some option =>
      if ctx.config.oneFamily then
        match s.family with
        | none =>
            ({ s with family := some opening.family } : State).declaredMarker ctx t escapes
              opening option name justClosed
        | some family =>
            if family == opening.family then
              s.declaredMarker ctx t escapes opening option name justClosed
            else s.literalMarker ctx t justClosed
      else s.declaredMarker ctx t escapes opening option name justClosed

/-- Quotes are plain text here: in the last slot, if the configuration says so. -/
def quotesArePlain (ctx : Context) (s : State) : Bool :=
  ctx.config.plainLast.isSome && s.named.isNone && s.oneSlotLeft

/-- A run of backslashes. In front of a delimiter, a blank or the end its odd member is
an escape; in a long text only the quote that closes it counts. -/
def onBackslashes (ctx : Context) (t : Token) (count : Nat) (justClosed : Bool)
    (s : State) : State :=
  let next := t.stop.after
  let counts := match s.longText with
    | some long => next == some long.quote.char
    | none => true
  if !counts then s
  else
    let isQuote := (next.bind Quote.ofChar?).isSome
    let odd := count % 2 == 1
    let escaping := odd && !(isQuote && s.quotesArePlain ctx) &&
      ctx.patterns.delimiters.escapesNext s.family next
    let s := if escaping then { s with escape := some (t.start, t.stop.offset) } else s
    if s.longText.isSome then s
    else
      let kept := backslashes (if odd && !escaping then count / 2 + 1 else count / 2)
      if kept.isEmpty then s
      else s.placeText ctx (String.ofList kept) t.start t.stop.offset next justClosed

/-- The end of a code block whose closing quotes start at `closing`. A first line without
blanks is the language; the line feeds around the code do not belong to it. -/
def closeCodeBlock (ctx : Context) (long : LongText) (closing : Cursor) (s : State) : State :=
  let block := long.body.textTo closing.offset
  let language := block.takeWhile fun c => !isBlank c
  let hasLanguage := !language.isEmpty && (block.drop language.length).head? == some '\n'
  let fillsSlot := ctx.config.languageAsValue && s.named.isNone
  let behind := long.body.forward (language.length + 1)
  let s :=
    if !fillsSlot then s
    else if hasLanguage then
      s.place ctx (String.ofList language) long.body behind.offset false
    else match s.freeSlot? with
      | some slot => s.take slot
      | none => s
  let body := if hasLanguage then behind else long.body
  let body := if body.after == some '\n' then body.next else body
  let stop := if closing.before == some '\n' then closing.offset - 1 else closing.offset
  let closed : LongText := { long with body := body }
  ({ s with longText := some closed } : State).closeLongText ctx stop

/-- A quote like the one that opened the long text. Quotes in a row open or close
together; three backticks make a code block, which only such a run can close. -/
def onSameQuote (ctx : Context) (t : Token) (long : LongText) (s : State) : State :=
  let index := t.start.offset
  if long.body.offset == index then
    { s with longText := some { long with body := t.stop } }
  else
    let again := t.stop.after == some long.quote.char
    match again, long.closing with
    | true, some run =>
        if run.last + 1 == index then
          { s with longText := some { long with closing := some { run with last := index } } }
        else { s with longText := some { long with closing := some ⟨t.start, index⟩ } }
    | true, none => { s with longText := some { long with closing := some ⟨t.start, index⟩ } }
    | false, closing =>
        let isCodeBlock := long.quote == .backtick && long.body.offset - long.start == 2
        match isCodeBlock, closing with
        | false, some run => s.closeLongText ctx run.first.offset
        | false, none => s.closeLongText ctx index
        | true, none => s
        | true, some run =>
            if index - run.first.offset < 2 then s else s.closeCodeBlock ctx long run.first

/-- A quote opens a long text, or may close the one that the same quote opened. -/
def onQuote (ctx : Context) (t : Token) (quote : Quote) (s : State) : State :=
  match s.longText with
  | none => { s with longText := some ⟨quote, t.stop.offset, t.stop, none⟩ }
  | some long => if long.quote == quote then s.onSameQuote ctx t long else s

/-- A delimiter is a value here: where quotes are plain text, unless it opens a code block
that the configuration still reads as one. -/
def delimiterIsValue (ctx : Context) (t : Token) (s : State) : Bool :=
  match ctx.config.plainLast with
  | some plain =>
      !(plain.keepCodeBlocks && ['`', '`', '`'].isPrefixOf t.start.rest) &&
        s.longText.isNone && s.quotesArePlain ctx
  | none => false

/-- A delimiter that is not escaped. -/
def onBareDelimiter (ctx : Context) (t : Token) (c : Char) (justClosed : Bool)
    (s : State) : State :=
  if s.delimiterIsValue ctx t then
    s.place ctx (String.ofList [c]) t.start t.stop.offset false
  else match Quote.ofChar? c with
    | none =>
        if s.longText.isNone then
          s.placeText ctx (String.ofList [c]) t.start t.stop.offset t.stop.after justClosed
        else s
    | some quote => s.onQuote ctx t quote

def onDelimiter (ctx : Context) (t : Token) (c : Char) (justClosed : Bool)
    (s : State) : State :=
  match s.escape.filter (·.2 == t.start.offset) with
  | some (start, _) =>
      let s := { s with escape := none }
      if s.longText.isNone then
        s.placeText ctx (String.ofList [c]) start t.stop.offset t.stop.after justClosed
      else s
  | none => ({ s with escape := none } : State).onBareDelimiter ctx t c justClosed

/-- A word: glued to the value in front of it when nothing stands between, else a value. -/
def onWord (ctx : Context) (t : Token) (justClosed : Bool) (s : State) : State :=
  let text := String.ofList t.text
  let gap := match t.start.before with
    | some c => isGap c
    | none => false
  let glued := !(justClosed || s.held.isSome || gap)
  match glued, s.lastFilled with
  | true, some last => s.append last text t.stop.offset
  | _, _ => s.place ctx text t.start t.stop.offset false

/-- A token that opens no named option. -/
def onOther (ctx : Context) (t : Token) (justClosed : Bool) (s : State) : State :=
  let single := (s.openSingle? ctx).isSome
  let atLine := single && t.kind == .lineFeeds && s.longText.isNone && s.lastSlot.isNone
  match atLine, s.named with
  | true, some named => s.closeNamed ctx named.start.offset
  | _, _ =>
      if s.lastSlot.isSome || (s.named.isSome && !single) then s
      else match t.kind with
        | .backslashes count => s.onBackslashes ctx t count justClosed
        | .delimiter c => s.onDelimiter ctx t c justClosed
        | .word =>
            if single && (s.lastSlotClosed || s.freeSlot?.isNone) then s
            else if s.longText.isNone then s.onWord ctx t justClosed
            else s
        | _ => s

def step (ctx : Context) (s : State) (t : Token) : State :=
  let justClosed := s.justClosed
  let s := { s with justClosed := false }
  match t.kind, s.longText with
  | .marker escapes opening name, none => s.onMarker ctx t escapes opening name justClosed
  | _, _ => s.onOther ctx t justClosed

end State

end ChatArgs.Parse
