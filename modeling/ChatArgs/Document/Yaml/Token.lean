import ChatArgs.Document.Yaml.Scalar

/-! # YAML tokens

Structure in YAML is written by brackets or by indentation. The scanner turns both into
tokens: a block collection starts where a deeper column is reached and ends where the
column falls back. A scalar in front of a colon is a key, but that shows only at the
colon; so the scanner remembers where a key could start and puts the key token there
afterwards. Such a key stands in one line and has at most 1024 characters.
-/

namespace ChatArgs.Document.Yaml

/-- A tag as it is written: a handle, which stands for octets, and the octets behind it. -/
structure TagSource where
  handle : String
  suffix : List UInt8
deriving Repr, DecidableEq

inductive Token where
  | versionDirective (major minor : Nat)
  /-- What a handle of tags stands for. -/
  | tagDirective (handle : String) (expansion : List UInt8)
  | documentStart
  | documentEnd
  | blockSequenceStart
  | blockMappingStart
  | blockEnd
  | flowSequenceStart
  | flowSequenceEnd
  | flowMappingStart
  | flowMappingEnd
  | blockEntry
  | flowEntry
  | key
  | value
  | alias (name : String)
  | anchor (name : String)
  | tag (source : TagSource)
  | scalar (source : String) (style : ScalarStyle)
  | streamEnd
deriving Repr, DecidableEq

/-- A place where a key could start. -/
structure KeyCandidate where
  /-- The key has to be one: nothing else can stand there. -/
  required : Bool
  /-- Number of tokens in front. -/
  position : Nat
  /-- Number of characters behind. -/
  left : Nat
  line : Nat
  column : Nat
deriving Repr

structure Scanner where
  place : Place
  tokens : Array Token := #[]
  /-- Column of the innermost block collection, if there is one. -/
  indent : Option Nat := none
  indents : List (Option Nat) := []
  /-- A key may start here. -/
  keyAllowed : Bool := true
  /-- The key candidate of the innermost brackets, and those of the brackets around. -/
  candidate : Option KeyCandidate := none
  outer : List (Option KeyCandidate) := []
deriving Repr

namespace Scanner

def flowLevel (s : Scanner) : Nat :=
  s.outer.length

def inFlow (s : Scanner) : Bool :=
  !s.outer.isEmpty

def emit (s : Scanner) (t : Token) : Scanner :=
  { s with tokens := s.tokens.push t }

def goto (s : Scanner) (p : Place) : Scanner :=
  { s with place := p }

def emitIndicator (s : Scanner) (count : Nat) (t : Token) : Scanner :=
  (s.goto (s.place.skipMany count)).emit t

/-- Drops the key candidate; a required one cannot be dropped. -/
def dropCandidate (s : Scanner) : Option Scanner :=
  match s.candidate with
  | some k => if k.required then none else some { s with candidate := none }
  | none => some s

/-- Drops the key candidate if it is in another line or too far away. -/
def dropStale (s : Scanner) : Option Scanner :=
  match s.candidate with
  | some k =>
      if k.line < s.place.line || s.place.left + 1024 < k.left then s.dropCandidate
      else some s
  | none => some s

/-- Notes that a key could start here. -/
def noteCandidate (s : Scanner) : Option Scanner :=
  if s.keyAllowed then do
    let s ← s.dropCandidate
    let required := !s.inFlow && s.indent == some s.place.column
    some { s with
      candidate := some ⟨required, s.tokens.size, s.place.left, s.place.line, s.place.column⟩ }
  else some s

/-- Starts a block collection if the column is deeper than the innermost one. -/
def rollIndent (s : Scanner) (column position : Nat) (t : Token) : Scanner :=
  let deeper := match s.indent with
    | none => true
    | some n => n < column
  if s.inFlow || !deeper then s
  else
    { s with
      indents := s.indent :: s.indents
      indent := some column
      tokens := s.tokens.insertIdxIfInBounds position t }

def unrollFrom (column : Option Nat) : Nat → Scanner → Scanner
  | 0, s => s
  | fuel + 1, s =>
      let deeper := match s.indent, column with
        | none, _ => false
        | some _, none => true
        | some n, some c => c < n
      if deeper then
        unrollFrom column fuel
          { s.emit .blockEnd with indent := s.indents.head?.getD none, indents := s.indents.tail }
      else s

/-- Ends the block collections that are deeper than the column; `none` ends all. -/
def unrollIndent (s : Scanner) (column : Option Nat) : Scanner :=
  if s.inFlow then s else unrollFrom column (s.indents.length + 1) s

/-- Skips blanks, comments and line breaks in front of a token. Tabs are blanks except
where a key may start outside of brackets. A byte-order mark at the front of a line is
skipped too, but it takes a column. -/
def skipGap : Nat → Scanner → Scanner
  | 0, s => s
  | fuel + 1, s =>
      let tabs := s.inFlow || !s.keyAllowed
      let p := s.place
      let p := if p.column == 0 && p.head? == some '\ufeff' then p.skip else p
      let p := p.skipWhile fun c => c == ' ' || (tabs && c == '\t')
      let p := if p.head? == some '#' then p.skipLine else p
      match p.head? with
      | some c =>
          if isBreak c then
            skipGap fuel
              { s with place := p.skipBreak.2, keyAllowed := !s.inFlow || s.keyAllowed }
          else s.goto p
      | none => s.goto p

/-- A character of names of anchors, handles and directives. -/
def isNameChar (c : Char) : Bool :=
  c.isAlphanum || c == '_' || c == '-'

/-! ## Octets of tags -/

/-- A character that stands for its own octet in a tag. -/
def isTagChar (verbatim : Bool) (c : Char) : Bool :=
  isNameChar c || ";/?:@&=+$.!~*'()".toList.contains c ||
    (verbatim && (c == ',' || c == '[' || c == ']'))

/-- Reads an octet that is written as a percent sign and two hexadecimal digits. -/
def readOctet (p : Place) : Option (Nat × Place) :=
  match p.rest with
  | '%' :: a :: b :: _ =>
      match Plain.digit? a, Plain.digit? b with
      | some high, some low => some (high * 16 + low, p.skipMany 3)
      | _, _ => none
  | _ => none

/-- Number of octets of a character, by the first one; zero when none starts so. -/
def octetCount (lead : Nat) : Nat :=
  if lead < 0x80 then 1
  else if lead < 0xC0 then 0
  else if lead < 0xE0 then 2
  else if lead < 0xF0 then 3
  else if lead < 0xF8 then 4
  else 0

def readContinuation : Nat → Place → Option (List UInt8 × Place)
  | 0, p => some ([], p)
  | count + 1, p => do
      let (octet, p) ← readOctet p
      if octet / 0x40 != 2 then none
      else
        let (rest, p) ← readContinuation count p
        some (UInt8.ofNat octet :: rest, p)

def readOctets (p : Place) : Option (List UInt8 × Place) := do
  let (lead, p) ← readOctet p
  let count := octetCount lead
  if count == 0 then none
  else
    let (rest, p) ← readContinuation (count - 1) p
    some (UInt8.ofNat lead :: rest, p)

def readUriFrom (verbatim : Bool) : Nat → Place → Option (List UInt8 × Place)
  | 0, p => some ([], p)
  | fuel + 1, p =>
      match p.head? with
      | none => some ([], p)
      | some c =>
          if c == '%' then do
            let (octets, p) ← readOctets p
            let (rest, p) ← readUriFrom verbatim fuel p
            some (octets ++ rest, p)
          else if isTagChar verbatim c then do
            let (rest, p) ← readUriFrom verbatim fuel p.skip
            some (UInt8.ofNat c.toNat :: rest, p)
          else some ([], p)

/-- Reads the octets of a tag, up to the first character that cannot belong to one. -/
def readUri (verbatim : Bool) (p : Place) : Option (List UInt8 × Place) :=
  readUriFrom verbatim p.left p

/-- A zero octet ends a tag. -/
def cutAtZero (octets : List UInt8) : List UInt8 :=
  octets.takeWhile (· != 0)

/-! ## Directives -/

def readVersion (p : Place) : Option (Nat × Place) :=
  let digits := p.rest.takeWhile Char.isDigit
  if digits.isEmpty || 9 < digits.length then none
  else (Plain.nat? 10 digits).map fun n => (n, p.skipMany digits.length)

/-- Reads the handle of a tag: one or two marks with a name between. -/
def readHandle (p : Place) : Option (String × Place) :=
  if p.head? != some '!' then none
  else
    let name := p.skip.rest.takeWhile isNameChar
    let behind := p.skipMany (name.length + 1)
    if behind.head? == some '!' then
      some (String.ofList ('!' :: name ++ ['!']), behind.skip)
    else some (String.ofList ('!' :: name), behind)

/-- Reads the arguments of a directive. -/
def readDirective (name : String) (p : Place) : Option (Token × Place) :=
  let p := p.skipWhile isBlank
  if name == "YAML" then do
    let (major, p) ← readVersion p
    if p.head? != some '.' then none
    else
      let (minor, p) ← readVersion p.skip
      some (.versionDirective major minor, p)
  else if name == "TAG" then do
    let (handle, p) ← readHandle p
    if handle != "!" && !handle.endsWith "!" then none
    else if !isBlankOrEnd p.head? || isBreakOrEnd p.head? then none
    else
      let p := p.skipWhile isBlank
      let (uri, p) ← readUri true p
      if uri.isEmpty || !isBlankOrEnd p.head? then none
      else some (.tagDirective handle (cutAtZero uri), p)
  else none

def scanDirective (s : Scanner) : Option Scanner := do
  let s ← (s.unrollIndent none).dropCandidate
  let name := s.place.skip.rest.takeWhile isNameChar
  let p := s.place.skipMany (name.length + 1)
  if name.isEmpty || !isBlankOrEnd p.head? then none
  else
    let (t, p) ← readDirective (String.ofList name) p
    let p := p.skipWhile isBlank
    let p := if p.head? == some '#' then p.skipLine else p
    if !isBreakOrEnd p.head? then none
    else some (({ s with place := p.skipBreak.2, keyAllowed := false } : Scanner).emit t)

/-! ## Indicators -/

def scanDocumentEdge (s : Scanner) (t : Token) : Option Scanner := do
  let s ← (s.unrollIndent none).dropCandidate
  some (({ s with keyAllowed := false } : Scanner).emitIndicator 3 t)

def scanFlowStart (s : Scanner) (t : Token) : Option Scanner := do
  let s ← s.noteCandidate
  some (({ s with
    candidate := none, outer := s.candidate :: s.outer, keyAllowed := true } :
      Scanner).emitIndicator 1 t)

def scanFlowEnd (s : Scanner) (t : Token) : Option Scanner := do
  let s ← s.dropCandidate
  let s : Scanner := match s.outer with
    | [] => s
    | k :: outer => { s with candidate := k, outer := outer }
  some (({ s with keyAllowed := false } : Scanner).emitIndicator 1 t)

def scanFlowEntry (s : Scanner) : Option Scanner := do
  let s ← s.dropCandidate
  some (({ s with keyAllowed := true } : Scanner).emitIndicator 1 .flowEntry)

def scanBlockEntry (s : Scanner) : Option Scanner := do
  if !s.inFlow && !s.keyAllowed then none
  else
    let s := s.rollIndent s.place.column s.tokens.size .blockSequenceStart
    let s ← s.dropCandidate
    some (({ s with keyAllowed := true } : Scanner).emitIndicator 1 .blockEntry)

def scanKey (s : Scanner) : Option Scanner := do
  if !s.inFlow && !s.keyAllowed then none
  else
    let s := s.rollIndent s.place.column s.tokens.size .blockMappingStart
    let s ← s.dropCandidate
    some (({ s with keyAllowed := !s.inFlow } : Scanner).emitIndicator 1 .key)

/-- A colon in front of a value. A key candidate in front becomes a key. -/
def scanValue (s : Scanner) : Option Scanner :=
  match s.candidate with
  | some k =>
      let s := { s with tokens := s.tokens.insertIdxIfInBounds k.position .key }
      let s := s.rollIndent k.column k.position .blockMappingStart
      some (({ s with candidate := none, keyAllowed := false } : Scanner).emitIndicator 1 .value)
  | none =>
      if !s.inFlow && !s.keyAllowed then none
      else
        let s := s.rollIndent s.place.column s.tokens.size .blockMappingStart
        some (({ s with keyAllowed := !s.inFlow } : Scanner).emitIndicator 1 .value)

def scanAnchor (s : Scanner) (make : String → Token) : Option Scanner := do
  let s ← s.noteCandidate
  let name := s.place.skip.rest.takeWhile isNameChar
  let p := s.place.skipMany (name.length + 1)
  let ends := isBlankOrEnd p.head? || match p.head? with
    | some c => "?:,]\x7d%@`".toList.contains c
    | none => true
  if name.isEmpty || !ends then none
  else some (({ s with place := p, keyAllowed := false } : Scanner).emit (make (String.ofList name)))

/-- Reads a tag in one of its three forms. A lone mark is a tag of its own, whatever the
handle of the same form stands for. -/
def readTag (p : Place) : Option (TagSource × Place) :=
  if p.peek? 1 == some '<' then do
    let (uri, p) ← readUri true (p.skipMany 2)
    if uri.isEmpty || p.head? != some '>' then none
    else some (⟨"", cutAtZero uri⟩, p.skip)
  else do
    let (handle, p) ← readHandle p
    let (uri, p) ← readUri false p
    if handle != "!" && handle.endsWith "!" then
      if uri.isEmpty then none else some (⟨handle, cutAtZero uri⟩, p)
    else
      let suffix := cutAtZero (handle.toUTF8.toList.tail ++ uri)
      some (if suffix.isEmpty then ⟨"", "!".toUTF8.toList⟩ else ⟨"!", suffix⟩, p)

def scanTag (s : Scanner) : Option Scanner := do
  let s ← s.noteCandidate
  let (source, p) ← readTag s.place
  if isBlankOrEnd p.head? || (s.inFlow && p.head? == some ',') then
    some (({ s with place := p, keyAllowed := false } : Scanner).emit (.tag source))
  else none

/-! ## Scalars -/

def scanBlock (s : Scanner) (literal : Bool) : Option Scanner := do
  let s ← s.dropCandidate
  let (found, p) ← readBlock literal s.indent s.place
  some (({ s with place := p, keyAllowed := true } : Scanner).emit
    (.scalar (String.ofList found) (if literal then .literal else .quoted)))

def scanQuoted (s : Scanner) (single : Bool) : Option Scanner := do
  let s ← s.noteCandidate
  let (found, p) ← readQuoted single s.place
  some (({ s with place := p, keyAllowed := false } : Scanner).emit
    (.scalar (String.ofList found) .quoted))

def scanPlain (s : Scanner) : Option Scanner := do
  let s ← s.noteCandidate
  let indent := match s.indent with
    | some n => n + 1
    | none => 0
  let (found, broken, p) ← readPlain s.inFlow indent s.place
  some (({ s with place := p, keyAllowed := broken } : Scanner).emit
    (.scalar (String.ofList found) .plain))

/-- Characters that cannot start a scalar without quotes. A tab is left where it may not
stand for indentation. -/
def isIndicator (c : Char) : Bool :=
  isBlank c || "-?:,[]\x7b\x7d#&*!|>'\"%@`".toList.contains c

def scanEnd (s : Scanner) : Option Scanner := do
  let s ← (s.unrollIndent none).dropCandidate
  some (s.emit .streamEnd)

/-- Reads the token that starts with a character, by the character behind it. -/
def scanAt (s : Scanner) (c : Char) : Option Scanner :=
  let next := s.place.peek? 1
  let nextEnds := isBlankOrEnd next
  let nextIsBlank := match next with
    | some n => isBlank n
    | none => false
  if s.place.column == 0 && c == '%' then s.scanDirective
  else if s.place.atMarker '-' then s.scanDocumentEdge .documentStart
  else if s.place.atMarker '.' then s.scanDocumentEdge .documentEnd
  else if c == '[' then s.scanFlowStart .flowSequenceStart
  else if c == '\x7b' then s.scanFlowStart .flowMappingStart
  else if c == ']' then s.scanFlowEnd .flowSequenceEnd
  else if c == '\x7d' then s.scanFlowEnd .flowMappingEnd
  else if c == ',' then s.scanFlowEntry
  else if c == '-' && nextEnds then s.scanBlockEntry
  else if c == '?' && (s.inFlow || nextEnds) then s.scanKey
  else if c == ':' && (s.inFlow || nextEnds) then s.scanValue
  else if c == '*' then s.scanAnchor .alias
  else if c == '&' then s.scanAnchor .anchor
  else if c == '!' then s.scanTag
  else if c == '|' && !s.inFlow then s.scanBlock true
  else if c == '>' && !s.inFlow then s.scanBlock false
  else if c == '\'' then s.scanQuoted true
  else if c == '"' then s.scanQuoted false
  else if !isIndicator c || (c == '-' && !nextIsBlank) ||
      (!s.inFlow && (c == '?' || c == ':') && !nextEnds) then s.scanPlain
  else none

/-- Reads tokens up to the end of the text. -/
def scanAll : Nat → Scanner → Option Scanner
  | 0, _ => none
  | fuel + 1, s => do
      let s ← (skipGap (s.place.left + 1) s).dropStale
      let s := s.unrollIndent (some s.place.column)
      match s.place.head? with
      | none => s.scanEnd
      | some c => scanAll fuel (← s.scanAt c)

end Scanner

/-- The tokens of a text; `none` when it breaks a rule of the notation. -/
def tokens? (cs : List Char) : Option (List Token) :=
  if !cs.all isAllowed then none
  else
    ((Scanner.scanAll (cs.length + 2) { place := Place.start cs }).map fun s => s.tokens.toList)

end ChatArgs.Document.Yaml
