import ChatArgs.Args
import ChatArgs.Command.Table
import ChatArgs.Parse.Escape
import ChatArgs.Parse.Token

/-! # The state of a parse

A parse goes over the tokens of a text once. Between two tokens it knows the values
found so far, which slots are taken, and what is open: a long text between quotes,
a named option, the last slot that waits for the rest of the text, a backslash that
escapes the next delimiter, or text that is held for the next value.
-/

namespace ChatArgs.Parse

open Text

/-- The patterns of a parse: which tokens a text is cut into, and what is escaped where.
They are made once for some delimiters and used again by every parse with the same. -/
structure Patterns where
  delimiters : Delimiters
deriving Repr, DecidableEq

def Patterns.ofConfig (config : Config) : Patterns :=
  ⟨config.delimiters⟩

/-- What a parse is given, the message apart. -/
structure Context where
  content : List Char
  table : Table
  config : Config
  patterns : Patterns
deriving Repr

def Context.length (ctx : Context) : Nat :=
  byteLength ctx.content

/-- A run of quotes that may close a long text. -/
structure ClosingRun where
  /-- In front of the first quote of the run. -/
  first : Cursor
  /-- Offset of the last quote of the run so far. -/
  last : Nat
deriving Repr, DecidableEq

structure LongText where
  quote : Quote
  /-- Offset behind the first opening quote. -/
  start : Nat
  /-- Behind the last of the opening quotes in a row. -/
  body : Cursor
  closing : Option ClosingRun := none
deriving Repr, DecidableEq

/-- Text that waits for the next value, which it becomes the front of. -/
structure Held where
  text : String
  start : Cursor
deriving Repr, DecidableEq

structure Named where
  option : OptionDecl
  /-- Behind the marker. -/
  start : Cursor
  /-- Offset of the marker behind its backslashes. -/
  nameStart : Nat
  family : Family
deriving Repr

structure LastSlot where
  name : String
  /-- In front of the first word. -/
  start : Cursor
  /-- Offset where the span of the value starts. -/
  spanStart : Nat
  /-- Held text in front of the first word. -/
  front : String
deriving Repr, DecidableEq

/-- What a parse knows between two tokens. -/
structure State where
  values : Entries String := {}
  spans : Entries Span := {}
  /-- For each slot whether it is taken. -/
  taken : List Bool
  /-- Number of slots that are taken. -/
  takenCount : Nat := 0
  /-- Names of the flags that have a value. -/
  filledFlags : List String := []
  longText : Option LongText := none
  /-- A run of backslashes that escapes the next delimiter: its start and its end. -/
  escape : Option (Cursor × Nat) := none
  held : Option Held := none
  /-- The only family whose markers open options, once one is decided. -/
  family : Option Family := none
  named : Option Named := none
  lastSlot : Option LastSlot := none
  /-- The option that was given a value last. -/
  lastFilled : Option String := none
  /-- The token in front closed a value. -/
  justClosed : Bool := false
  /-- The last slot was open before and is closed. -/
  lastSlotClosed : Bool := false
deriving Repr

namespace State

/-- Nothing is found and every slot is free. -/
def initial (ctx : Context) : State :=
  { taken := ctx.table.slots.map fun _ => false }

def freeSlot? (s : State) : Option Nat :=
  s.taken.findIdx? fun taken => !taken

def remaining (s : State) : Nat :=
  s.taken.length - s.takenCount

/-- At most one slot is free. -/
def oneSlotLeft (s : State) : Bool :=
  s.remaining ≤ 1

def take (s : State) (slot : Nat) : State :=
  if s.taken[slot]? == some false then
    { s with taken := s.taken.set slot true, takenCount := s.takenCount + 1 }
  else s

/-- Every option that a parse can fill has a value. -/
def allFilled (ctx : Context) (s : State) : Bool :=
  ctx.table.optionCount ≤ s.takenCount + s.filledFlags.length

def setValue (s : State) (name value : String) (start stop : Nat) : State :=
  { s with values := s.values.insert name value, spans := s.spans.insert name ⟨start, stop⟩ }

/-- Adds text at the end of a value, and lets its span end there. -/
def append (s : State) (name text : String) (stop : Nat) : State :=
  { s with
    values := s.values.insert name ((s.values.get? name).getD "" ++ text)
    spans := s.spans.modify name fun span => { span with stop := stop } }

/-- Marks an option as filled by a marker: a flag by its name, another by its slot. -/
def markFilled (ctx : Context) (option : OptionDecl) (s : State) : State :=
  if option.flag then
    if option.name ∈ s.filledFlags then s
    else { s with filledFlags := option.name :: s.filledFlags }
  else match ctx.table.slotOf? option.name with
    | some slot => s.take slot
    | none => s

/-- The open named option, if it takes one value. -/
def openSingle? (ctx : Context) (s : State) : Option Named :=
  s.named.filter fun named => named.option.takesOneValue ctx.config.singleValue

end State

/-- The character is there and visible. -/
def isVisible : Option Char → Bool
  | some c => !isGap c
  | none => false

end ChatArgs.Parse
