import ChatArgs.Document.Decoder
import ChatArgs.Document.Json.Reader
import ChatArgs.Document.Json.Writer
import ChatArgs.Entries
import ChatArgs.Text.Cursor

/-! # Results of a parse

A result holds the text that was parsed, the values of options by name, and the
byte span that each value was read from.
-/

namespace ChatArgs

open Text

/-- A half-open range of bytes. -/
structure Span where
  start : Nat
  stop : Nat
deriving Repr, DecidableEq

/-- Values of options, with the spans they were read from. -/
structure Args where
  content : String
  values : Entries String := {}
  spans : Entries Span := {}
deriving Repr

/-- The slice of a text between two byte offsets; `none` when they are out of order,
out of range or inside a character. -/
def sliceBytes? (text : List Char) (start stop : Nat) : Option (List Char) :=
  if stop < start then none
  else match dropBytes? start text with
    | none => none
    | some rest => takeBytes? (stop - start) rest
where
  dropBytes? : Nat → List Char → Option (List Char)
    | 0, cs => some cs
    | _, [] => none
    | bytes, c :: cs => if c.utf8Size ≤ bytes then dropBytes? (bytes - c.utf8Size) cs else none
  takeBytes? : Nat → List Char → Option (List Char)
    | 0, _ => some []
    | _, [] => none
    | bytes, c :: cs =>
        if c.utf8Size ≤ bytes then (takeBytes? (bytes - c.utf8Size) cs).map (c :: ·) else none

namespace Args

def ofContent (content : String) : Args := { content }

def insert (a : Args) (name value : String) (span : Span) : Args :=
  { a with values := a.values.insert name value, spans := a.spans.insert name span }

def get? (a : Args) (name : String) : Option String :=
  a.values.get? name

def span? (a : Args) (name : String) : Option Span :=
  a.spans.get? name

/-- The text that an option was read from. -/
def slice? (a : Args) (name : String) : Option String :=
  match a.span? name with
  | some span => (sliceBytes? a.content.toList span.start span.stop).map String.ofList
  | none => none

def size (a : Args) : Nat :=
  a.values.size

def isEmpty (a : Args) : Bool :=
  a.values.isEmpty

/-- Two results agree; the order of entries does not count. -/
def agrees (a b : Args) : Bool :=
  a.content == b.content && a.values.agrees b.values && a.spans.agrees b.spans

/-- The values of a map in a data file; of a repeated key the last one stays. -/
def entriesOf? {α : Type} (read : Document → Option α) : Document → Option (Entries α)
  | .record fields => do
      let pairs ← fields.mapM fun field => do
        let key ← field.1.asText?
        let value ← read field.2
        pure (key, value)
      pure (Entries.ofList pairs)
  | _ => none

def spanOf? : Document → Option Span
  | .list [start, stop] => do
      let start ← start.asNat?
      let stop ← stop.asNat?
      pure ⟨start, stop⟩
  | _ => none

def ofDocument? (d : Document) : Option Args :=
  match d.recordFields? .json ["content", "values", "positions"] with
  | some [content, values, spans] => do
      let content ← Document.required Document.asText? content
      let values ← Document.required (entriesOf? Document.asText?) values
      let spans ← Document.required (entriesOf? spanOf?) spans
      pure { content, values, spans }
  | _ => none

def ofJson? (s : String) : Option Args :=
  (Document.ofJson? s).bind ofDocument?

end Args

end ChatArgs
