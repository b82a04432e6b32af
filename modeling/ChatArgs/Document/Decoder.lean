import ChatArgs.Document.Basic
import ChatArgs.Document.Plain

/-! # Asking a document for types

Readers of typed values. A reader answers `none` when the document does not have
the type. Fields of a record that nobody asks for are skipped over, and a field
that is asked for may stand there once only.
-/

namespace ChatArgs

inductive Format where
  | json
  | yaml
deriving Repr, DecidableEq

namespace Document

open Decimal (Numeral)

/-- The document is null; an empty unquoted scalar counts, unless it has a tag. -/
def isNull (d : Document) : Bool :=
  match d.followed with
  | .null => true
  | .plain s => s.isEmpty || Plain.isNullWord s
  | .tagged .null (.plain s) => Plain.isNullWord s
  | _ => false

/-- Any scalar that is written without a type of its own is a text if one is wanted. -/
def asText? (d : Document) : Option String :=
  match d.node with
  | .text s => some s
  | .plain s => some s
  | .literal s => some s
  | _ => none

/-- A truth value. A block of lines has to be tagged as one. -/
def asBool? (d : Document) : Option Bool :=
  match d.followed with
  | .tagged .bool (.literal s) => Plain.bool? s
  | d =>
      match d.untagged with
      | .bool b => some b
      | .plain s => Plain.bool? s
      | _ => none

/-- A list; an empty unquoted scalar is the empty list. -/
def asList? (d : Document) : Option (List Document) :=
  match d.node with
  | .list items => some items
  | .plain s => if s.isEmpty then some [] else none
  | _ => none

def asListOf? {α : Type} (read : Document → Option α) (d : Document) : Option (List α) :=
  match d.asList? with
  | some items => items.mapM read
  | none => none

def asNat? : Document → Option Nat
  | .number source =>
      match Numeral.scan source.toList with
      | some (n, []) =>
          match n.read with
          | some (.natural n) => some n
          | _ => none
      | _ => none
  | _ => none

/-- The word that is written for a value out of a fixed set. In JSON it may also be the
key of a record with the one value null, and in YAML the tag of null. -/
def word? (format : Format) (d : Document) : Option String :=
  match format, d.followed with
  | .json, .record [(.text key, .null)] => some key
  | _, .tagged (.word w) node => if node.isNull then some w else none
  | _, d => d.asText?

/-- A value out of a fixed set of words. -/
def asWord? {α : Type} (format : Format) (words : List (String × α)) (d : Document) :
    Option α :=
  (d.word? format).bind fun word => List.lookup word words

/-! ## Records -/

/-- Worker: the value of one field, which may stand there once only. -/
def field? (name : String) (fields : List (Option String × Document)) :
    Option (Option Document) :=
  match fields.filter fun field => field.1 == some name with
  | [] => some none
  | [field] => some (some field.2)
  | _ => none

/-- Fields under the names that their keys stand for; a key may stand for none, but it
has to be readable. -/
def namedFields? (nameOf : Document → Option (Option String))
    (fields : List (Document × Document)) : Option (List (Option String × Document)) :=
  fields.mapM fun field => (nameOf field.1).map (·, field.2)

/-- The values of the named fields, in the order of the names. With `positional` a list
of values in this order will do too. -/
def fieldsBy? (nameOf : Document → Option (Option String)) (positional : Bool)
    (names : List String) (d : Document) : Option (List (Option Document)) :=
  match d.node with
  | .record fields => do
      let named ← namedFields? nameOf fields
      names.mapM fun name => field? name named
  | .list items =>
      if positional && items.length ≤ names.length then
        some (items.map some ++ List.replicate (names.length - items.length) none)
      else none
  | .plain s => if s.isEmpty then some (names.map fun _ => none) else none
  | _ => none

/-- A record of a data file: JSON allows the positional form. -/
def recordFields? (format : Format) (names : List String) (d : Document) :
    Option (List (Option Document)) :=
  d.fieldsBy? (fun key => key.asText?.map some) (format == .json) names

def required {α : Type} (read : Document → Option α) (field : Option Document) : Option α :=
  field.bind read

/-- A field that has a default, and no null. -/
def defaulted {α : Type} (default : α) (read : Document → Option α) :
    Option Document → Option α
  | none => some default
  | some d => read d

def claimsNull (d : Document) : Bool :=
  match d.followed with
  | .tagged .null (.plain _) => true
  | _ => false

/-- A field that may be left out or null; what claims to be null has to be it. -/
def optional {α : Type} (read : Document → Option α) : Option Document → Option (Option α)
  | none => some none
  | some d =>
      if d.isNull then some none
      else if d.claimsNull then none
      else (read d).map some

/-! ## Types found by looking at a value -/

/-- What a scalar is when nobody says what it should be. An ill-formed text, a number out
of range and a scalar that is not what its tag says have no type. -/
def scalar? (d : Document) : Option ScalarValue :=
  match d.followed with
  | .null => some .null
  | .bool b => some (.bool b)
  | .number source =>
      match Numeral.scan source.toList with
      | some (n, []) => n.read.map .number
      | _ => none
  | .text s => some (.text s)
  | .literal s => some (.text s)
  | .plain s => Plain.resolve s
  | .tagged tag (.text s) => Plain.resolveTagged tag false s
  | .tagged tag (.literal s) => Plain.resolveTagged tag false s
  | .tagged tag (.plain s) => Plain.resolveTagged tag true s
  | _ => none

/-- The tag belongs to an application. -/
def Tag.isWord : Tag → Bool
  | .word _ => true
  | _ => false

mutual

/-- Everything in the document has a type when nobody says what it should be. -/
def isTyped : Document → Bool
  | .list items => itemsTyped items
  | .record fields => fieldsTyped fields
  | .tagged tag (.list items) => !tag.isWord && itemsTyped items
  | .tagged tag (.record fields) => !tag.isWord && fieldsTyped fields
  | .alias node => node.isTyped
  | d => d.scalar?.isSome
termination_by structural d => d

def itemsTyped : List Document → Bool
  | [] => true
  | d :: ds => d.isTyped && itemsTyped ds
termination_by structural ds => ds

def fieldsTyped : List (Document × Document) → Bool
  | [] => true
  | (key, d) :: fs => key.isTyped && d.isTyped && fieldsTyped fs
termination_by structural fs => fs

end

/-- The name that a key stands for when nobody says that it should be a text: a text for
itself, and a whole number for the name in that place. -/
def looseName? (names : List String) (key : Document) : Option (Option String) :=
  match key.scalar? with
  | some (.text s) => some (some s)
  | some (.number (.natural n)) => some names[n]?
  | _ => none

/-- A record when nobody says that it should be one: the positional form will do. -/
def looseFields? (names : List String) (d : Document) : Option (List (Option Document)) :=
  d.fieldsBy? (looseName? names) true names

end Document

end ChatArgs
