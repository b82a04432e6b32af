import ChatArgs.Command.Basic
import ChatArgs.Options.Form

/-! # Declarations in data files

The two directions of the data form of commands, options and choices. Marks and the
kind of an option have defaults and are always written; descriptions, choices and
overrides are written when there are any.
-/

namespace ChatArgs

open Document (optional defaulted)
open Decimal (Double)

namespace ValueKind

def words : List (String × ValueKind) :=
  [("string", .string), ("integer", .integer), ("number", .number), ("boolean", .boolean),
    ("user", .user), ("channel", .channel), ("role", .role), ("mentionable", .mentionable),
    ("attachment", .attachment), ("subcommand", .subcommand),
    ("subcommand_group", .subcommandGroup)]

def word : ValueKind → String
  | .string => "string"
  | .integer => "integer"
  | .number => "number"
  | .boolean => "boolean"
  | .user => "user"
  | .channel => "channel"
  | .role => "role"
  | .mentionable => "mentionable"
  | .attachment => "attachment"
  | .subcommand => "subcommand"
  | .subcommandGroup => "subcommand_group"

theorem lookup_word (kind : ValueKind) : List.lookup kind.word words = some kind := by
  cases kind <;> decide

end ValueKind

namespace ChoiceValue

/-- The data form of a value; numbers that JSON cannot write become null. -/
def toDocument : ChoiceValue → Document
  | .text s => .text s
  | .number x =>
      match Double.ofFloat x with
      | .nan => .null
      | .infinite _ => .null
      | d => .number (Decimal.dataStyle.write d)

/-- Reads a value: a text or a number, found by looking at it. -/
def ofDocument? (d : Document) : Option ChoiceValue :=
  match d.scalar? with
  | some (.text s) => some (.text s)
  | some (.number n) => some (.number n.toFloat)
  | _ => none

end ChoiceValue

namespace Choice

def toDocument (c : Choice) : Document :=
  .ofFields [("name", .text c.name), ("value", c.value.toDocument)]

def ofDocument? (format : Format) (d : Document) : Option Choice :=
  match d.recordFields? format ["name", "value"] with
  | some [name, value] => do
      let name ← Document.required Document.asText? name
      let value ← Document.required ChoiceValue.ofDocument? value
      pure ⟨name, value⟩
  | _ => none

end Choice

/-- A field that is written unless the list is empty. -/
def listField {α : Type} (name : String) (write : α → Document) (items : List α) :
    List (String × Document) :=
  if items.isEmpty then [] else [(name, .list (items.map write))]

namespace OptionDecl

def fieldNames : List String :=
  ["name", "type", "description", "required", "flag", "choices", "single_value"]

def toDocument (o : OptionDecl) : Document :=
  .ofFields
    (("name", .text o.name) :: ("type", .text o.kind.word) ::
      (givenField "description" .text o.description ++
        ("required", .bool o.required) :: ("flag", .bool o.flag) ::
          (listField "choices" Choice.toDocument o.choices ++
            givenField "single_value" .bool o.singleValue)))

def ofDocument? (format : Format) (d : Document) : Option OptionDecl :=
  match d.recordFields? format fieldNames with
  | some [name, kind, description, mandatory, flag, choices, singleValue] => do
      let name ← Document.required Document.asText? name
      let kind ← defaulted .string (Document.asWord? format ValueKind.words) kind
      let description ← optional Document.asText? description
      let mandatory ← defaulted false Document.asBool? mandatory
      let flag ← defaulted false Document.asBool? flag
      let choices ← defaulted [] (Document.asListOf? (Choice.ofDocument? format)) choices
      let singleValue ← optional Document.asBool? singleValue
      pure { name, kind, description, required := mandatory, flag, choices, singleValue }
  | _ => none

def toJson (o : OptionDecl) : String :=
  o.toDocument.toJson

def ofJson? (s : String) : Option OptionDecl :=
  (Document.ofJson? s).bind (ofDocument? .json)

end OptionDecl

namespace Command

def toDocument (c : Command) : Document :=
  .ofFields
    (("name", .text c.name) :: ("options", .list (c.options.map OptionDecl.toDocument)) ::
      givenField "parser" Options.toDocument c.overrides)

/-- Reads a command; its overrides stay as they are written. -/
def ofDocument? (format : Format) (d : Document) : Option Command :=
  match d.recordFields? format ["name", "options", "parser"] with
  | some [name, options, overrides] => do
      let name ← Document.required Document.asText? name
      let options ←
        defaulted [] (Document.asListOf? (OptionDecl.ofDocument? format)) options
      let overrides ← optional (Options.ofDocument? format 1) overrides
      pure { name, options, overrides }
  | _ => none

def toJson (c : Command) : String :=
  c.toDocument.toJson

def ofJson? (s : String) : Option Command :=
  (Document.ofJson? s).bind (ofDocument? .json)

end Command

end ChatArgs
