import ChatArgs.Command.Form
import ChatArgs.Document.Yaml.Links
import ChatArgs.Options.Form

/-! # Loading settings

Settings are loaded from a JSON text, a YAML text or a YAML file. What goes wrong is
one of three causes.
-/

namespace ChatArgs

inductive LoadError where
  | file
  | json
  | yaml
deriving Repr, DecidableEq

def LoadError.message : LoadError → String
  | .file => "I/O error"
  | .json => "JSON error"
  | .yaml => "YAML error"

open Document (Shape)

namespace Options

/-- A nested feature with one field. -/
def featureShape (inner : String) : Shape :=
  .record [(inner, .scalar)]

def shape : Shape :=
  .record [
    ("syntax", .record [("longTextTags", .list .scalar), ("namedOptions", .list .scalar)]),
    ("breakSearchOnConsumeAllOptions", .scalar),
    ("useUniqueNamedSyntaxAtSameTime", .scalar),
    ("disableLongTextTagsInLastOption", .any),
    ("resolveCommandOptionsChoices", featureShape "canUseDirectlyValue"),
    ("useRepliedUserAsAnOption", featureShape "requirePing"),
    ("useCodeBlockLangAsAnOption", .scalar),
    ("useNamedWithSingleValue", .scalar),
    ("logResult", .scalar)]

def ofJsonText (s : String) : Except LoadError Options :=
  match ofJson? s with
  | some o => .ok o
  | none => .error .json

def ofYamlText (s : String) : Except LoadError Options :=
  match (Document.ofYaml? shape s).bind (ofDocument? .yaml 0) with
  | some o => .ok o.deduplicated
  | none => .error .yaml

/-- Loads settings from the bytes of a YAML file; `none` when there is no file. -/
def ofFile : Option (List UInt8) → Except LoadError Options
  | none => .error .file
  | some bytes =>
      match String.fromUTF8? ⟨bytes.toArray⟩ with
      | some s => ofYamlText s
      | none => .error .yaml

end Options

def OptionDecl.shape : Shape :=
  .record [
    ("name", .scalar), ("type", .scalar), ("description", .scalar), ("required", .scalar),
    ("flag", .scalar), ("choices", .list (.record [("name", .scalar), ("value", .any)])),
    ("single_value", .scalar)]

def Command.shape : Shape :=
  .record [("name", .scalar), ("options", .list OptionDecl.shape), ("parser", Options.shape)]

def Command.ofYaml? (s : String) : Option Command :=
  (Document.ofYaml? shape s).bind (ofDocument? .yaml)

end ChatArgs
