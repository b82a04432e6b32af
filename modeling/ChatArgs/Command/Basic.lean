import ChatArgs.Decimal.Notation
import ChatArgs.Options.Layering

/-! # Declarations of commands

A command declares its options in order. An option is a slot that words fill, or a
flag that only a marker fills; attachments and subcommands are declared too, but no
text fills them.
-/

namespace ChatArgs

open Decimal (Double)

inductive ValueKind where
  | string
  | integer
  | number
  | boolean
  | user
  | channel
  | role
  | mentionable
  | attachment
  | subcommand
  | subcommandGroup
deriving Repr, DecidableEq

namespace ValueKind

/-- Subcommands and groups of them. -/
def isSubcommand : ValueKind → Bool
  | .subcommand | .subcommandGroup => true
  | _ => false

def isFillable : ValueKind → Bool
  | .attachment => false
  | kind => !kind.isSubcommand

def allowsChoices : ValueKind → Bool
  | .string | .integer | .number => true
  | _ => false

end ValueKind

inductive ChoiceValue where
  | text (s : String)
  | number (x : Float)
deriving Repr, BEq

namespace ChoiceValue

/-- The value as it is shown and matched: numbers in plain decimal. -/
def display : ChoiceValue → String
  | .text s => s
  | .number x => Decimal.displayStyle.write (Double.ofFloat x)

def fits (kind : ValueKind) : ChoiceValue → Bool
  | .text _ => kind == .string
  | .number x => kind == .number || (kind == .integer && (Double.ofFloat x).isIntegral)

end ChoiceValue

structure Choice where
  name : String
  value : ChoiceValue
deriving Repr, BEq

structure OptionDecl where
  name : String
  kind : ValueKind := .string
  description : Option String := none
  required : Bool := false
  /-- A flag is filled by a marker only. -/
  flag : Bool := false
  choices : List Choice := []
  /-- Overrides whether the option, when named, takes one value. -/
  singleValue : Option Bool := none
deriving Repr, BEq

namespace OptionDecl

def isFillable (o : OptionDecl) : Bool :=
  o.kind.isFillable

/-- When named, the option takes one value; the configuration gives the default. -/
def takesOneValue (o : OptionDecl) (byDefault : Bool) : Bool :=
  o.singleValue.getD byDefault

def withChoice (o : OptionDecl) (name : String) (value : ChoiceValue) : OptionDecl :=
  { o with choices := o.choices ++ [⟨name, value⟩] }

end OptionDecl

structure Command where
  name : String
  options : List OptionDecl := []
  /-- Settings for this command, laid over those of the parser. -/
  overrides : Option Options := none
deriving Repr, BEq

namespace Command

def withOption (c : Command) (o : OptionDecl) : Command :=
  { c with options := c.options ++ [o] }

def withOptions (c : Command) (os : List OptionDecl) : Command :=
  { c with options := c.options ++ os }

/-- Sets the settings of the command, deduplicated. -/
def withOverrides (c : Command) (o : Options) : Command :=
  { c with overrides := some o.deduplicated }

def option? (c : Command) (name : String) : Option OptionDecl :=
  c.options.find? fun o => o.name == name

/-- The command stands for its subcommands: its first option is one. -/
def holdsSubcommands (c : Command) : Bool :=
  match c.options with
  | [] => false
  | o :: _ => o.kind.isSubcommand

end Command

end ChatArgs
