import ChatArgs.Command.Basic
import ChatArgs.Entries
import ChatArgs.Text.Lowercase

/-! # What a parse needs to know about a command

A `Table` is derived from a declaration once: the slots that words fill, the flags,
the options by name, and the choices with their lower-case forms. Options that no
text fills are left out. Where a name is declared twice, a marker means the last
declaration.
-/

namespace ChatArgs

open Text

/-- A choice with the forms that it is matched by. -/
structure ChoiceRow where
  name : String
  loweredName : String
  loweredValue : String
deriving Repr, DecidableEq

/-- The choices of an option in the order of their declaration. -/
structure ChoiceTable where
  option : String
  rows : List ChoiceRow
deriving Repr, DecidableEq

namespace ChoiceTable

def ofOption (o : OptionDecl) : ChoiceTable where
  option := o.name
  rows := o.choices.map fun choice =>
    { name := choice.name
      loweredName := lowercase choice.name
      loweredValue := lowercase choice.value.display }

/-- The name of the choice that a lower-case text means: the first choice with this
name, else, if values count, the first with this value. -/
def find? (t : ChoiceTable) (lowered : String) (byValue : Bool) : Option String :=
  match t.rows.find? fun row => row.loweredName == lowered with
  | some row => some row.name
  | none =>
      if byValue then
        (t.rows.find? fun row => row.loweredValue == lowered).map (·.name)
      else none

end ChoiceTable

/-- What a parse needs to know about a command. -/
structure Table where
  name : String
  /-- The slots that words fill, in order. -/
  slots : List OptionDecl
  flags : List OptionDecl
  /-- The options that a marker can mean. -/
  options : Entries OptionDecl
  choices : List ChoiceTable
  overrides : Option Options
deriving Repr

namespace Table

def ofCommand (c : Command) : Table :=
  let fillable := c.options.filter (·.isFillable)
  { name := c.name
    slots := fillable.filter fun o => !o.flag
    flags := fillable.filter fun o => o.flag
    options := Entries.ofList (fillable.map fun o => (o.name, o))
    choices := (fillable.filter fun o => !o.choices.isEmpty).map ChoiceTable.ofOption
    overrides := c.overrides }

def optionCount (t : Table) : Nat :=
  t.options.size

def hasChoices (t : Table) : Bool :=
  !t.choices.isEmpty

/-- The option that a marker with this name means. -/
def option? (t : Table) (name : String) : Option OptionDecl :=
  t.options.get? name

def slotOf? (t : Table) (name : String) : Option Nat :=
  t.slots.findIdx? fun o => o.name == name

/-- The configuration for this command: its settings laid over those of the parser. -/
def configFor (t : Table) (shared : Config) : Config :=
  match t.overrides with
  | some o => shared.resolve o
  | none => shared

end Table

end ChatArgs
