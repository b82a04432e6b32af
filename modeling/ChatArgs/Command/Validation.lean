import ChatArgs.Command.Basic
import ChatArgs.Text.Blank
import ChatArgs.Text.Lowercase
import ChatArgs.Text.Quoted

/-! # Sound declarations

A declaration is checked once, when a command is registered; a parse refuses none.
`Command.defect?` answers the first defect: the options are checked in order, and
each option from its name to its choices.
-/

namespace ChatArgs

open Text

inductive Defect where
  | blankCommandName
  | duplicateCommand (name : String)
  | blankOptionName
  | invalidOptionName (name : String)
  | duplicateOption (name : String)
  | flagNotFillable (option : String)
  | choicesNotSupported (option : String)
  | choiceMismatch (option choice : String)
  | duplicateChoice (option choice : String)
deriving Repr, DecidableEq

def Defect.message : Defect → String
  | .blankCommandName => "command name cannot be empty"
  | .duplicateCommand name => "duplicate command: " ++ name
  | .blankOptionName => "option name cannot be empty"
  | .invalidOptionName name => "invalid option name: " ++ quoted name
  | .duplicateOption name => "duplicate option: " ++ name
  | .flagNotFillable option => "option " ++ option ++ " cannot be a flag"
  | .choicesNotSupported option => "option " ++ option ++ " cannot declare choices"
  | .choiceMismatch option choice =>
      "choice " ++ choice ++ " of option " ++ option ++ " has a mismatched value type"
  | .duplicateChoice option choice =>
      "duplicate choice " ++ choice ++ " in option " ++ option

/-- A letter, digit or underscore of ASCII: what markers can spell. -/
def isNameChar (c : Char) : Bool :=
  ('a' ≤ c && c ≤ 'z') || ('A' ≤ c && c ≤ 'Z') || ('0' ≤ c && c ≤ '9') || c == '_'

def isMarkerName (name : String) : Bool :=
  name.toList.all isNameChar

namespace OptionDecl

/-- The first defect among choices; `seen` holds the lower-case names in front. -/
def choiceDefectAux (o : OptionDecl) (seen : List String) : List Choice → Option Defect
  | [] => none
  | choice :: rest =>
      if !choice.value.fits o.kind then some (.choiceMismatch o.name choice.name)
      else
        let name := lowercase choice.name
        if name ∈ seen then some (.duplicateChoice o.name choice.name)
        else choiceDefectAux o (name :: seen) rest

def choiceDefect? (o : OptionDecl) : Option Defect :=
  if o.choices.isEmpty then none
  else if !o.kind.allowsChoices then some (.choicesNotSupported o.name)
  else choiceDefectAux o [] o.choices

/-- The first defect of an option; `seen` holds the names in front. -/
def defect? (o : OptionDecl) (seen : List String) : Option Defect :=
  if isBlankText o.name then some .blankOptionName
  else if !isMarkerName o.name then some (.invalidOptionName o.name)
  else if o.name ∈ seen then some (.duplicateOption o.name)
  else if o.flag && !o.isFillable then some (.flagNotFillable o.name)
  else o.choiceDefect?

end OptionDecl

namespace Command

/-- The first defect among options; `seen` holds the names in front. -/
def optionDefect? (seen : List String) : List OptionDecl → Option Defect
  | [] => none
  | o :: rest =>
      match o.defect? seen with
      | some defect => some defect
      | none => optionDefect? (o.name :: seen) rest

def defect? (c : Command) : Option Defect :=
  if isBlankText c.name then some .blankCommandName else optionDefect? [] c.options

/-- Worker of `firstDefect?`; `seen` holds the names in front. -/
def firstDefectAux (seen : List String) : List Command → Option Defect
  | [] => none
  | c :: rest =>
      if c.name ∈ seen then some (.duplicateCommand c.name)
      else match c.defect? with
        | some defect => some defect
        | none => firstDefectAux (c.name :: seen) rest

def firstDefect? (cs : List Command) : Option Defect :=
  firstDefectAux [] cs

end Command

end ChatArgs
