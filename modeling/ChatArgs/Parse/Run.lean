import ChatArgs.Message
import ChatArgs.Parse.Step

/-! # A whole parse

The author of the message replied to may fill the first slot; then the tokens are
gone over, until the text ends or, if the configuration says so, every option has a
value; then what is still open is closed, and choices are matched.
-/

namespace ChatArgs

namespace Parse

open Text

namespace State

/-- The author replied to takes the first slot, if the configuration allows it and that
slot is a user option. -/
def fillReplied? (ctx : Context) (message : Option Message) (s : State) : Option State := do
  let filling ← ctx.config.replyFilling
  let message ← message
  let replied ← message.repliedTo
  if filling.requirePing && replied != message.author && !message.mentionsUser replied then
    none
  else
    let slot ← s.freeSlot?
    let option ← ctx.table.slots[slot]?
    if option.kind == .user then
      some (({ s with values := s.values.insert option.name replied } : State).take slot)
    else none

/-- The parse ends here, whatever text follows. -/
def stops (ctx : Context) (s : State) : Bool :=
  ctx.config.stopWhenFilled && s.allFilled ctx

def steps (ctx : Context) (s : State) : List Token → State
  | [] => s
  | t :: ts => if s.stops ctx then s else steps ctx (s.step ctx t) ts

/-- Closes at the end of the text what is still open. -/
def closeAll (ctx : Context) (s : State) : State :=
  let s := s.closeLastSlot ctx ctx.length []
  let s := s.closeNamed ctx ctx.length
  s.closeLongText ctx ctx.length

def run (ctx : Context) (message : Option Message) : State :=
  let s := initial ctx
  let tokens := tokens ctx.patterns.delimiters ctx.content
  match s.fillReplied? ctx message with
  | some s => if s.allFilled ctx then s else (s.steps ctx tokens).closeAll ctx
  | none => (s.steps ctx tokens).closeAll ctx

end State

/-- Replaces the value of one option by the name of the choice that it means. -/
def matchChoice (matching : ChoiceMatching) (values : Entries String) (t : ChoiceTable) :
    Entries String :=
  match values.get? t.option with
  | none => values
  | some value =>
      match t.find? (lowercase value) matching.byValue with
      | some name => values.insert t.option name
      | none => values

/-- Replaces values by the names of the choices that they mean. -/
def matchChoices (tables : List ChoiceTable) (matching : Option ChoiceMatching)
    (values : Entries String) : Entries String :=
  match matching with
  | some matching => tables.foldl (matchChoice matching) values
  | none => values

end Parse

/-- Parses a text for a command whose table, configuration and patterns are known. -/
def Table.parse (table : Table) (config : Config) (patterns : Parse.Patterns)
    (content : String) (message : Option Message) : Args :=
  if table.optionCount == 0 then .ofContent content
  else
    let s := Parse.State.run ⟨content.toList, table, config, patterns⟩ message
    { content := content
      values := Parse.matchChoices table.choices config.choices s.values
      spans := s.spans }

/-- Parses a text for a command under the settings of a parser. -/
def Command.parse (command : Command) (shared : Config) (content : String)
    (message : Option Message) : Args :=
  let table := Table.ofCommand command
  let config := table.configFor shared
  table.parse config (.ofConfig config) content message

end ChatArgs
