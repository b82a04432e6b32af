import ChatArgs.Session

/-!
# Sessions without caches

A ledger knows of each parser only the settings that it was made from. It answers an
action as if every parser were made anew for it, with a cache of its own. What a cache
holds is no matter of the ledger: whether an id was there to be dropped is left open.
-/

namespace ChatArgs

structure Ledger where
  caches : Entries Unit := {}
  parsers : Entries Config := {}
  commands : Entries Registered := {}
  messages : Entries Message := {}
  nextId : Nat := 0

namespace Ledger

abbrev Step :=
  Option Outcome × Ledger

/-- What a new parser with an empty cache makes of a text. -/
def freshParse (config : Config) (r : Registered) (content : String)
    (message : Option Message) : Args :=
  (({} : Cache).parse (.ofConfig 0 config) r content message).1

def configFor (config : Config) (command : Command) : Config :=
  match command.overrides with
  | some overrides => config.resolve overrides
  | none => config

def register (l : Ledger) (command : Command) (name : String) : Step :=
  let r : Registered := ⟨l.nextId, command⟩
  (some (.registered r), { l with commands := l.commands.insert name r, nextId := l.nextId + 1 })

def addParser (l : Ledger) (config : Config) (name : String) : Step :=
  (some (.config config), { l with parsers := l.parsers.insert name config })

def setMessage (l : Ledger) (name : String) (m : Message) : Ledger :=
  { l with messages := l.messages.insert name m }

def withNamed {α : Type} (l : Ledger) (entries : Entries α) (name : String)
    (go : α → Step) : Step :=
  match entries.get? name with
  | some value => go value
  | none => (some (.noSuch name), l)

def withParser (l : Ledger) (name : String) (go : Config → Step) : Step :=
  l.withNamed l.parsers name go

def withCommand (l : Ledger) (name : String) (go : Registered → Step) : Step :=
  l.withNamed l.commands name go

def withMessage (l : Ledger) (name : String) (go : Message → Step) : Step :=
  l.withNamed l.messages name go

/-- Of the cache a ledger only asks whether its name is known. -/
def newParser (l : Ledger) (config : Config) (cache : Option String) (name : String) : Step :=
  match cache with
  | none => l.addParser config name
  | some cache => l.withNamed l.caches cache fun _ => l.addParser config name

def act (l : Ledger) : Action → Step
  | .newCache name => (some .done, { l with caches := l.caches.insert name () })
  | .newParser options cache name => l.newParser (.ofOptions options) cache name
  | .newParserOf config cache name => l.newParser config cache name
  | .cloneParser parser name =>
      l.withParser parser fun config =>
        (some .done, { l with parsers := l.parsers.insert name config })
  | .rebindParser parser cache name =>
      l.withParser parser fun config =>
        l.withNamed l.caches cache fun _ =>
          (some .done, { l with parsers := l.parsers.insert name config })
  | .declare command name => l.register command name
  | .cloneCommand command name =>
      l.withCommand command fun r =>
        (some (.registered r), { l with commands := l.commands.insert name r })
  | .addOptions command options name =>
      l.withCommand command fun r => l.register (r.command.withOptions options) name
  | .override command options name =>
      l.withCommand command fun r => l.register (r.command.withOverrides options) name
  | .overridesOf command =>
      l.withCommand command fun r => (some (.overrides r.command.overrides), l)
  | .parse parser command content =>
      l.withParser parser fun config =>
        l.withCommand command fun r => (some (.args (freshParse config r content none)), l)
  | .newMessage message name => (some (.message message), l.setMessage name message)
  | .cloneMessage message name =>
      l.withMessage message fun m => (some .done, l.setMessage name m)
  | .parseMessage parser command message content =>
      l.withParser parser fun config =>
        l.withCommand command fun r =>
          l.withMessage message fun m =>
            let args := freshParse config r content (some m)
            (some (.args args), l.setMessage message (m.attach args))
  | .attach message content =>
      l.withMessage message fun m =>
        (some .done, l.setMessage message (m.attach (.ofContent content)))
  | .resultOf message => l.withMessage message fun m => (some (.result m.result), l)
  | .takeResult message =>
      l.withMessage message fun m => (some (.result m.result), l.setMessage message m.detach)
  | .compareMessages left right =>
      l.withMessage left fun a =>
        l.withMessage right fun b => (some (.truth (a.agrees b)), l)
  | .tableOf parser command =>
      l.withParser parser fun _ =>
        l.withCommand command fun r => (some (.table (.ofCommand r.command)), l)
  | .configFor parser command =>
      l.withParser parser fun config =>
        l.withCommand command fun r => (some (.config (configFor config r.command)), l)
  | .invalidate parser command =>
      l.withParser parser fun _ => l.withCommand command fun _ => (none, l)
  | .clear parser => l.withParser parser fun _ => (some .done, l)

def runAll (l : Ledger) : List Action → List (Option Outcome) × Ledger
  | [] => ([], l)
  | a :: rest =>
      let (expected, l) := l.act a
      let (others, l) := l.runAll rest
      (expected :: others, l)

end Ledger

end ChatArgs
