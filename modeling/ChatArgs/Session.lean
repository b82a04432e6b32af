import ChatArgs.Cache

/-! # Sessions

A session holds named caches, parsers, commands and messages, and runs actions on
them one after the other. Parsers may share a cache, clones share everything, and each
builder call or reading of a declaration registers it under a new id. An action that
names something unknown fails and changes nothing.
-/

namespace ChatArgs

/-- A parser and the number of the cache that it uses. -/
structure BoundParser where
  parser : Parser
  cache : Nat
deriving Repr

structure Session where
  caches : List Cache := []
  cacheNames : Entries Nat := {}
  parsers : Entries BoundParser := {}
  commands : Entries Registered := {}
  messages : Entries Message := {}
  /-- The id of the next declaration. -/
  nextId : Nat := 0
  /-- The generation of the next parser settings. -/
  nextGeneration : Nat := 0
deriving Repr

/-- What can be done in a session. The last name is that of the new object. -/
inductive Action where
  | newCache (name : String)
  | newParser (options : Options) (cache : Option String) (name : String)
  /-- A parser made of settings that are resolved already. -/
  | newParserOf (config : Config) (cache : Option String) (name : String)
  | cloneParser (parser name : String)
  /-- A clone of a parser that uses another cache. -/
  | rebindParser (parser cache name : String)
  | declare (command : Command) (name : String)
  | cloneCommand (command name : String)
  | addOptions (command : String) (options : List OptionDecl) (name : String)
  | override (command : String) (options : Options) (name : String)
  | overridesOf (command : String)
  | parse (parser command content : String)
  | newMessage (message : Message) (name : String)
  | cloneMessage (message name : String)
  | parseMessage (parser command message content : String)
  | attach (message content : String)
  | resultOf (message : String)
  | takeResult (message : String)
  | compareMessages (left right : String)
  | tableOf (parser command : String)
  | configFor (parser command : String)
  | invalidate (parser command : String)
  | clear (parser : String)
deriving Repr

inductive Outcome where
  | done
  | config (config : Config)
  | registered (r : Registered)
  | overrides (options : Option Options)
  | args (args : Args)
  | result (args : Option Args)
  | message (message : Message)
  | truth (b : Bool)
  | table (table : Table)
  /-- A name stands for nothing. -/
  | noSuch (name : String)
deriving Repr

namespace Session

def cacheAt (s : Session) (index : Nat) : Cache :=
  s.caches[index]?.getD {}

def setCache (s : Session) (index : Nat) (cache : Cache) : Session :=
  { s with caches := s.caches.set index cache }

/-- Adds an empty cache; answers its number. -/
def addCache (s : Session) : Nat × Session :=
  (s.caches.length, { s with caches := s.caches ++ [{}] })

/-- Registers a declaration under a new id. -/
def register (s : Session) (command : Command) (name : String) : Outcome × Session :=
  let r : Registered := ⟨s.nextId, command⟩
  (.registered r, { s with commands := s.commands.insert name r, nextId := s.nextId + 1 })

/-- Adds a parser that uses the cache with a number. -/
def addParser (s : Session) (config : Config) (cache : Nat) (name : String) :
    Outcome × Session :=
  let bound : BoundParser := ⟨.ofConfig s.nextGeneration config, cache⟩
  (.config config,
    { s with parsers := s.parsers.insert name bound, nextGeneration := s.nextGeneration + 1 })

/-- Goes on with what a name stands for. -/
def withNamed {α : Type} (s : Session) (entries : Entries α) (name : String)
    (go : α → Outcome × Session) : Outcome × Session :=
  match entries.get? name with
  | some value => go value
  | none => (.noSuch name, s)

def withParser (s : Session) (name : String) (go : BoundParser → Outcome × Session) :
    Outcome × Session :=
  s.withNamed s.parsers name go

def withCommand (s : Session) (name : String) (go : Registered → Outcome × Session) :
    Outcome × Session :=
  s.withNamed s.commands name go

def withMessage (s : Session) (name : String) (go : Message → Outcome × Session) :
    Outcome × Session :=
  s.withNamed s.messages name go

def setMessage (s : Session) (name : String) (m : Message) : Session :=
  { s with messages := s.messages.insert name m }

/-- Adds a parser that uses the named cache, or else one of its own. -/
def newParser (s : Session) (config : Config) (cache : Option String) (name : String) :
    Outcome × Session :=
  match cache with
  | none =>
      let (index, s) := s.addCache
      s.addParser config index name
  | some cache =>
      s.withNamed s.cacheNames cache fun index => s.addParser config index name

/-- Parses a text with a parser of the session. -/
def runParse (s : Session) (bound : BoundParser) (r : Registered) (content : String)
    (message : Option Message) : Args × Session :=
  let (args, cache) := (s.cacheAt bound.cache).parse bound.parser r content message
  (args, s.setCache bound.cache cache)

def act (s : Session) : Action → Outcome × Session
  | .newCache name =>
      let (index, s) := s.addCache
      (.done, { s with cacheNames := s.cacheNames.insert name index })
  | .newParser options cache name => s.newParser (.ofOptions options) cache name
  | .newParserOf config cache name => s.newParser config cache name
  | .cloneParser parser name =>
      s.withParser parser fun bound =>
        (.done, { s with parsers := s.parsers.insert name bound })
  | .rebindParser parser cache name =>
      s.withParser parser fun bound =>
        s.withNamed s.cacheNames cache fun index =>
          (.done, { s with parsers := s.parsers.insert name ⟨bound.parser, index⟩ })
  | .declare command name => s.register command name
  | .cloneCommand command name =>
      s.withCommand command fun r =>
        (.registered r, { s with commands := s.commands.insert name r })
  | .addOptions command options name =>
      s.withCommand command fun r => s.register (r.command.withOptions options) name
  | .override command options name =>
      s.withCommand command fun r => s.register (r.command.withOverrides options) name
  | .overridesOf command => s.withCommand command fun r => (.overrides r.command.overrides, s)
  | .parse parser command content =>
      s.withParser parser fun bound =>
        s.withCommand command fun r =>
          let (args, s) := s.runParse bound r content none
          (.args args, s)
  | .newMessage message name => (.message message, s.setMessage name message)
  | .cloneMessage message name =>
      s.withMessage message fun m => (.done, s.setMessage name m)
  | .parseMessage parser command message content =>
      s.withParser parser fun bound =>
        s.withCommand command fun r =>
          s.withMessage message fun m =>
            let (args, s) := s.runParse bound r content (some m)
            (.args args, s.setMessage message (m.attach args))
  | .attach message content =>
      s.withMessage message fun m =>
        (.done, s.setMessage message (m.attach (.ofContent content)))
  | .resultOf message => s.withMessage message fun m => (.result m.result, s)
  | .takeResult message =>
      s.withMessage message fun m => (.result m.result, s.setMessage message m.detach)
  | .compareMessages left right =>
      s.withMessage left fun a => s.withMessage right fun b => (.truth (a.agrees b), s)
  | .tableOf parser command =>
      s.withParser parser fun bound =>
        s.withCommand command fun r =>
          let (entry, cache) := (s.cacheAt bound.cache).fetch r
          (.table entry.table, s.setCache bound.cache cache)
  | .configFor parser command =>
      s.withParser parser fun bound =>
        s.withCommand command fun r =>
          let (_, config, _, cache) := (s.cacheAt bound.cache).lookup bound.parser r
          (.config config, s.setCache bound.cache cache)
  | .invalidate parser command =>
      s.withParser parser fun bound =>
        s.withCommand command fun r =>
          let (found, cache) := (s.cacheAt bound.cache).invalidate r.id
          (.truth found, s.setCache bound.cache cache)
  | .clear parser =>
      s.withParser parser fun bound =>
        (.done, s.setCache bound.cache (s.cacheAt bound.cache).clear)

/-- Runs actions one after the other; answers their outcomes in order. -/
def runAll (s : Session) : List Action → List Outcome × Session
  | [] => ([], s)
  | a :: rest =>
      let (outcome, s) := s.act a
      let (outcomes, s) := s.runAll rest
      (outcome :: outcomes, s)

end Session

end ChatArgs
