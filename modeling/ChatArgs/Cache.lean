import ChatArgs.Parse.Run

/-! # Shared tables

Parsers share a cache of command tables. A command is registered under an id, and its
table is built on first use; building one evicts the tables of other commands with the
same name, so that a command that is declared anew replaces its old table. Beside a
table the cache keeps the configuration it was last resolved to and the patterns made
for it, with the generation of the parser settings it was resolved against.
-/

namespace ChatArgs

open Parse (Patterns)

/-- A declaration under its id. Equal ids mean equal declarations. -/
structure Registered where
  id : Nat
  command : Command
deriving Repr

/-- The settings that a parser shares among all commands. Parsers with different
settings have different generations. -/
structure Parser where
  generation : Nat
  config : Config
  patterns : Patterns
deriving Repr, DecidableEq

def Parser.ofConfig (generation : Nat) (config : Config) : Parser :=
  ⟨generation, config, .ofConfig config⟩

/-- A configuration with its patterns, and the generation of the settings it was
resolved against. -/
structure Resolved where
  generation : Nat
  config : Config
  patterns : Patterns
deriving Repr, DecidableEq

structure CacheEntry where
  id : Nat
  table : Table
  resolved : Option Resolved := none
deriving Repr

/-- Tables of commands, at most one for each id. -/
structure Cache where
  entries : List CacheEntry := []
deriving Repr

namespace Cache

def find? (cache : Cache) (id : Nat) : Option CacheEntry :=
  cache.entries.find? fun entry => entry.id == id

/-- Adds a new entry and evicts entries with its command name. -/
def add (cache : Cache) (entry : CacheEntry) : Cache :=
  ⟨(cache.entries.filter fun other => other.table.name != entry.table.name) ++ [entry]⟩

/-- The entry of a command, built on first use. -/
def fetch (cache : Cache) (r : Registered) : CacheEntry × Cache :=
  match cache.find? r.id with
  | some entry => (entry, cache)
  | none =>
      let entry : CacheEntry := { id := r.id, table := Table.ofCommand r.command }
      (entry, cache.add entry)

def note (cache : Cache) (id : Nat) (resolved : Resolved) : Cache :=
  ⟨cache.entries.map fun entry =>
    if entry.id == id then { entry with resolved := some resolved } else entry⟩

/-- Resolves the settings of a command anew. The patterns of the parser serve the command
too, unless its delimiters differ. -/
def resolve (parser : Parser) (overrides : Options) : Resolved :=
  let config := parser.config.resolve overrides
  let patterns :=
    if config.delimiters = parser.config.delimiters then parser.patterns
    else .ofConfig config
  ⟨parser.generation, config, patterns⟩

/-- The table of a command, with its configuration and patterns under a parser. -/
def lookup (cache : Cache) (parser : Parser) (r : Registered) :
    Table × Config × Patterns × Cache :=
  let (entry, cache) := cache.fetch r
  match entry.table.overrides with
  | none => (entry.table, parser.config, parser.patterns, cache)
  | some overrides =>
      match entry.resolved.filter (·.generation == parser.generation) with
      | some known => (entry.table, known.config, known.patterns, cache)
      | none =>
          let fresh := resolve parser overrides
          (entry.table, fresh.config, fresh.patterns, cache.note r.id fresh)

def parse (cache : Cache) (parser : Parser) (r : Registered) (content : String)
    (message : Option Message) : Args × Cache :=
  let (table, config, patterns, cache) := cache.lookup parser r
  (table.parse config patterns content message, cache)

/-- Drops the entry of an id; answers whether there was one. -/
def invalidate (cache : Cache) (id : Nat) : Bool × Cache :=
  ((cache.find? id).isSome, ⟨cache.entries.filter fun entry => entry.id != id⟩)

def clear (_ : Cache) : Cache := {}

def size (cache : Cache) : Nat :=
  cache.entries.length

def isEmpty (cache : Cache) : Bool :=
  cache.entries.isEmpty

end Cache

end ChatArgs
