import ChatArgs.Proofs.Cache.Sound
import ChatArgs.Proofs.Session.Ledger
import Mathlib.Data.List.Forall2

/-!
# Caches do not show

Whatever parsers share caches, and however these are filled, emptied and evicted, a
session answers what its ledger answers. The session keeps a history of what it has
handed out, and every cache stays sound for it.
-/

namespace ChatArgs

/-! ## Entries under the same names -/

namespace Entries

variable {α β : Type} {R : α → β → Prop} {m : Entries α} {n : Entries β}

def Related (R : α → β → Prop) (m : Entries α) (n : Entries β) : Prop :=
  ∀ name, Option.Rel R (m.get? name) (n.get? name)

theorem Related.empty : Related R {} {} :=
  fun _ => .none

theorem Related.get? (related : Related R m n) (name : String) :
    m.get? name = none ∧ n.get? name = none ∨
      ∃ a b, m.get? name = some a ∧ n.get? name = some b ∧ R a b := by
  have both := related name
  cases left : m.get? name <;> cases right : n.get? name <;> rw [left, right] at both
  · exact .inl ⟨rfl, rfl⟩
  · cases both
  · cases both
  · cases both with
    | some same => exact .inr ⟨_, _, rfl, rfl, same⟩

theorem Related.insert (related : Related R m n) (name : String) {a : α} {b : β} (new : R a b) :
    Related R (m.insert name a) (n.insert name b) := by
  intro other
  rw [get?_insert, get?_insert]
  by_cases same : name = other
  · rw [if_pos same, if_pos same]
    exact .some new
  · rw [if_neg same, if_neg same]
    exact related other

theorem Related.mono {R' : α → β → Prop} (weaker : ∀ a b, R a b → R' a b)
    (related : Related R m n) : Related R' m n := by
  intro name
  rcases related.get? name with ⟨left, right⟩ | ⟨a, b, left, right, old⟩
  · rw [left, right]
    exact .none
  · rw [left, right]
    exact .some (weaker a b old)

end Entries

/-! ## The ledger of a session -/

/-- A session and a ledger agree on every name, and the caches of the session are sound. -/
structure Records (h : History) (l : Ledger) (s : Session) : Prop where
  sound : ∀ cache ∈ s.caches, cache.Sound h
  caches : Entries.Related (fun _ _ => True) l.caches s.cacheNames
  parsers : Entries.Related (fun config bound => h.Made config bound.parser) l.parsers s.parsers
  commands : Entries.Related (fun known r => known = r ∧ h.Knows r) l.commands s.commands
  messages : Entries.Related (fun known m => known = m) l.messages s.messages
  ledgerId : l.nextId = s.nextId
  nextId : s.nextId = h.declared.length
  nextGeneration : s.nextGeneration = h.settings.length

def Outcome.Meets (got : Outcome) (expected : Option Outcome) : Prop :=
  ∀ answer ∈ expected, got = answer

def Agree (expected : Ledger.Step) (got : Outcome × Session) : Prop :=
  got.1.Meets expected.1 ∧ ∃ h, Records h expected.2 got.2

namespace Records

variable {h : History} {l : Ledger} {s : Session}

theorem empty : Records {} {} {} where
  sound := by simp
  caches := .empty
  parsers := .empty
  commands := .empty
  messages := .empty
  ledgerId := rfl
  nextId := rfl
  nextGeneration := rfl

theorem agree {l' : Ledger} {s' : Session} (records : Records h l' s') (answer : Outcome) :
    Agree (some answer, l') (answer, s') := by
  refine ⟨?_, h, records⟩
  intro expected same
  exact Option.some.inj same

theorem withNamed {α β : Type} {R : α → β → Prop} {m : Entries α} {n : Entries β}
    (records : Records h l s) (related : Entries.Related R m n) (name : String)
    {expected : α → Ledger.Step} {got : β → Outcome × Session}
    (go : ∀ a b, R a b → Agree (expected a) (got b)) :
    Agree (l.withNamed m name expected) (s.withNamed n name got) := by
  unfold Ledger.withNamed Session.withNamed
  rcases related.get? name with ⟨left, right⟩ | ⟨a, b, left, right, same⟩
  · rw [left, right]
    exact records.agree (.noSuch name)
  · rw [left, right]
    exact go a b same

theorem withParser (records : Records h l s) (name : String)
    {expected : Config → Ledger.Step} {got : BoundParser → Outcome × Session}
    (go : ∀ config bound, h.Made config bound.parser → Agree (expected config) (got bound)) :
    Agree (l.withParser name expected) (s.withParser name got) :=
  records.withNamed records.parsers name go

theorem withCommand (records : Records h l s) (name : String)
    {expected : Registered → Ledger.Step} {got : Registered → Outcome × Session}
    (go : ∀ r, h.Knows r → Agree (expected r) (got r)) :
    Agree (l.withCommand name expected) (s.withCommand name got) := by
  apply records.withNamed records.commands name
  rintro r _ ⟨rfl, known⟩
  exact go r known

theorem withMessage (records : Records h l s) (name : String)
    {expected : Message → Ledger.Step} {got : Message → Outcome × Session}
    (go : ∀ m, Agree (expected m) (got m)) :
    Agree (l.withMessage name expected) (s.withMessage name got) := by
  apply records.withNamed records.messages name
  rintro m _ rfl
  exact go m

/-- Actions that use a parser look up the parser, then the command. -/
theorem withUse (records : Records h l s) (parser command : String)
    {expected : Config → Registered → Ledger.Step}
    {got : BoundParser → Registered → Outcome × Session}
    (go : ∀ config bound r, h.Made config bound.parser → h.Knows r →
      Agree (expected config r) (got bound r)) :
    Agree (l.withParser parser fun config => l.withCommand command (expected config))
      (s.withParser parser fun bound => s.withCommand command (got bound)) := by
  apply records.withParser
  intro config bound made
  apply records.withCommand
  intro r known
  exact go config bound r made known

/-! ### Caches -/

theorem sound_cacheAt (records : Records h l s) (index : Nat) : (s.cacheAt index).Sound h := by
  unfold Session.cacheAt
  cases found : s.caches[index]? with
  | none => exact Cache.sound_empty h
  | some cache => exact records.sound cache (List.mem_of_getElem? found)

theorem setCache (records : Records h l s) (index : Nat) {cache : Cache}
    (new : cache.Sound h) : Records h l (s.setCache index cache) := by
  have sound : ∀ other ∈ (s.setCache index cache).caches, other.Sound h := by
    intro other member
    rcases List.mem_or_eq_of_mem_set member with old | rfl
    · exact records.sound other old
    · exact new
  exact { records with sound }

theorem addCache (records : Records h l s) : Records h l s.addCache.2 := by
  have sound : ∀ cache ∈ s.addCache.2.caches, cache.Sound h := by
    intro cache member
    rcases List.mem_append.1 member with old | new
    · exact records.sound cache old
    · rw [List.mem_singleton.1 new]
      exact Cache.sound_empty h
  exact { records with sound }

/-! ### New objects -/

theorem insertParser (records : Records h l s) (name : String) {config : Config}
    {bound : BoundParser} (made : h.Made config bound.parser) :
    Records h { l with parsers := l.parsers.insert name config }
      { s with parsers := s.parsers.insert name bound } :=
  { records with parsers := records.parsers.insert name made }

theorem insertCommand (records : Records h l s) (name : String) {r : Registered}
    (known : h.Knows r) :
    Records h { l with commands := l.commands.insert name r }
      { s with commands := s.commands.insert name r } :=
  { records with commands := records.commands.insert name ⟨rfl, known⟩ }

theorem setMessage (records : Records h l s) (name : String) (m : Message) :
    Records h (l.setMessage name m) (s.setMessage name m) :=
  { records with messages := records.messages.insert name rfl }

/-- More may be handed out, once the next numbers say so. -/
theorem extend (records : Records h l s) {h' : History} (more : h.Extends h') :
    Records h' { l with nextId := h'.declared.length }
      { s with nextId := h'.declared.length, nextGeneration := h'.settings.length } where
  sound := fun cache member => (records.sound cache member).extend more
  caches := records.caches
  parsers := records.parsers.mono fun _ _ made => more.made made
  commands := records.commands.mono fun _ _ known => ⟨known.1, more.knows known.2⟩
  messages := records.messages
  ledgerId := rfl
  nextId := rfl
  nextGeneration := rfl

theorem register (records : Records h l s) (command : Command) (name : String) :
    Agree (l.register command name) (s.register command name) := by
  have more : h.Extends { h with declared := h.declared ++ [command] } :=
    ⟨List.prefix_append _ _, List.prefix_refl _⟩
  have known : History.Knows { h with declared := h.declared ++ [command] }
      ⟨s.nextId, command⟩ := by
    simp [History.Knows, records.nextId]
  have new := (records.extend more).insertCommand name known
  simp only [List.length_append, List.length_singleton, ← records.nextId,
    ← records.nextGeneration] at new
  unfold Ledger.register
  rw [records.ledgerId]
  exact new.agree (.registered ⟨s.nextId, command⟩)

theorem addParser (records : Records h l s) (config : Config) (index : Nat) (name : String) :
    Agree (l.addParser config name) (s.addParser config index name) := by
  have more : h.Extends { h with settings := h.settings ++ [config] } :=
    ⟨List.prefix_refl _, List.prefix_append _ _⟩
  have made : History.Made { h with settings := h.settings ++ [config] } config
      (BoundParser.mk (.ofConfig s.nextGeneration config) index).parser := by
    simp [History.Made, Parser.ofConfig, records.nextGeneration]
  have new := (records.extend more).insertParser name made
  simp only [List.length_append, List.length_singleton, ← records.nextId,
    ← records.nextGeneration] at new
  unfold Ledger.addParser
  rw [records.ledgerId]
  exact new.agree (.config config)

theorem newParser (records : Records h l s) (config : Config) (cache : Option String)
    (name : String) : Agree (l.newParser config cache name) (s.newParser config cache name) := by
  cases cache with
  | none => exact records.addCache.addParser config s.caches.length name
  | some cache =>
      apply records.withNamed records.caches
      intro _ index _
      exact records.addParser config index name

/-! ### Using a cache -/

theorem runParse (records : Records h l s) {config : Config} {bound : BoundParser}
    {r : Registered} (made : h.Made config bound.parser) (known : h.Knows r) (content : String)
    (message : Option Message) :
    ∃ s', Records h l s' ∧ s.runParse bound r content message =
      (Ledger.freshParse config r content message, s') := by
  obtain ⟨cache, sound, parsed⟩ :=
    (records.sound_cacheAt bound.cache).parse known made content message
  refine ⟨s.setCache bound.cache cache, records.setCache bound.cache sound, ?_⟩
  rw [Session.runParse, parsed, Ledger.freshParse, Cache.parse_empty]

/-! ### Actions on caches and parsers -/

theorem act_newCache (records : Records h l s) (name : String) :
    Agree (l.act (.newCache name)) (s.act (.newCache name)) := by
  have added := records.addCache
  have named : Records h { l with caches := l.caches.insert name () }
      { s.addCache.2 with cacheNames := s.cacheNames.insert name s.caches.length } :=
    { added with caches := added.caches.insert name trivial }
  exact named.agree .done

theorem act_cloneParser (records : Records h l s) (parser name : String) :
    Agree (l.act (.cloneParser parser name)) (s.act (.cloneParser parser name)) := by
  apply records.withParser
  intro config bound made
  exact (records.insertParser name made).agree .done

/-- A parser is made of the same settings whatever cache it uses. -/
theorem act_rebindParser (records : Records h l s) (parser cache name : String) :
    Agree (l.act (.rebindParser parser cache name))
      (s.act (.rebindParser parser cache name)) := by
  apply records.withParser
  intro config bound made
  apply records.withNamed records.caches
  intro _ index _
  have rebound : h.Made config (BoundParser.mk bound.parser index).parser := made
  exact (records.insertParser name rebound).agree .done

theorem act_invalidate (records : Records h l s) (parser command : String) :
    Agree (l.act (.invalidate parser command)) (s.act (.invalidate parser command)) := by
  apply records.withUse
  intro config bound r made known
  have sound := (records.sound_cacheAt bound.cache).invalidate r.id
  refine ⟨?_, h, records.setCache bound.cache sound⟩
  intro answer expected
  cases expected

theorem act_clear (records : Records h l s) (parser : String) :
    Agree (l.act (.clear parser)) (s.act (.clear parser)) := by
  apply records.withParser
  intro config bound made
  exact (records.setCache bound.cache (Cache.sound_empty h)).agree .done

/-! ### Actions on commands -/

theorem act_cloneCommand (records : Records h l s) (command name : String) :
    Agree (l.act (.cloneCommand command name)) (s.act (.cloneCommand command name)) := by
  apply records.withCommand
  intro r known
  exact (records.insertCommand name known).agree (.registered r)

/-- Whatever a declaration is made into, the result is a declaration of its own. -/
theorem redeclare (records : Records h l s) (command name : String) (change : Command → Command) :
    Agree (l.withCommand command fun r => l.register (change r.command) name)
      (s.withCommand command fun r => s.register (change r.command) name) := by
  apply records.withCommand
  intro r _
  exact records.register (change r.command) name

theorem act_overridesOf (records : Records h l s) (command : String) :
    Agree (l.act (.overridesOf command)) (s.act (.overridesOf command)) := by
  apply records.withCommand
  intro r _
  exact records.agree (.overrides r.command.overrides)

/-! ### Actions on messages -/

/-- What is done to a message is seen in both, and so is what it answers. -/
theorem changeMessage (records : Records h l s) (name target : String)
    (change : Message → Message) (answer : Message → Outcome) :
    Agree (l.withMessage name fun m => (some (answer m), l.setMessage target (change m)))
      (s.withMessage name fun m => (answer m, s.setMessage target (change m))) := by
  apply records.withMessage
  intro m
  exact (records.setMessage target (change m)).agree (answer m)

theorem act_resultOf (records : Records h l s) (message : String) :
    Agree (l.act (.resultOf message)) (s.act (.resultOf message)) := by
  apply records.withMessage
  intro m
  exact records.agree (.result m.result)

theorem act_compareMessages (records : Records h l s) (left right : String) :
    Agree (l.act (.compareMessages left right)) (s.act (.compareMessages left right)) := by
  apply records.withMessage
  intro a
  apply records.withMessage
  intro b
  exact records.agree (.truth (a.agrees b))

/-! ### Actions that read a table -/

theorem act_parse (records : Records h l s) (parser command content : String) :
    Agree (l.act (.parse parser command content)) (s.act (.parse parser command content)) := by
  apply records.withUse
  intro config bound r made known
  obtain ⟨s', records', parsed⟩ := records.runParse made known content none
  rw [parsed]
  exact records'.agree (.args (Ledger.freshParse config r content none))

theorem act_parseMessage (records : Records h l s) (parser command message content : String) :
    Agree (l.act (.parseMessage parser command message content))
      (s.act (.parseMessage parser command message content)) := by
  apply records.withUse
  intro config bound r made known
  apply records.withMessage
  intro m
  obtain ⟨s', records', parsed⟩ := records.runParse made known content (some m)
  rw [parsed]
  exact (records'.setMessage message _).agree (.args (Ledger.freshParse config r content m))

theorem act_tableOf (records : Records h l s) (parser command : String) :
    Agree (l.act (.tableOf parser command)) (s.act (.tableOf parser command)) := by
  apply records.withUse
  intro config bound r made known
  obtain ⟨entry_sound, same, fetched⟩ := (records.sound_cacheAt bound.cache).fetch known
  have table := entry_sound.table_eq known same
  rw [← table]
  exact (records.setCache bound.cache fetched).agree (.table _)

theorem act_configFor (records : Records h l s) (parser command : String) :
    Agree (l.act (.configFor parser command)) (s.act (.configFor parser command)) := by
  apply records.withUse
  intro config bound r made known
  obtain ⟨cache, sound, lookup⟩ := (records.sound_cacheAt bound.cache).lookup known made
  rw [lookup]
  have kept := records.setCache bound.cache sound
  exact kept.agree (.config (Ledger.configFor config r.command))

/-! ## Runs -/

theorem act (records : Records h l s) (a : Action) : Agree (l.act a) (s.act a) := by
  cases a with
  | newCache name => exact records.act_newCache name
  | newParser options cache name => exact records.newParser (.ofOptions options) cache name
  | newParserOf config cache name => exact records.newParser config cache name
  | cloneParser parser name => exact records.act_cloneParser parser name
  | rebindParser parser cache name => exact records.act_rebindParser parser cache name
  | declare command name => exact records.register command name
  | cloneCommand command name => exact records.act_cloneCommand command name
  | addOptions command options name => exact records.redeclare command name (·.withOptions options)
  | override command options name => exact records.redeclare command name (·.withOverrides options)
  | overridesOf command => exact records.act_overridesOf command
  | parse parser command content => exact records.act_parse parser command content
  | newMessage message name => exact (records.setMessage name message).agree (.message message)
  | cloneMessage message name => exact records.changeMessage message name id fun _ => .done
  | parseMessage parser command message content =>
      exact records.act_parseMessage parser command message content
  | attach message content =>
      exact records.changeMessage message message (·.attach (.ofContent content)) fun _ => .done
  | resultOf message => exact records.act_resultOf message
  | takeResult message =>
      exact records.changeMessage message message Message.detach fun m => .result m.result
  | compareMessages left right => exact records.act_compareMessages left right
  | tableOf parser command => exact records.act_tableOf parser command
  | configFor parser command => exact records.act_configFor parser command
  | invalidate parser command => exact records.act_invalidate parser command
  | clear parser => exact records.act_clear parser

end Records

theorem Records.runAll {h : History} {l : Ledger} {s : Session} (records : Records h l s)
    (actions : List Action) :
    List.Forall₂ Outcome.Meets (s.runAll actions).1 (l.runAll actions).1 := by
  induction actions generalizing h l s with
  | nil => exact .nil
  | cons a actions ih =>
      obtain ⟨answer, h', records'⟩ := records.act a
      exact .cons answer (ih records')

/-- A session answers every action as its ledger does: a parse gives what a new parser with
the same options and an empty cache gives, and settings are those of the parser with those
of the command laid over them. -/
theorem Session.runAll_transparent (actions : List Action) :
    List.Forall₂ Outcome.Meets (Session.runAll {} actions).1 (Ledger.runAll {} actions).1 :=
  Records.empty.runAll actions

end ChatArgs
