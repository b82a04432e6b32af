import ChatArgs.Cache
import ChatArgs.Proofs.Command.Names
import Mathlib.Data.Finset.Card
import Mathlib.Data.List.Nodup

/-!
# One entry for each command name

However a cache is used, the names of its tables stay apart: building a table evicts the one that
was there under its name. So the commands that share a name take turns, and a cache is no larger
than the number of names that were ever asked for.
-/

namespace ChatArgs

/-! ## Lists whose items differ in some value -/

section

variable {α β : Type} {f : α → β} {l : List α}

theorem filter_bne_eq_eraseP [BEq β] [LawfulBEq β] (distinct : (l.map f).Nodup) (b : β) :
    l.filter (f · != b) = l.eraseP (f · == b) := by
  induction l with
  | nil => rfl
  | cons y l ih =>
      obtain ⟨absent, distinct⟩ := List.nodup_cons.mp distinct
      by_cases same : f y == b
      · have others : l.filter (f · != b) = l := by
          rw [List.filter_eq_self]
          intro z inside
          rw [bne_iff_ne]
          intro equal
          apply absent
          exact List.mem_map.mpr ⟨z, inside, by rw [equal, eq_of_beq same]⟩
        rw [List.filter_cons, List.eraseP_cons, others]
        simp [bne, same]
      · rw [List.filter_cons, List.eraseP_cons, ih distinct]
        simp [bne, same]

end

/-! ## Uses of a cache -/

inductive Access where
  | table
  | configFor (parser : Parser)
  | parse (parser : Parser) (content : String) (message : Option Message)

/-- What can be done with a cache. Commands are named by their ids. -/
inductive CacheUse where
  | access (how : Access) (id : Nat)
  | invalidate (id : Nat)
  | clear

def CacheUse.accessed? : CacheUse → Option Nat
  | .access _ id => some id
  | _ => none

namespace Cache

def access (cache : Cache) (r : Registered) : Access → Cache
  | .table => (cache.fetch r).2
  | .configFor parser => (cache.lookup parser r).2.2.2
  | .parse parser content message => (cache.parse parser r content message).2

section

variable (declared : Nat → Command)

def use (cache : Cache) : CacheUse → Cache
  | .access how id => cache.access ⟨id, declared id⟩ how
  | .invalidate id => (cache.invalidate id).2
  | .clear => cache.clear

def useAll (cache : Cache) (uses : List CacheUse) : Cache :=
  uses.foldl (use declared) cache

def namesAsked (uses : List CacheUse) : Finset String :=
  ((uses.filterMap CacheUse.accessed?).map fun id => (declared id).name).toFinset

/-- Entries are tables of the declarations with their ids, and have names of their own. -/
structure Tidy (cache : Cache) : Prop where
  names : (cache.entries.map (·.table.name)).Nodup
  tables : ∀ entry ∈ cache.entries, entry.table = .ofCommand (declared entry.id)

end

variable {declared : Nat → Command} {cache : Cache} {id : Nat}

theorem Tidy.name_eq (tidy : Tidy declared cache) {entry : CacheEntry}
    (member : entry ∈ cache.entries) : entry.table.name = (declared entry.id).name := by
  rw [tidy.tables entry member]
  rfl

/-- Entries with one id are tables of one declaration, so that ids stay apart too. -/
theorem Tidy.ids (tidy : Tidy declared cache) : (cache.entries.map (·.id)).Nodup := by
  apply List.Nodup.of_map fun id => (declared id).name
  have names : (cache.entries.map (·.id)).map (fun id => (declared id).name) =
      cache.entries.map (·.table.name) := by
    rw [List.map_map]
    exact List.map_congr_left fun entry member => (tidy.name_eq member).symm
  rw [names]
  exact tidy.names

theorem tidy_empty : Tidy declared {} where
  names := List.nodup_nil
  tables := by simp

/-- What an access leaves of the entries of a cache: one entry under the name, and all entries with
other names. -/
def Replaces (before after : Cache) (declared : Nat → Command) (id : Nat) : Prop :=
  (∃ entry, after.entries.filter (·.table.name == (declared id).name) = [entry] ∧
    entry.id = id ∧ entry.table = .ofCommand (declared id)) ∧
  after.entries.filter (·.table.name != (declared id).name) =
    before.entries.filter (·.table.name != (declared id).name)

/-! ## Fetching -/

theorem find?_some {entry : CacheEntry} (found : cache.find? id = some entry) :
    entry ∈ cache.entries ∧ entry.id = id :=
  ⟨List.mem_of_find?_eq_some found, by simpa using List.find?_some found⟩

theorem Tidy.add (tidy : Tidy declared cache) :
    Tidy declared (cache.add { id, table := .ofCommand (declared id) }) where
  names := by
    rw [Cache.add, List.map_append, List.nodup_append]
    refine ⟨tidy.names.sublist (List.filter_sublist.map _), by simp, ?_⟩
    intro name kept other new
    obtain ⟨entry, inside, rfl⟩ := List.mem_map.mp kept
    rw [List.mem_singleton.mp new]
    simpa using (List.mem_filter.mp inside).2
  tables := by
    intro entry member
    cases List.mem_append.mp member with
    | inl kept => exact tidy.tables entry (List.mem_filter.mp kept).1
    | inr new =>
        rw [List.mem_singleton.mp new]

theorem add_replaces :
    Replaces cache (cache.add { id, table := .ofCommand (declared id) }) declared id := by
  have name : (Table.ofCommand (declared id)).name = (declared id).name := rfl
  constructor
  · refine ⟨{ id, table := .ofCommand (declared id) }, ?_, rfl, rfl⟩
    rw [Cache.add, List.filter_append, List.filter_filter]
    simp [name]
  · rw [Cache.add, List.filter_append, List.filter_filter]
    simp [name]

theorem Tidy.fetch (tidy : Tidy declared cache) (id : Nat) :
    Tidy declared (cache.fetch ⟨id, declared id⟩).2 ∧
      Replaces cache (cache.fetch ⟨id, declared id⟩).2 declared id := by
  rw [Cache.fetch]
  cases found : cache.find? id with
  | none => exact ⟨tidy.add, add_replaces⟩
  | some entry =>
      obtain ⟨member, same⟩ := find?_some found
      have alone := filter_eq_singleton_of_nodup tidy.names member
      rw [tidy.name_eq member, same] at alone
      have table := tidy.tables entry member
      rw [same] at table
      exact ⟨tidy, ⟨entry, alone, same, table⟩, rfl⟩

/-! ## Noting a configuration -/

def noted (id : Nat) (resolved : Resolved) (entry : CacheEntry) : CacheEntry :=
  if entry.id == id then { entry with resolved := some resolved } else entry

theorem note_entries (id : Nat) (resolved : Resolved) :
    (cache.note id resolved).entries = cache.entries.map (noted id resolved) := rfl

@[simp] theorem noted_id (id : Nat) (resolved : Resolved) (entry : CacheEntry) :
    (noted id resolved entry).id = entry.id := by
  rw [noted]
  split <;> rfl

@[simp] theorem noted_table (id : Nat) (resolved : Resolved) (entry : CacheEntry) :
    (noted id resolved entry).table = entry.table := by
  rw [noted]
  split <;> rfl

theorem Tidy.note (tidy : Tidy declared cache) (id : Nat) (resolved : Resolved) :
    Tidy declared (cache.note id resolved) where
  names := by
    rw [note_entries, List.map_map]
    simpa [Function.comp_def] using tidy.names
  tables := by
    intro entry member
    obtain ⟨old, inside, rfl⟩ := List.mem_map.mp member
    show (noted id resolved old).table = .ofCommand (declared (noted id resolved old).id)
    rw [noted_table, noted_id]
    exact tidy.tables old inside

theorem Replaces.note {before : Cache} (replaces : Replaces before cache declared id)
    (tidy : Tidy declared cache) (resolved : Resolved) :
    Replaces before (cache.note id resolved) declared id := by
  obtain ⟨⟨entry, alone, same, table⟩, others⟩ := replaces
  constructor
  · refine ⟨noted id resolved entry, ?_, by simpa using same, by simpa using table⟩
    rw [note_entries, List.filter_map]
    simp only [Function.comp_def, noted_table, alone, List.map_singleton]
  · rw [note_entries, List.filter_map]
    simp only [Function.comp_def, noted_table]
    have kept : ∀ other ∈ cache.entries.filter (·.table.name != (declared id).name),
        noted id resolved other = other := by
      intro other member
      obtain ⟨inside, differs⟩ := List.mem_filter.mp member
      rw [tidy.name_eq inside, bne_iff_ne] at differs
      have elsewhere : ¬ (other.id == id) = true := by
        intro equal
        exact differs (by rw [eq_of_beq equal])
      rw [noted, if_neg elsewhere]
    rw [List.map_congr_left kept, List.map_id', others]

/-! ## One use -/

/-- An access fetches the table, and may note a configuration. -/
theorem access_cases (cache : Cache) (r : Registered) (how : Access) :
    cache.access r how = (cache.fetch r).2 ∨
      ∃ resolved, cache.access r how = (cache.fetch r).2.note r.id resolved := by
  have lookup : ∀ parser, (cache.lookup parser r).2.2.2 = (cache.fetch r).2 ∨
      ∃ resolved, (cache.lookup parser r).2.2.2 = (cache.fetch r).2.note r.id resolved := by
    intro parser
    unfold Cache.lookup
    cases given : (cache.fetch r).1.table.overrides with
    | none =>
        left
        simp only [given]
    | some overrides =>
        cases found : (cache.fetch r).1.resolved.filter (·.generation == parser.generation) with
        | some known =>
            left
            simp only [given, found]
        | none =>
            right
            refine ⟨Cache.resolve parser overrides, ?_⟩
            simp only [given, found]
  cases how with
  | table => exact .inl rfl
  | configFor parser => exact lookup parser
  | parse parser content message => exact lookup parser

theorem Tidy.access (tidy : Tidy declared cache) (id : Nat) (how : Access) :
    Tidy declared (cache.access ⟨id, declared id⟩ how) ∧
      Replaces cache (cache.access ⟨id, declared id⟩ how) declared id := by
  obtain ⟨fetched, replaces⟩ := tidy.fetch id
  cases access_cases cache ⟨id, declared id⟩ how with
  | inl fetch =>
      rw [fetch]
      exact ⟨fetched, replaces⟩
  | inr note =>
      obtain ⟨resolved, note⟩ := note
      rw [note]
      exact ⟨fetched.note id resolved, replaces.note fetched resolved⟩

theorem invalidate_iff :
    (cache.invalidate id).1 = true ↔ ∃ entry ∈ cache.entries, entry.id = id := by
  simp [invalidate, find?, List.find?_isSome]

theorem Tidy.invalidate (tidy : Tidy declared cache) (id : Nat) :
    Tidy declared (cache.invalidate id).2 where
  names := tidy.names.sublist (List.filter_sublist.map _)
  tables := by
    intro entry member
    exact tidy.tables entry (List.mem_filter.mp member).1

theorem Tidy.invalidate_entries (tidy : Tidy declared cache) (id : Nat) :
    (cache.invalidate id).2.entries = cache.entries.eraseP (·.id == id) :=
  filter_bne_eq_eraseP tidy.ids id

theorem Tidy.use (tidy : Tidy declared cache) (use : CacheUse) :
    Tidy declared (cache.use declared use) := by
  cases use with
  | access how id => exact (tidy.access id how).1
  | invalidate id => exact tidy.invalidate id
  | clear => exact tidy_empty

theorem Tidy.mem_names_use (tidy : Tidy declared cache) (use : CacheUse) {name : String}
    (present : name ∈ (cache.use declared use).entries.map (·.table.name)) :
    name ∈ cache.entries.map (·.table.name) ∨
      ∃ id, use.accessed? = some id ∧ name = (declared id).name := by
  obtain ⟨entry, member, rfl⟩ := List.mem_map.mp present
  cases use with
  | access how id =>
      by_cases same : entry.table.name = (declared id).name
      · exact .inr ⟨id, rfl, same⟩
      · left
        have others := (tidy.access id how).2.2
        have kept : entry ∈ cache.entries.filter (·.table.name != (declared id).name) := by
          rw [← others]
          exact List.mem_filter.mpr ⟨member, bne_iff_ne.mpr same⟩
        exact List.mem_map_of_mem (List.mem_filter.mp kept).1
  | invalidate id => exact .inl (List.mem_map_of_mem (List.mem_filter.mp member).1)
  | clear => simp [Cache.use, clear] at member

/-! ## All uses -/

theorem Tidy.useAll (tidy : Tidy declared cache) (uses : List CacheUse) :
    Tidy declared (cache.useAll declared uses) := by
  induction uses generalizing cache with
  | nil => exact tidy
  | cons use uses ih => exact ih (tidy.use use)

theorem namesAsked_cons (use : CacheUse) (uses : List CacheUse) (name : String) :
    name ∈ namesAsked declared (use :: uses) ↔
      (∃ id, use.accessed? = some id ∧ name = (declared id).name) ∨
        name ∈ namesAsked declared uses := by
  cases asked : use.accessed? <;> simp [namesAsked, asked, eq_comm]

theorem Tidy.mem_names_useAll (tidy : Tidy declared cache) (uses : List CacheUse) {name : String}
    (present : name ∈ (cache.useAll declared uses).entries.map (·.table.name)) :
    name ∈ cache.entries.map (·.table.name) ∨ name ∈ namesAsked declared uses := by
  induction uses generalizing cache with
  | nil => exact .inl present
  | cons use uses ih =>
      rw [namesAsked_cons]
      cases ih (tidy.use use) present with
      | inr later => exact .inr (.inr later)
      | inl early => exact (tidy.mem_names_use use early).imp id .inl

theorem size_useAll_le (declared : Nat → Command) (uses : List CacheUse) :
    (useAll declared {} uses).size ≤ (namesAsked declared uses).card := by
  have tidy : Tidy declared (useAll declared {} uses) := tidy_empty.useAll uses
  rw [size, ← List.length_map (·.table.name), ← List.toFinset_card_of_nodup tidy.names]
  apply Finset.card_le_card
  intro name present
  simpa using tidy_empty.mem_names_useAll uses (List.mem_toFinset.mp present)

/-- A cache that was empty and then used in any way holds one entry for each name at most. Asking
for a table leaves it as the only one with its name and touches no other name, invalidating an
id answers whether it was there and drops that entry only, and the cache is no larger than the
number of names asked for. -/
theorem useAll_one_per_name (declared : Nat → Command) (uses : List CacheUse) :
    let cache := useAll declared {} uses
    (cache.entries.map (·.table.name)).Nodup ∧
    (∀ entry ∈ cache.entries, entry.table = .ofCommand (declared entry.id)) ∧
    (∀ how id,
      let after := cache.access ⟨id, declared id⟩ how
      (∃ entry, after.entries.filter (·.table.name == (declared id).name) = [entry] ∧
        entry.id = id ∧ entry.table = .ofCommand (declared id)) ∧
      after.entries.filter (·.table.name != (declared id).name) =
        cache.entries.filter (·.table.name != (declared id).name)) ∧
    (∀ id,
      ((cache.invalidate id).1 = true ↔ ∃ entry ∈ cache.entries, entry.id = id) ∧
      (cache.invalidate id).2.entries = cache.entries.eraseP (·.id == id)) ∧
    cache.size ≤ (namesAsked declared uses).card := by
  intro cache
  have tidy : Tidy declared cache := tidy_empty.useAll uses
  exact ⟨tidy.names, tidy.tables, fun how id => (tidy.access id how).2,
    fun id => ⟨invalidate_iff, tidy.invalidate_entries id⟩, size_useAll_le declared uses⟩

def namesakes : Nat → Command
  | 0 => { name := "say", options := [{ name := "text" }] }
  | 1 => { name := "say", options := [{ name := "words" }] }
  | _ => { name := "stop" }

/-- The later of two commands with one name has the entry under it. -/
theorem useAll_one_per_name_namesakes :
    let cache := useAll namesakes {} [.access .table 0, .access .table 2, .access .table 1]
    cache.entries.map (·.id) = [2, 1] ∧
    (∃ entry ∈ cache.entries, entry.table = .ofCommand (namesakes 1)) ∧
    (cache.invalidate 0).1 = false ∧ cache.size ≤ 2 := by
  intro cache
  obtain ⟨-, tables, -, invalidated, size⟩ := useAll_one_per_name namesakes
    [.access .table 0, .access .table 2, .access .table 1]
  have ids : cache.entries.map (·.id) = [2, 1] := by decide
  have present : 1 ∈ cache.entries.map (·.id) := by
    rw [ids]
    decide
  obtain ⟨entry, member, same⟩ := List.mem_map.mp present
  have table := tables entry member
  rw [same] at table
  refine ⟨ids, ⟨entry, member, table⟩, ?_, size⟩
  rw [Bool.eq_false_iff]
  intro found
  obtain ⟨other, inside, zero⟩ := (invalidated 0).1.mp found
  have absent : 0 ∉ cache.entries.map (·.id) := by
    rw [ids]
    decide
  exact absent (List.mem_map.mpr ⟨other, inside, zero⟩)

end Cache

end ChatArgs
