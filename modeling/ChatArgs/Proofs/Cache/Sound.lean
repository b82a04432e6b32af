import ChatArgs.Cache

/-!
# What a cache may hold

A cache is shared by parsers with different settings and lives through evictions. It is
sound while each of its entries is the table of the declaration with its id, and each
noted configuration is what the parser of its generation resolves the table to. A look-up
in a sound cache then answers what building everything anew would.
-/

namespace ChatArgs

open Parse (Patterns)

/-! ## What has been handed out -/

/-- Declarations by their ids, and the settings of parsers by their generations. -/
structure History where
  declared : List Command := []
  settings : List Config := []

namespace History

variable {h h' : History} {r : Registered} {config : Config} {parser : Parser}

def Knows (h : History) (r : Registered) : Prop :=
  h.declared[r.id]? = some r.command

def Made (h : History) (config : Config) (parser : Parser) : Prop :=
  h.settings[parser.generation]? = some config ∧ parser = .ofConfig parser.generation config

def Extends (h h' : History) : Prop :=
  h.declared <+: h'.declared ∧ h.settings <+: h'.settings

theorem getElem?_extend {α : Type} {l l' : List α} (more : l <+: l') {i : Nat} {x : α}
    (at_i : l[i]? = some x) : l'[i]? = some x := by
  obtain ⟨bound, value⟩ := List.getElem?_eq_some_iff.1 at_i
  rw [List.prefix_iff_getElem?.1 more i bound, value]

theorem Extends.knows (more : h.Extends h') (known : h.Knows r) : h'.Knows r :=
  getElem?_extend more.1 known

theorem Extends.made (more : h.Extends h') (made : h.Made config parser) :
    h'.Made config parser :=
  ⟨getElem?_extend more.2 made.1, made.2⟩

theorem Knows.unique {r' : Registered} (known : h.Knows r) (known' : h.Knows r')
    (same : r.id = r'.id) : r.command = r'.command := by
  rw [Knows, same, known'] at known
  exact (Option.some.inj known).symm

theorem Made.unique {config' : Config} {parser' : Parser} (made : h.Made config parser)
    (made' : h.Made config' parser') (same : parser.generation = parser'.generation) :
    parser = parser' := by
  have config_eq : config = config' := by
    have first := made.1
    rw [same, made'.1] at first
    exact (Option.some.inj first).symm
  rw [made.2, made'.2, same, config_eq]

end History

/-! ## Sound entries -/

/-- The entry was derived from the declaration with its id, and what it notes from that
and some parser that was made. -/
structure CacheEntry.Sound (h : History) (entry : CacheEntry) : Prop where
  table : ∃ command, h.Knows ⟨entry.id, command⟩ ∧ entry.table = .ofCommand command
  resolved : ∀ known, entry.resolved = some known → ∃ config parser overrides,
    h.Made config parser ∧ entry.table.overrides = some overrides ∧
      known = Cache.resolve parser overrides

def Cache.Sound (h : History) (cache : Cache) : Prop :=
  ∀ entry ∈ cache.entries, entry.Sound h

theorem CacheEntry.Sound.extend {h h' : History} {entry : CacheEntry} (more : h.Extends h')
    (sound : entry.Sound h) : entry.Sound h' where
  table := by
    obtain ⟨command, known, table⟩ := sound.table
    exact ⟨command, more.knows known, table⟩
  resolved := by
    intro known noted
    obtain ⟨config, parser, overrides, made, rest⟩ := sound.resolved known noted
    exact ⟨config, parser, overrides, more.made made, rest⟩

theorem CacheEntry.Sound.table_eq {h : History} {entry : CacheEntry} {r : Registered}
    (sound : entry.Sound h) (known : h.Knows r) (same : entry.id = r.id) :
    entry.table = .ofCommand r.command := by
  obtain ⟨command, declared, table⟩ := sound.table
  have command_eq : command = r.command := declared.unique known same
  rw [table, command_eq]

namespace Cache

variable {h : History} {cache : Cache} {r : Registered} {config : Config} {parser : Parser}

theorem Sound.extend {h' : History} (more : h.Extends h') (sound : cache.Sound h) :
    cache.Sound h' :=
  fun entry member => (sound entry member).extend more

theorem sound_empty (h : History) : ({} : Cache).Sound h := by
  intro entry member
  simp at member

theorem Sound.add (sound : cache.Sound h) {entry : CacheEntry} (new : entry.Sound h) :
    (cache.add entry).Sound h := by
  intro other member
  rcases List.mem_append.1 member with kept | last
  · exact sound other (List.mem_filter.1 kept).1
  · rw [List.mem_singleton.1 last]
    exact new

theorem Sound.invalidate (sound : cache.Sound h) (id : Nat) : (cache.invalidate id).2.Sound h := by
  intro entry member
  exact sound entry (List.mem_filter.1 member).1

theorem Sound.fetch (sound : cache.Sound h) (known : h.Knows r) :
    (cache.fetch r).1.Sound h ∧ (cache.fetch r).1.id = r.id ∧ (cache.fetch r).2.Sound h := by
  rw [Cache.fetch]
  cases found : cache.find? r.id with
  | some entry =>
      rw [Cache.find?] at found
      have member : entry ∈ cache.entries := List.mem_of_find?_eq_some found
      have same := List.find?_some found
      exact ⟨sound entry member, eq_of_beq same, sound⟩
  | none =>
      have new : CacheEntry.Sound h { id := r.id, table := .ofCommand r.command } :=
        ⟨⟨r.command, known, rfl⟩, by simp⟩
      exact ⟨new, rfl, sound.add new⟩

/-- Noting under an id is right for every entry with that id. -/
theorem Sound.note (sound : cache.Sound h) (known : h.Knows r) (made : h.Made config parser)
    {overrides : Options} (given : r.command.overrides = some overrides) :
    (cache.note r.id (resolve parser overrides)).Sound h := by
  intro entry member
  obtain ⟨old, old_member, rfl⟩ := List.mem_map.1 member
  have sound := sound old old_member
  split
  · rename_i same
    have table : old.table = .ofCommand r.command := sound.table_eq known (eq_of_beq same)
    refine ⟨sound.table, ?_⟩
    intro noted eq
    cases eq
    refine ⟨config, parser, overrides, made, ?_, rfl⟩
    rw [table]
    exact given
  · exact sound

/-! ## Look-up -/

/-- The patterns that a parser lends are those that would be made anew. -/
theorem resolve_ofConfig (generation : Nat) (config : Config) (overrides : Options) :
    resolve (.ofConfig generation config) overrides =
      ⟨generation, config.resolve overrides, .ofConfig (config.resolve overrides)⟩ := by
  unfold resolve
  by_cases same : (config.resolve overrides).delimiters = config.delimiters
  · simp [Parser.ofConfig, Patterns.ofConfig, same]
  · simp [Parser.ofConfig, same]

/-- What is noted for the generation of a parser is what the parser would resolve to. -/
theorem Sound.noted_eq {entry : CacheEntry} (sound : entry.Sound h) (made : h.Made config parser)
    {overrides : Options} (given : entry.table.overrides = some overrides) {noted : Resolved}
    (found : entry.resolved.filter (·.generation == parser.generation) = some noted) :
    noted = resolve parser overrides := by
  obtain ⟨found, current⟩ := Option.filter_eq_some_iff.1 found
  obtain ⟨_, parser', overrides', made', given', noted_eq⟩ := sound.resolved noted found
  have same : parser'.generation = parser.generation := by
    rw [noted_eq] at current
    exact eq_of_beq current
  have overrides_eq : overrides' = overrides := by
    rw [given] at given'
    exact (Option.some.inj given').symm
  rw [noted_eq, made'.unique made same, overrides_eq]

/-- A look-up answers the table of the declaration, and settings as if made anew. -/
theorem Sound.lookup (sound : cache.Sound h) (known : h.Knows r) (made : h.Made config parser) :
    ∃ cache', cache'.Sound h ∧ cache.lookup parser r =
      (.ofCommand r.command, (Table.ofCommand r.command).configFor config,
        .ofConfig ((Table.ofCommand r.command).configFor config), cache') := by
  obtain ⟨entry_sound, same, fetched⟩ := sound.fetch known
  have table : (cache.fetch r).1.table = .ofCommand r.command := entry_sound.table_eq known same
  unfold Cache.lookup
  cases given : (cache.fetch r).1.table.overrides with
  | none =>
      have shared : (Table.ofCommand r.command).configFor config = config := by
        rw [← table, Table.configFor, given]
      refine ⟨(cache.fetch r).2, fetched, ?_⟩
      simp only [given]
      rw [shared, table, made.2]
      rfl
  | some overrides =>
      have own : (Table.ofCommand r.command).configFor config = config.resolve overrides := by
        rw [← table, Table.configFor, given]
      have anew : resolve parser overrides = ⟨parser.generation,
          (Table.ofCommand r.command).configFor config,
          .ofConfig ((Table.ofCommand r.command).configFor config)⟩ := by
        rw [own, ← resolve_ofConfig, ← made.2]
      cases found : (cache.fetch r).1.resolved.filter (·.generation == parser.generation) with
      | some noted =>
          have noted_eq := Sound.noted_eq entry_sound made given found
          refine ⟨(cache.fetch r).2, fetched, ?_⟩
          simp only [given, found]
          rw [noted_eq, anew, table]
      | none =>
          have declared : r.command.overrides = some overrides := by
            rw [table] at given
            exact given
          refine ⟨_, fetched.note known made declared, ?_⟩
          simp only [given, found]
          rw [anew, table]

/-- A parse with a sound cache is a parse of the declaration. -/
theorem Sound.parse (sound : cache.Sound h) (known : h.Knows r) (made : h.Made config parser)
    (content : String) (message : Option Message) :
    ∃ cache', cache'.Sound h ∧ cache.parse parser r content message =
      (r.command.parse config content message, cache') := by
  obtain ⟨cache', sound', lookup⟩ := sound.lookup known made
  refine ⟨cache', sound', ?_⟩
  rw [Cache.parse, lookup]
  rfl

theorem parse_empty (generation : Nat) (config : Config) (r : Registered) (content : String)
    (message : Option Message) :
    (({} : Cache).parse (.ofConfig generation config) r content message).1 =
      r.command.parse config content message := by
  let h : History :=
    { declared := .replicate (r.id + 1) r.command
      settings := .replicate (generation + 1) config }
  have known : h.Knows r := by simp [h, History.Knows]
  have made : h.Made config (.ofConfig generation config) := by
    simp [h, History.Made, Parser.ofConfig]
  obtain ⟨_, _, parsed⟩ := (sound_empty h).parse known made content message
  rw [parsed]

end Cache

end ChatArgs
