import ChatArgs.Proofs.Parse.SingleWord

/-!
# Words attached to their markers

Options that take one value are named one after the other, each with a word behind a blank or
behind a sign of equality. Behind a blank every option takes its word. Behind a sign of equality
the word of every second option is also added to the value in front of it: there the marker
closes nothing, since the option before was closed by its own word.
-/

namespace ChatArgs

namespace Parse

open Text

def writtenWords (sign : Char) (pairs : List (String × String)) : List Char :=
  [' '].intercalate (pairs.map fun pair => markerOf pair.1 ++ sign :: pair.2.toList)

def glued : List (String × String) → List (String × String)
  | [] => []
  | [pair] => [pair]
  | (a, v) :: (b, w) :: pairs => (a, v ++ w) :: (b, w) :: glued pairs

theorem glued_names (pairs : List (String × String)) :
    (glued pairs).map (·.1) = pairs.map (·.1) := by
  induction pairs using glued.induct with
  | case1 => rfl
  | case2 pair => rfl
  | case3 a v b w pairs ih => simp [glued, ih]

theorem glued_eq_self_iff {pairs : List (String × String)}
    (filled : ∀ pair ∈ pairs, pair.2 ≠ "") : glued pairs = pairs ↔ pairs.length ≤ 1 := by
  match pairs with
  | [] => simp [glued]
  | [pair] => simp [glued]
  | (a, v) :: (b, w) :: pairs =>
      have word := filled (b, w) (by simp)
      have longer : v ++ w ≠ v := by
        intro same
        have lists := congrArg String.toList same
        rw [String.toList_append, List.append_right_eq_self, String.toList_eq_nil_iff] at lists
        exact word lists
      simp [glued, longer]

def behindFirst (sign : Char) : List (String × String) → List Char
  | [] => []
  | pairs => ' ' :: writtenWords sign pairs

theorem behindFirst_cons (sign : Char) (pair : String × String) (pairs : List (String × String)) :
    behindFirst sign (pair :: pairs) = ' ' :: writtenWords sign (pair :: pairs) := rfl

theorem writtenWords_cons (sign : Char) (name word : String) (pairs : List (String × String)) :
    writtenWords sign ((name, word) :: pairs) =
      markerOf name ++ sign :: (word.toList ++ behindFirst sign pairs) := by
  cases pairs with
  | nil => simp [writtenWords, behindFirst]
  | cons pair pairs => simp [writtenWords, behindFirst]

theorem gap_behindFirst (sign : Char) (pairs : List (String × String)) :
    ∀ x ∈ (behindFirst sign pairs).head?, isGap x = true := by
  cases pairs with
  | nil => simp [behindFirst]
  | cons pair pairs => exact isGap_of_head rfl _

namespace State

variable {ctx : Context} {p : Progress} {s : State}

/-! ## One option -/

section

variable {c : Cursor} (closes : ClosesTo ctx p c s) {name word : String}
  (fits : FitsWord ctx name word) {rest : List Char}
include closes fits

/-- A sign of equality belongs to the marker in front of it. -/
theorem sweep_signedMarker (split : c.rest = markerOf name ++ '=' :: (word.toList ++ rest)) :
    ∃ named : Named, named.option.name = name ∧ TakesWord ctx named.option ∧
      named.start = c.past (markerOf name ++ ['=']) (word.toList ++ rest) ∧
      s.sweep ctx c =
        ({ s.closedAt ctx c with named := some named } : State).sweep ctx named.start := by
  obtain ⟨-, enabled, valid, -⟩ := fits.item
  obtain ⟨option, declared, rfl, takes⟩ := fits.exists_option
  have found := tokenAt?_markerOf_sign enabled valid (word.toList ++ rest)
  rw [← split] at found
  have split' : c.rest = (markerOf option.name ++ ['=']) ++ (word.toList ++ rest) := by
    rw [split]
    simp
  obtain ⟨named, rfl, start, opens⟩ := closes.sweep_marker declared split' found
  rw [← start] at opens
  exact ⟨named, rfl, takes, start, opens⟩

/-- An option takes the word behind a sign of equality, if the marker closes an option or is the
first one. -/
theorem sweep_signedWord (distinct : (ctx.table.slots.map (·.name)).Nodup) {names : List String}
    (leaves : Leaves ctx p names) (stop : ∀ x ∈ rest.head?, isGap x = true)
    (apart : (s.closedAt ctx c).justClosed = true ∨ (s.closedAt ctx c).lastFilled = none)
    (split : c.rest = markerOf name ++ '=' :: (word.toList ++ rest)) :
    ∃ s', Tallied ctx (Item.read (ctx.table.slots.map (·.name)) p (.named name word)) s' ∧
      s'.lastFilled = some name ∧
      s.sweep ctx c = s'.sweep ctx (c.past (markerOf name ++ '=' :: word.toList) rest) := by
  obtain ⟨named, rfl, takes, start, opens⟩ := sweep_signedMarker closes fits split
  have behind : named.start.rest = word.toList ++ rest := by rw [start]; rfl
  have free := leaves.freeSlot_ne_none closes.closed.toRests
  have reads := sweep_wordApart (closes.closed.awaits leaves.goes free) takes fits.filled fits.parts
    stop behind (apart.imp_right .inl)
  rw [String.ofList_toList] at reads
  refine ⟨_, closes.closed.fillNamed distinct named takes.known word named.start.offset
    (named.start.past word.toList rest).offset, fillNamed_lastFilled named word _ _, ?_⟩
  rw [opens, reads, start, Cursor.past_past, List.append_assoc, List.singleton_append]

end

/-! ## Two options -/

section

variable {a b v w : String} {rest : List Char} {c : Cursor}

def signedPair (a v b w : String) : List Char :=
  markerOf a ++ '=' :: (v.toList ++ ' ' :: (markerOf b ++ '=' :: w.toList))

structure Opens (ctx : Context) (name word : String) (rest : List Char) (c : Cursor)
    (named : Named) : Prop where
  name : named.option.name = name
  takes : TakesWord ctx named.option
  split : named.start.rest = word.toList ++ rest
  path : named.start.past word.toList rest = c

/-- Where the marker closes nothing, the word behind a sign of equality is added to the value that
was given last, and the option stays open behind the sign. -/
theorem sweep_gluedWord {names : List String}
    (closes : ClosesTo ctx (Item.read (ctx.table.slots.map (·.name)) p (.named a v)) c s)
    (fits : FitsWord ctx b w)
    (leaves : Leaves ctx (Item.read (ctx.table.slots.map (·.name)) p (.named a v)) names)
    (stop : ∀ x ∈ rest.head?, isGap x = true)
    (lastFilled : (s.closedAt ctx c).lastFilled = some a)
    (unclosed : (s.closedAt ctx c).justClosed = false)
    (split : c.rest = markerOf b ++ '=' :: (w.toList ++ rest)) :
    ∃ (named : Named) (s' : State),
      Opens ctx b w rest (c.past (markerOf b ++ '=' :: w.toList) rest) named ∧
      Tallied ctx (Item.read (ctx.table.slots.map (·.name)) p (.named a (v ++ w))) s' ∧
      s.sweep ctx c = ({ s' with named := some named } : State).sweep ctx
        (c.past (markerOf b ++ '=' :: w.toList) rest) := by
  obtain ⟨named, rfl, takes, start, opens⟩ := sweep_signedMarker closes fits split
  have behind : named.start.rest = w.toList ++ rest := by rw [start]; rfl
  have before : '=' ∈ named.start.before := by
    rw [start, Cursor.past, List.getLast?_concat]
    rfl
  have free := leaves.freeSlot_ne_none closes.closed.toRests
  have reads := sweep_wordAttached (closes.closed.awaits leaves.goes free) takes fits.filled
    fits.parts stop behind lastFilled unclosed ⟨'=', before, by decide⟩
  have path : named.start.past w.toList rest =
      c.past (markerOf named.option.name ++ '=' :: w.toList) rest := by
    rw [start, Cursor.past_past]
    simp
  rw [String.ofList_toList, path] at reads
  exact ⟨named, _, ⟨rfl, takes, behind, path⟩, closes.closed.append _, opens.trans reads⟩

/-- The first option is closed by its word, so the marker of the second one closes nothing. -/
theorem sweep_signedPair (distinct : (ctx.table.slots.map (·.name)).Nodup)
    (closes : ClosesTo ctx p c s)
    (apart : (s.closedAt ctx c).justClosed = true ∨ (s.closedAt ctx c).lastFilled = none)
    (fitsFirst : FitsWord ctx a v) (fits : FitsWord ctx b w) {names : List String}
    (leaves : Leaves ctx p (a :: names)) (stop : ∀ x ∈ rest.head?, isGap x = true)
    (split : c.rest = signedPair a v b w ++ rest) :
    ∃ (named : Named) (s' : State),
      Opens ctx b w rest (c.past (signedPair a v b w) rest) named ∧
      Tallied ctx (Item.read (ctx.table.slots.map (·.name)) p (.named a (v ++ w))) s' ∧
      s.sweep ctx c = ({ s' with named := some named } : State).sweep ctx
        (c.past (signedPair a v b w) rest) := by
  let second : List Char := markerOf b ++ '=' :: (w.toList ++ rest)
  have split' : c.rest = markerOf a ++ '=' :: (v.toList ++ ' ' :: second) := by
    rw [split]
    simp [signedPair, second]
  have blank : ∀ x ∈ (' ' :: second).head?, isGap x = true := isGap_of_head rfl second
  obtain ⟨s', tallied, last, reads⟩ :=
    sweep_signedWord closes fitsFirst distinct leaves blank apart split'
  have leaves' := leaves.read (ctx.table.slots.map (·.name)) v
  generalize hnext : (c.past (markerOf a ++ '=' :: v.toList) (' ' :: second)).past [' '] second =
    next
  have closes' := tallied.closesTo leaves'.goes next
  obtain ⟨last', unclosed⟩ := tallied.closedAt_last next
  have there : next.rest = second := by rw [← hnext]; rfl
  obtain ⟨named, s'', opens, tallied', glues⟩ :=
    sweep_gluedWord closes' fits leaves' stop (last'.trans last) unclosed there
  have path :
      next.past (markerOf b ++ '=' :: w.toList) rest = c.past (signedPair a v b w) rest := by
    rw [← hnext, Cursor.past_past, Cursor.past_past]
    simp [signedPair]
  rw [path] at opens glues
  refine ⟨named, s'', opens, tallied', ?_⟩
  rw [reads, sweep_blank rfl, hnext, glues]

end

/-! ## Option after option -/

section

variable (distinct : (ctx.table.slots.map (·.name)).Nodup) {pairs : List (String × String)}
  (fits : ∀ pair ∈ pairs, FitsWord ctx pair.1 pair.2)
include distinct fits

theorem closeAll_spacedWords (tallied : Tallied ctx p s) (leaves : Leaves ctx p (pairs.map (·.1)))
    {c : Cursor} (split : c.rest = writtenWords ' ' pairs) :
    ((s.sweep ctx c).closeAll ctx).values =
      pairs.foldl (fun m pair => m.insert pair.1 pair.2) p.values := by
  induction pairs generalizing p s c with
  | nil =>
      rw [sweep_end split, tallied.closeAll]
      exact tallied.values
  | cons pair pairs ih =>
      have split' := split.trans (writtenWords_cons ' ' pair.1 pair.2 pairs)
      obtain ⟨s', tallied', reads⟩ := sweep_spacedWord (fits pair List.mem_cons_self)
        (gap_behindFirst ' ' pairs) split' distinct (tallied.closesTo leaves.goes c) leaves
      have fits' : ∀ other ∈ pairs, FitsWord ctx other.1 other.2 := fun other member =>
        fits other (List.mem_cons_of_mem pair member)
      rw [reads]
      cases pairs with
      | nil => exact ih fits' tallied' (leaves.read _ pair.2) rfl
      | cons next pairs =>
          rw [sweep_blank rfl]
          exact ih fits' tallied' (leaves.read _ pair.2) rfl

/-- Behind signs of equality, the word of every second option is found in front of it, too. -/
theorem closeAll_signedWords (filled : pairs ≠ []) {c : Cursor} (closes : ClosesTo ctx p c s)
    (apart : (s.closedAt ctx c).justClosed = true ∨ (s.closedAt ctx c).lastFilled = none)
    (leaves : Leaves ctx p (pairs.map (·.1))) (split : c.rest = writtenWords '=' pairs)
    (total : c.offset + byteLength c.rest = ctx.length) :
    ((s.sweep ctx c).closeAll ctx).values =
      (glued pairs).foldl (fun m pair => m.insert pair.1 pair.2) p.values := by
  induction pairs using glued.induct generalizing p s c with
  | case1 => exact absurd rfl filled
  | case2 pair =>
      have split' := split.trans (writtenWords_cons '=' pair.1 pair.2 [])
      obtain ⟨s', tallied, -, reads⟩ := sweep_signedWord closes
        (fits pair List.mem_cons_self) distinct leaves (gap_behindFirst '=' []) apart split'
      rw [reads, sweep_end rfl, tallied.closeAll]
      exact tallied.values
  | case3 a v b w pairs ih =>
      have split' : c.rest = signedPair a v b w ++ behindFirst '=' pairs := by
        rw [split, writtenWords_cons, behindFirst_cons, writtenWords_cons, signedPair]
        simp
      obtain ⟨named, s', opens, tallied, reads⟩ := sweep_signedPair distinct closes apart
        (fits (a, v) (by simp)) (fits (b, w) (by simp)) leaves (gap_behindFirst '=' pairs) split'
      obtain ⟨rfl, takes, behind, path⟩ := opens
      have word := fits (named.option.name, w) (by simp)
      have leaves' := (leaves.read (ctx.table.slots.map (·.name)) (v ++ w))
      have total' := Cursor.past_total split'
      rw [total, ← path, Cursor.past_total behind] at total'
      rw [reads]
      cases pairs with
      | nil =>
          rw [sweep_end rfl]
          exact tallied.closeAll_named distinct takes word.filled word.parts
            (behind.trans (List.append_nil _)) total'
      | cons pair pairs =>
          rw [sweep_blank rfl]
          generalize hnext : (c.past (signedPair a v named.option.name w)
            (behindFirst '=' (pair :: pairs))).past [' '] (writtenWords '=' (pair :: pairs)) = next
          have here : named.start.past (w.toList ++ [' ']) (writtenWords '=' (pair :: pairs)) =
              next := by
            rw [← hnext, ← path, Cursor.past_past]
          have there : next.rest = writtenWords '=' (pair :: pairs) := by rw [← hnext]; rfl
          have total'' : next.offset + byteLength next.rest = ctx.length := by
            rw [← here, Cursor.past_total (by rw [behind, behindFirst_cons]; simp), total']
          obtain ⟨closes', closed⟩ := tallied.closesTo_named distinct leaves'.goes takes word.filled
            word.parts behind here
          exact ih (fun other member => fits other (by simp [member])) (by simp) closes'
            (.inl closed) (leaves'.read _ w) there total''

theorem run_spacedWords (leaves : Leaves ctx {} (pairs.map (·.1)))
    (content : ctx.content = writtenWords ' ' pairs) :
    (run ctx none).values = Entries.ofList pairs := by
  rw [run_none]
  exact closeAll_spacedWords distinct fits (initial_tallied ctx) leaves content

theorem run_signedWords (leaves : Leaves ctx {} (pairs.map (·.1)))
    (content : ctx.content = writtenWords '=' pairs) :
    (run ctx none).values = Entries.ofList (glued pairs) := by
  have tallied := initial_tallied ctx
  rw [run_none]
  by_cases empty : pairs = []
  · subst empty
    rw [sweep_end content, tallied.closeAll]
    rfl
  · exact closeAll_signedWords distinct fits empty (tallied.closesTo leaves.goes _)
      (.inr (tallied.closedAt_last _).1) leaves content (Nat.zero_add _)

end

end State

end Parse

open Parse Text

namespace Command

variable {command : Command}

theorem leaves_names (distinct : (command.options.map (·.name)).Nodup) {config : Config}
    {content : List Char} {pairs : List (String × String)} (names : (pairs.map (·.1)).Nodup)
    (declared : ∀ pair ∈ pairs, ∃ o ∈ command.options, o.name = pair.1 ∧ o.isFillable = true)
    (room : ∃ o ∈ (Table.ofCommand command).slots, o.name ∉ pairs.map (·.1)) :
    State.Leaves ⟨content, Table.ofCommand command, config, .ofConfig config⟩ {}
      (pairs.map (·.1)) := by
  obtain ⟨o, slot, other⟩ := room
  have inner := List.mem_filter.1 (List.mem_filter.1 slot).1
  have length := Table.length_le_optionCount distinct (List.nodup_cons.2 ⟨other, names⟩) (by
    intro name member
    rcases List.mem_cons.1 member with rfl | named
    · exact ⟨o, inner.1, rfl, inner.2⟩
    · obtain ⟨pair, inside, rfl⟩ := List.mem_map.1 named
      exact declared pair inside)
  rw [List.length_cons] at length
  refine ⟨?_, o, slot, by simp, other⟩
  simp only [List.length_nil, Nat.zero_add]
  omega

/-- Options that take one value take the words behind blanks. Behind signs of equality the word of
every second option is also added to the word in front of it, so that the same is found for one
option only. -/
theorem parse_attachedWords (shared : Config) {pairs : List (String × String)}
    (distinct : (command.options.map (·.name)).Nodup)
    (noChoices : (Table.ofCommand command).choices = [])
    (fits : ∀ pair ∈ pairs,
      (Item.named pair.1 pair.2).Fits command ((Table.ofCommand command).configFor shared))
    (plain : ∀ pair ∈ pairs, ∀ c ∈ pair.2.toList, c.isAlphanum = true)
    (names : (pairs.map (·.1)).Nodup)
    (room : ∃ o ∈ (Table.ofCommand command).slots, o.name ∉ pairs.map (·.1)) :
    (command.parse shared (String.ofList (writtenWords ' ' pairs)) none).values = ⟨pairs⟩ ∧
      (command.parse shared (String.ofList (writtenWords '=' pairs)) none).values =
        ⟨glued pairs⟩ ∧
      ((command.parse shared (String.ofList (writtenWords '=' pairs)) none).values =
        (command.parse shared (String.ofList (writtenWords ' ' pairs)) none).values ↔
          pairs.length ≤ 1) := by
  have counted : 0 < (Table.ofCommand command).optionCount := by
    obtain ⟨o, slot, -⟩ := room
    exact Table.optionCount_pos_of_slot slot
  simp only [Command.parse]
  generalize (Table.ofCommand command).configFor shared = config at fits ⊢
  have fitsWord (content : List Char) : ∀ pair ∈ pairs, State.FitsWord
      ⟨content, Table.ofCommand command, config, .ofConfig config⟩ pair.1 pair.2 := by
    intro pair member
    exact ⟨fitsItem distinct (fits pair member),
      fun x inside => isNamePart_of_isAlphanum (plain pair member x inside)⟩
  have declared : ∀ pair ∈ pairs, ∃ o ∈ command.options, o.name = pair.1 ∧ o.isFillable = true := by
    intro pair member
    obtain ⟨-, -, -, o, known, name, fillable, -⟩ := fits pair member
    exact ⟨o, known, name, fillable⟩
  have leaves (content : List Char) : State.Leaves
      ⟨content, Table.ofCommand command, config, .ofConfig config⟩ {} (pairs.map (·.1)) :=
    leaves_names distinct names declared room
  have slots := Table.slot_names_nodup distinct
  have spaced := State.run_spacedWords slots (fitsWord _) (leaves (writtenWords ' ' pairs)) rfl
  have signed := State.run_signedWords slots (fitsWord _) (leaves (writtenWords '=' pairs)) rfl
  rw [parse_of_noChoices counted noChoices, parse_of_noChoices counted noChoices,
    String.toList_ofList, String.toList_ofList, spaced, signed, Entries.ofList_of_nodup names,
    Entries.ofList_of_nodup (by rw [glued_names]; exact names)]
  refine ⟨rfl, rfl, ?_⟩
  rw [Entries.mk.injEq]
  exact glued_eq_self_iff fun pair member => (fits pair member).1

theorem parse_attachedWords_three :
    ((⟨"go", [{ name := "a" }, { name := "p" }, { name := "b" }, { name := "c", flag := true }],
        none⟩ : Command).parse { singleValue := true } "--a=x --b=yy --c=z" none).values =
      ⟨[("a", "xyy"), ("b", "yy"), ("c", "z")]⟩ := by
  have identifiers : ∀ name ∈ ["a", "b", "c"], IsIdentifier name.toList := by
    intro name member
    simp only [List.mem_cons, List.not_mem_nil, or_false] at member
    rcases member with rfl | rfl | rfl <;>
      exact ⟨⟨_, rfl, rfl⟩, List.all_eq_true.1 (by decide +kernel)⟩
  have fits : ∀ pair ∈ [("a", "x"), ("b", "yy"), ("c", "z")],
      (Item.named pair.1 pair.2).Fits ⟨"go", [{ name := "a" }, { name := "p" }, { name := "b" },
        { name := "c", flag := true }], none⟩ { singleValue := true } := by
    simp only [List.mem_cons, List.not_mem_nil, or_false]
    rintro pair (rfl | rfl | rfl)
    · exact ⟨by decide, rfl, identifiers "a" (by simp), { name := "a" }, by simp, rfl, rfl, rfl⟩
    · exact ⟨by decide, rfl, identifiers "b" (by simp), { name := "b" }, by simp, rfl, rfl, rfl⟩
    · exact ⟨by decide, rfl, identifiers "c" (by simp), { name := "c", flag := true }, by simp, rfl,
        rfl, rfl⟩
  have plain : ∀ pair ∈ [("a", "x"), ("b", "yy"), ("c", "z")],
      ∀ c ∈ pair.2.toList, c.isAlphanum = true := by
    simp only [List.mem_cons, List.not_mem_nil, or_false]
    rintro pair (rfl | rfl | rfl) <;> exact List.all_eq_true.1 (by decide +kernel)
  exact (parse_attachedWords { singleValue := true } (by decide +kernel) (by simp [Table.ofCommand])
    fits plain (by decide +kernel)
    ⟨{ name := "p" }, List.mem_of_getElem? (i := 1) rfl, by decide +kernel⟩).2.1

/-- The second word is found with both options. -/
theorem not_parse_attachedWords_two :
    ¬ ∀ (command : Command) (shared : Config) (pairs : List (String × String)),
      shared.singleValue = true → shared.delimiters = {} → command.overrides = none →
      command.defect? = none → (∀ o ∈ command.options, o.choices = [] ∧ o.singleValue = none) →
      (∀ pair ∈ pairs, (Item.named pair.1 pair.2).Fits command shared ∧
        ∀ c ∈ pair.2.toList, c.isAlphanum = true) →
      (pairs.map (·.1)).Nodup →
      (∃ o ∈ (Table.ofCommand command).slots, o.name ∉ pairs.map (·.1)) →
      (command.parse shared (String.ofList (writtenWords '=' pairs)) none).values =
        (command.parse shared (String.ofList (writtenWords ' ' pairs)) none).values := by
  intro always
  have identifiers : ∀ name ∈ ["a", "b"], IsIdentifier name.toList := by
    intro name member
    simp only [List.mem_cons, List.not_mem_nil, or_false] at member
    rcases member with rfl | rfl <;>
      exact ⟨⟨_, rfl, rfl⟩, List.all_eq_true.1 (by decide +kernel)⟩
  have fits : ∀ pair ∈ [("a", "x"), ("b", "y")],
      (Item.named pair.1 pair.2).Fits
          ⟨"go", [{ name := "a" }, { name := "b" }, { name := "p" }], none⟩
          { singleValue := true } ∧
        ∀ c ∈ pair.2.toList, c.isAlphanum = true := by
    simp only [List.mem_cons, List.not_mem_nil, or_false]
    rintro pair (rfl | rfl)
    · exact ⟨⟨by decide, rfl, identifiers "a" (by simp), { name := "a" }, by simp, rfl, rfl, rfl⟩,
        List.all_eq_true.1 (by decide +kernel)⟩
    · exact ⟨⟨by decide, rfl, identifiers "b" (by simp), { name := "b" }, by simp, rfl, rfl, rfl⟩,
        List.all_eq_true.1 (by decide +kernel)⟩
  have same := always ⟨"go", [{ name := "a" }, { name := "b" }, { name := "p" }], none⟩
    { singleValue := true } [("a", "x"), ("b", "y")] rfl rfl rfl (by decide +kernel)
    (by decide +kernel) fits (by decide +kernel)
    ⟨{ name := "p" }, List.mem_of_getElem? (i := 2) rfl, by decide +kernel⟩
  have attached : ((⟨"go", [{ name := "a" }, { name := "b" }, { name := "p" }], none⟩ :
      Command).parse { singleValue := true }
        (String.ofList (writtenWords '=' [("a", "x"), ("b", "y")])) none).values =
      ⟨[("a", "xy"), ("b", "y")]⟩ := rfl
  have spaced : ((⟨"go", [{ name := "a" }, { name := "b" }, { name := "p" }], none⟩ :
      Command).parse { singleValue := true }
        (String.ofList (writtenWords ' ' [("a", "x"), ("b", "y")])) none).values =
      ⟨[("a", "x"), ("b", "y")]⟩ := rfl
  rw [attached, spaced] at same
  exact absurd (congrArg Entries.toList same) (by decide +kernel)

end Command

end ChatArgs
