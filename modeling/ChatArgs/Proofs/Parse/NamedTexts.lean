import ChatArgs.Proofs.Command.Names
import ChatArgs.Proofs.Parse.NamedText

/-!
# Sequences of named texts

Under the default configuration a named option takes the text up to the next marker. Where
the text is escaped and trimmed, a parse finds it as it was, whatever it holds, and the order
of the options does not count.
-/

namespace ChatArgs

namespace Parse

open Text

def namedText (pair : String × String) : List Char :=
  markerOf pair.1 ++ ' ' :: escape { hyphen := true, colon := true } pair.2.toList

def namedTexts (pairs : List (String × String)) : List Char :=
  [' '].intercalate (pairs.map namedText)

/-- The name is that of an option that a marker can open and that takes all text, and the text
is trimmed and not empty. -/
structure FitsNamed (command : Command) (config : Config) (pair : String × String) : Prop where
  identifier : IsIdentifier pair.1.toList
  option : ∃ o ∈ command.options, o.name = pair.1 ∧ o.isFillable = true ∧
    o.takesOneValue config.singleValue = false
  filled : pair.2 ≠ ""
  trimmed : trim pair.2.toList = pair.2.toList

namespace State

variable {ctx : Context} {s : State} {values : Entries String}

/-! ## The value of an option -/

section

variable {named : Named} {stop : Nat} {text back : List Char}
  (reads : ReadsMarkers ctx) (collects : Collects ctx values (some named) s)
  (family : named.family = .hyphen)
  (raw : named.start.textTo stop =
    ' ' :: (Parse.escape (ctx.patterns.delimiters.escapedMarkers none) text ++ back))
  (blank : back = [] ∨ back = [' ']) (trimmed : trim text = text)
include reads collects family raw blank trimmed

/-- An escaped text between blanks is found as it was. -/
theorem Collects.namedValue : s.namedValue ctx named stop = text := by
  have escapes : ctx.patterns.delimiters.markerEscapes s.family .hyphen =
      some (ctx.patterns.delimiters.escapedMarkers none) := by
    simp [Delimiters.markerEscapes, reads.hasMarkers, collects.family]
  have noSign (cs : List Char) : splitSign (' ' :: cs) = ([], ' ' :: cs) := by simp [splitSign]
  have blanks : ∀ c ∈ back, isBlank c = true := by
    rcases blank with rfl | rfl
    · simp
    · simp [show isBlank ' ' = true by decide]
  have inner : trim ([' '] ++ text ++ back) = trim text :=
    trim_surround (by simp [show isBlank ' ' = true by decide]) blanks
  rw [State.namedValue, raw, family]
  simp only [noSign, escapes, unescapeWith]
  rw [unescape_between_blanks _ _ blank, inner, trimmed, List.nil_append]

theorem Collects.closeNamed (filled : text ≠ []) :
    Collects ctx (values.insert named.option.name (String.ofList text)) none
      (s.closeNamed ctx stop) := by
  have value := Collects.namedValue reads collects family raw blank trimmed
  have notBlank : text.all isBlank = false := by
    rw [Bool.eq_false_iff]
    intro all
    rw [List.all_eq_true] at all
    exact filled (trimmed.symm.trans (trim_of_blank all))
  have found : (s.closeNamed ctx stop).values =
      values.insert named.option.name (String.ofList text) := by
    rw [State.closeNamed, collects.named]
    simp only [value, notBlank, Bool.and_false, Bool.false_and, Bool.false_eq_true, if_false]
    rw [setValue, markFilled_frame, collects.values]
  rw [closeNamed_frame] at found ⊢
  exact ⟨found, rfl, collects.longText, collects.held, collects.lastSlot, collects.family⟩

end

theorem Collects.closeAll (closed : Collects ctx values none (s.closeNamed ctx ctx.length))
    (noLast : s.lastSlot = none) : (s.closeAll ctx).values = values := by
  have sameLast : s.closeLastSlot ctx ctx.length [] = s := by rw [closeLastSlot, noLast]
  have sameLong : (s.closeNamed ctx ctx.length).closeLongText ctx ctx.length =
      s.closeNamed ctx ctx.length := by
    rw [closeLongText, closed.longText]
  rw [State.closeAll, sameLast, sameLong, closed.values]

/-! ## Text after text -/

/-- `FitsNamed`, as a parse sees it. -/
structure OpensOption (ctx : Context) (pair : String × String) (option : OptionDecl) : Prop where
  identifier : IsIdentifier pair.1.toList
  declared : ctx.table.option? pair.1 = some option
  name : option.name = pair.1
  whole : option.takesOneValue ctx.config.singleValue = false
  filled : pair.2.toList ≠ []
  trimmed : trim pair.2.toList = pair.2.toList

theorem Collects.quiet {named : Option Named} (collects : Collects ctx values named s) :
    Collects ctx values named { s with justClosed := false } :=
  ⟨collects.values, collects.named, collects.longText, collects.held, collects.lastSlot,
    collects.family⟩

theorem Collects.opened {option : OptionDecl} {start stop : Cursor}
    (closes : Collects ctx values none (s.closeNamed ctx start.offset)) :
    Collects ctx values (some ⟨option, stop, start.offset, .hyphen⟩)
      (s.opened ctx option start stop) :=
  ⟨closes.values, rfl, closes.longText, closes.held, closes.lastSlot, closes.family⟩

def laterTexts (pairs : List (String × String)) : List Char :=
  pairs.flatMap fun pair => ' ' :: namedText pair

theorem namedTexts_cons (pair : String × String) (pairs : List (String × String)) :
    namedTexts (pair :: pairs) = namedText pair ++ laterTexts pairs := by
  induction pairs generalizing pair with
  | nil => simp [namedTexts, laterTexts]
  | cons next pairs ih =>
      have more := ih next
      rw [namedTexts] at more
      rw [namedTexts, List.map_cons, List.map_cons, List.intercalate_cons_cons, laterTexts,
        List.flatMap_cons]
      rw [List.map_cons] at more
      rw [more]
      simp [laterTexts]

structure Expects (ctx : Context) (named : Named) (text : String)
    (pairs : List (String × String)) : Prop where
  whole : named.option.takesOneValue ctx.config.singleValue = false
  family : named.family = .hyphen
  filled : text.toList ≠ []
  trimmed : trim text.toList = text.toList
  split : named.start.rest =
    (' ' :: Parse.escape { hyphen := true, colon := true } text.toList) ++ laterTexts pairs
  total : named.start.offset + byteLength named.start.rest = ctx.length

section

variable (reads : ReadsMarkers ctx)
include reads

theorem Collects.sweep_marker {before : Option Named} (collects : Collects ctx values before s)
    {pair : String × String} {pairs : List (String × String)} {option : OptionDecl}
    (opens : OpensOption ctx pair option) {c : Cursor}
    (split : c.rest = namedText pair ++ laterTexts pairs)
    (total : c.offset + byteLength c.rest = ctx.length) {values' : Entries String}
    (closes : Collects ctx values' none
      (({ s with justClosed := false } : State).closeNamed ctx c.offset)) :
    ∃ named s', named.option.name = pair.1 ∧ Expects ctx named pair.2 pairs ∧
      Collects ctx values' (some named) s' ∧ s.sweep ctx c = s'.sweep ctx named.start := by
  have unlocked : ({ s with justClosed := false } : State).locked ctx =
      { s with justClosed := false } := by simp [locked, reads.anyFamily]
  have split' : c.rest = markerOf pair.1 ++ ' ' ::
      (Parse.escape { hyphen := true, colon := true } pair.2.toList ++ laterTexts pairs) := by
    rw [split, namedText]
    simp
  have opened := State.sweep_marker collects.longText collects.held collects.lastSlot
    (by simp [collects.family]) opens.declared reads.enabled opens.identifier (reads.stops s) split'
  rw [unlocked] at opened
  have expects : Expects ctx ⟨option, c.past (markerOf pair.1) _, c.offset, .hyphen⟩ pair.2 pairs :=
    ⟨opens.whole, rfl, opens.filled, opens.trimmed, rfl, (Cursor.past_total split').trans total⟩
  exact ⟨_, _, opens.name, expects, Collects.opened closes, opened⟩

variable (both : ctx.patterns.delimiters.escapedMarkers none = { hyphen := true, colon := true })
include both

theorem Collects.sweep_text {named : Named} {text : String} {pairs : List (String × String)}
    (collects : Collects ctx values (some named) s) (expects : Expects ctx named text pairs) :
    ∃ s', Collects ctx values (some named) s' ∧ s.sweep ctx named.start = s'.sweep ctx
      (named.start.past (' ' :: Parse.escape { hyphen := true, colon := true } text.toList)
        (laterTexts pairs)) := by
  have guard : guarded (ctx.patterns.delimiters.escapedMarkers none) false
      (' ' :: Parse.escape { hyphen := true, colon := true } text.toList) = true := by
    rw [both, guarded, if_neg (by decide), guarded_escape]
    rfl
  have ends : ∀ x ∈ (laterTexts pairs).head?, x = ' ' := by
    intro x member
    cases pairs with
    | nil => simp [laterTexts] at member
    | cons pair pairs => exact (Option.some.inj member).symm
  exact collects.sweep_guarded reads expects.whole expects.split ends guard (by simp)

theorem Collects.closeAll_sweep {named : Named} {text : String} {pairs : List (String × String)}
    (collects : Collects ctx values (some named) s) (expects : Expects ctx named text pairs)
    (opens : ∀ pair ∈ pairs, ∃ option, OpensOption ctx pair option) :
    ((s.sweep ctx named.start).closeAll ctx).values =
      pairs.foldl (fun m pair => m.insert pair.1 pair.2)
        (values.insert named.option.name text) := by
  induction pairs generalizing s values named text with
  | nil =>
      obtain ⟨s', collects', passed⟩ := collects.sweep_text reads both expects
      have raw : named.start.textTo ctx.length = ' ' ::
          (Parse.escape (ctx.patterns.delimiters.escapedMarkers none) text.toList ++ []) := by
        rw [← expects.total, Cursor.textTo_eq_rest, expects.split, both]
        rfl
      have closed := Collects.closeNamed reads collects' expects.family raw (.inl rfl)
        expects.trimmed expects.filled
      rw [passed, sweep_end rfl, closed.closeAll collects'.lastSlot, String.ofList_toList]
      rfl
  | cons pair pairs ih =>
      obtain ⟨option, opens'⟩ := opens pair List.mem_cons_self
      obtain ⟨s', collects', passed⟩ := collects.sweep_text reads both expects
      -- The place in front of the next marker.
      generalize hfront : (' ' :: Parse.escape { hyphen := true, colon := true } text.toList) ++
        [' '] = front
      generalize hnext : named.start.past front (namedText pair ++ laterTexts pairs) = next
      have blank : s'.sweep ctx (named.start.past (' ' ::
            Parse.escape { hyphen := true, colon := true } text.toList)
            (laterTexts (pair :: pairs))) = s'.sweep ctx next := by
        rw [sweep_blank rfl, Cursor.past_past, hfront, ← hnext]
        rfl
      have split : named.start.rest = front ++ (namedText pair ++ laterTexts pairs) := by
        rw [expects.split, ← hfront]
        simp [laterTexts]
      have offset : next.offset = named.start.offset + byteLength front := by
        rw [← hnext]
        rfl
      have raw : named.start.textTo next.offset = ' ' ::
          (Parse.escape (ctx.patterns.delimiters.escapedMarkers none) text.toList ++ [' ']) := by
        rw [offset, Cursor.textTo_eq_front split, ← hfront, both]
        rfl
      have closed := Collects.closeNamed reads collects'.quiet expects.family raw (.inr rfl)
        expects.trimmed expects.filled
      have marker : next.rest = namedText pair ++ laterTexts pairs := by
        rw [← hnext]
        rfl
      have total : next.offset + byteLength next.rest = ctx.length := by
        rw [← hnext]
        exact (Cursor.past_total split).trans expects.total
      obtain ⟨named', s'', name, expects', opened, found⟩ :=
        collects'.sweep_marker reads opens' marker total closed
      have others := ih opened expects' fun other member =>
        opens other (List.mem_cons_of_mem pair member)
      rw [passed, blank, found, others, List.foldl_cons, name, String.ofList_toList]

end

end State

end Parse

open Parse Text

namespace Command

variable {command : Command}

theorem opensOption {config : Config} (distinct : (command.options.map (·.name)).Nodup)
    {content : List Char} {pair : String × String} (fits : FitsNamed command config pair) :
    ∃ option, State.OpensOption
      ⟨content, Table.ofCommand command, config, .ofConfig config⟩ pair option := by
  obtain ⟨o, member, name, fillable, whole⟩ := fits.option
  have known := Table.option?_of_mem distinct member fillable
  rw [name] at known
  have filled : pair.2.toList ≠ [] := fun empty =>
    fits.filled (String.toList_eq_nil_iff.1 empty)
  exact ⟨o, fits.identifier, known, name, whole, filled, fits.trimmed⟩

/-- A marker opens the first option, and then text is found after text. -/
theorem run_namedTexts (ctx : Context) (reads : ReadsMarkers ctx)
    (both : ctx.patterns.delimiters.escapedMarkers none = { hyphen := true, colon := true })
    {pairs : List (String × String)}
    (opens : ∀ pair ∈ pairs, ∃ option, State.OpensOption ctx pair option)
    (content : ctx.content = namedTexts pairs) :
    (State.run ctx none).values = Entries.ofList pairs := by
  rw [State.run_none]
  cases pairs with
  | nil =>
      rw [State.sweep_end content]
      rfl
  | cons pair pairs =>
      obtain ⟨option, opens'⟩ := opens pair List.mem_cons_self
      have marker : (Cursor.start ctx.content).rest = namedText pair ++ State.laterTexts pairs := by
        rw [Cursor.start, content, State.namedTexts_cons]
      have total : (Cursor.start ctx.content).offset + byteLength (Cursor.start ctx.content).rest =
          ctx.length := Nat.zero_add _
      have closed : State.Collects ctx {} none
          (({ State.initial ctx with justClosed := false } : State).closeNamed ctx
            (Cursor.start ctx.content).offset) := (State.initial_collects ctx).quiet
      obtain ⟨named, s, name, expects, collects, opened⟩ :=
        (State.initial_collects ctx).sweep_marker reads opens' marker total closed
      have found := collects.closeAll_sweep reads both expects
        fun other member => opens other (List.mem_cons_of_mem pair member)
      rw [opened, found, name]
      rfl

theorem values_of_namedTexts (shared : Config) {pairs : List (String × String)}
    (distinct : (command.options.map (·.name)).Nodup)
    (noChoices : (Table.ofCommand command).choices = [])
    (default : (Table.ofCommand command).configFor shared = {})
    (names : (pairs.map (·.1)).Nodup)
    (fits : ∀ pair ∈ pairs, FitsNamed command {} pair) :
    (command.parse shared (String.ofList (namedTexts pairs)) none).values = ⟨pairs⟩ := by
  rw [Command.parse, default]
  by_cases counted : 0 < (Table.ofCommand command).optionCount
  · have found := run_namedTexts
      ⟨namedTexts pairs, Table.ofCommand command, {}, .ofConfig {}⟩ ⟨rfl, rfl, rfl⟩ rfl
      (fun pair member => opensOption distinct (fits pair member)) rfl
    rw [parse_of_noChoices counted noChoices, String.toList_ofList, found,
      Entries.ofList_of_nodup names]
  · have none : (Table.ofCommand command).optionCount = 0 := by omega
    have empty : pairs = [] := by
      cases pairs with
      | nil => rfl
      | cons pair pairs =>
          exfalso
          obtain ⟨o, member, -, fillable, -⟩ := (fits pair List.mem_cons_self).option
          exact counted (Table.optionCount_pos distinct member fillable)
    rw [empty, Table.parse, none]
    rfl

/-- Named texts are found as they were, under their names and nowhere else, in whichever order
they are written. -/
theorem parse_namedTexts (shared : Config) {pairs : List (String × String)}
    (distinct : (command.options.map (·.name)).Nodup)
    (noChoices : (Table.ofCommand command).choices = [])
    (default : (Table.ofCommand command).configFor shared = {})
    (names : (pairs.map (·.1)).Nodup)
    (fits : ∀ pair ∈ pairs, FitsNamed command {} pair) :
    (command.parse shared (String.ofList (namedTexts pairs)) none).values = ⟨pairs⟩ ∧
      ∀ pairs' : List (String × String), pairs'.Perm pairs → ∀ name,
        (command.parse shared (String.ofList (namedTexts pairs')) none).values.get? name =
          (command.parse shared (String.ofList (namedTexts pairs)) none).values.get? name := by
  have values := values_of_namedTexts shared distinct noChoices default names fits
  refine ⟨values, ?_⟩
  intro pairs' perm name
  have names' : (pairs'.map (·.1)).Nodup := (perm.map (·.1)).nodup_iff.2 names
  have values' := values_of_namedTexts shared distinct noChoices default names'
    fun pair member => fits pair (perm.mem_iff.1 member)
  rw [values, values']
  exact Entries.find_perm names perm name

/-- A text that looks like a marker of another option, and a flag with a text. -/
theorem parse_namedTexts_marker :
    ((⟨"go", [{ name := "to" }, { name := "fast", flag := true }], none⟩ : Command).parse {}
        "--fast a\\\\ --to \\-\\-fast\\: \"b\"" none).values =
      ⟨[("fast", "a\\"), ("to", "--fast: \"b\"")]⟩ := by
  have fits : ∀ pair ∈ [("fast", "a\\"), ("to", "--fast: \"b\"")], FitsNamed
      ⟨"go", [{ name := "to" }, { name := "fast", flag := true }], none⟩ {} pair := by
    simp only [List.mem_cons, List.not_mem_nil, or_false]
    rintro pair (rfl | rfl)
    · exact ⟨⟨⟨'f', rfl, rfl⟩, List.all_eq_true.1 (by decide +kernel)⟩,
        ⟨{ name := "fast", flag := true }, by simp, rfl, rfl, rfl⟩, by decide, by decide +kernel⟩
    · exact ⟨⟨⟨'t', rfl, rfl⟩, List.all_eq_true.1 (by decide +kernel)⟩,
        ⟨{ name := "to" }, by simp, rfl, rfl, rfl⟩, by decide, by decide +kernel⟩
  have written : String.ofList (namedTexts [("fast", "a\\"), ("to", "--fast: \"b\"")]) =
      "--fast a\\\\ --to \\-\\-fast\\: \"b\"" := rfl
  have parsed := parse_namedTexts {} (by decide) rfl rfl (by decide) fits
  rw [written] at parsed
  exact parsed.1

end Command

end ChatArgs
