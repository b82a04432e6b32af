import ChatArgs.Proofs.Parse.Alike
import ChatArgs.Proofs.Parse.NamedText
import ChatArgs.Proofs.Parse.Waiting

/-!
# An option behind a text

A marker closes what is open in front of it, and the end of a text does the same. Where the
text has no quotes and no backslashes both find the same values, whatever is open: so an option
that is named behind a text gets its value, and every other option keeps the one it has.
-/

namespace ChatArgs

namespace Parse

open Text

/-! ## More text -/

def Context.extend (tail : List Char) (ctx : Context) : Context :=
  { ctx with content := ctx.content ++ tail }

section

variable {tail : List Char}

theorem Change.place_tail (c : Cursor) : Change.place { tail := tail } c = c.extend tail := by
  rw [place, Cursor.map_id]

theorem Change.entries_tail (values : Entries String) :
    Change.entries { tail := tail } values = values := by
  simp [entries]

variable {ctx : Context}

theorem context_tail : Change.context { tail := tail } ctx ctx.table = ctx.extend tail := by
  rw [Change.context, List.map_id, Context.extend]

theorem relates_tail (blank : tail.head? = some ' ') :
    Change.Relates { tail := tail } ctx ctx.table where
  neutral := .id _
  tail := .inr blank
  slots := rfl
  optionCount := (Nat.zero_add _).symm
  option? := fun _ _ => rfl
  fresh := by simp [Change.Seats]
  unmarked := by simp [Change.Seats]

end

/-! ## Plain values -/

def Named.valueOf (named : Named) (text : List Char) : String :=
  if named.family == .hyphen && text.all isBlank && named.option.kind == .boolean then "true"
  else String.ofList text

namespace State

variable {ctx : Context} {s s' : State} {cs tail : List Char} {stop : Nat}

theorem splitSign_of_notMem (plain : '\\' ∉ cs) : splitSign cs = ([], cs) := by
  have none : cs.takeWhile (· == '\\') = [] := by
    cases cs with
    | nil => rfl
    | cons c cs =>
        simp only [List.mem_cons, not_or] at plain
        simp [Ne.symm plain.1]
  cases cs with
  | nil => rfl
  | cons c cs => simp [splitSign, none]

theorem namedValue_of_notMem {named : Named} (raw : named.start.textTo stop = cs)
    (plain : '\\' ∉ cs) : s.namedValue ctx named stop = trim cs := by
  unfold namedValue
  rw [raw]
  cases named.family with
  | hyphen => simp [splitSign_of_notMem plain, unescapeWith_of_notMem _ plain]
  | colon => simp [unescapeWith_of_notMem _ plain]

theorem closeNamed_values {named : Named} (opened : s.named = some named)
    (raw : named.start.textTo stop = cs) (plain : '\\' ∉ cs) :
    (s.closeNamed ctx stop).values =
      s.values.insert named.option.name (named.valueOf (trim cs)) := by
  unfold closeNamed Named.valueOf
  rw [opened]
  dsimp only
  rw [namedValue_of_notMem raw plain, markFilled_frame]
  split <;> rfl

theorem closeLastSlot_values {slot : LastSlot} (opened : s.lastSlot = some slot)
    (raw : slot.start.textTo stop = cs) (plain : '\\' ∉ cs) :
    (s.closeLastSlot ctx stop []).values =
      s.values.insert slot.name (String.ofList (trim (slot.front.toList ++ cs))) := by
  unfold closeLastSlot
  rw [opened]
  simp only [raw, unescapeWith_of_notMem _ plain, List.append_nil, ite_self]
  rfl

theorem closeAll_eq (noLong : s.longText = none) :
    s.closeAll ctx = (s.closeLastSlot ctx ctx.length []).closeNamed ctx ctx.length := by
  have noLong' : ((s.closeLastSlot ctx ctx.length []).closeNamed ctx ctx.length).longText =
      none := ((puts_closeLastSlot ..).trans (puts_closeNamed ..)).keeps.longText.trans noLong
  rw [closeAll, closeLongText, noLong']

theorem closeNamed_of_none (noNamed : s.named = none) : s.closeNamed ctx stop = s := by
  rw [closeNamed, noNamed]

theorem closeLastSlot_of_none (noLast : s.lastSlot = none) (post : List Char) :
    s.closeLastSlot ctx stop post = s := by
  rw [closeLastSlot, noLast]

/-! ## The end of a text, and a marker behind it -/

/-- Where text is held there is no slot for it. -/
theorem flushHeld_eq (settled : Settled ctx none s) (noNamed : s.named = none)
    (noLast : s.lastSlot = none) (stop : Nat) : s.flushHeld ctx stop = { s with held := none } := by
  cases waiting : s.held with
  | none =>
      have same : ({ s with held := none } : State) = s := by rw [← waiting]
      rw [flushHeld, waiting, same]
  | some held =>
      have full : s.freeSlot? = none := by
        rcases settled.waits (by simp [waiting]) with visible | full | named | last
        · simp [isVisible] at visible
        · exact full
        · exact absurd noNamed named
        · exact absurd noLast last
      have full' : ({ s with held := none } : State).freeSlot? = none := full
      have noSingle : ({ s with held := none } : State).openSingle? ctx = none := by
        simp [openSingle?, noNamed]
      rw [flushHeld, waiting]
      simp only [place, noSingle, fillSlot, full']

section

variable (t : Token) (family : Family) (option : OptionDecl) (justClosed : Bool)

theorem openNamed_lastSlot (escapes : Nat) :
    (s.openNamed ctx t escapes family option justClosed).lastSlot = none := by
  unfold openNamed
  simp only
  rw [closeLastSlot_frame]

/-! A marker closes the one thing that is open in front of it. -/

theorem openNamed_values_of_slots (settled : Settled ctx none s) (noNamed : s.named = none)
    (noLast : s.lastSlot = none) :
    (s.openNamed ctx t 0 family option justClosed).values = s.values := by
  obtain ⟨quiet, flushed, noNamed', noLast', values⟩ :
      ∃ quiet, s.flushHeld ctx t.start.offset = quiet ∧ quiet.named = none ∧
        quiet.lastSlot = none ∧ quiet.values = s.values :=
    ⟨_, flushHeld_eq settled noNamed noLast _, noNamed, noLast, rfl⟩
  simp [openNamed, backslashes, noNamed, noLast, flushed, closeNamed_of_none noNamed',
    closeLastSlot_of_none noLast', values]

theorem openNamed_values_of_named (opened : s.named ≠ none) (noLast : s.lastSlot = none) :
    (s.openNamed ctx t 0 family option justClosed).values =
      (s.closeNamed ctx t.start.offset).values := by
  have noLast' : (s.closeNamed ctx t.start.offset).lastSlot = none := by
    rw [closeNamed_frame]
    exact noLast
  simp [openNamed, backslashes, opened, closeLastSlot_of_none noLast']

theorem openNamed_values_of_last (noNamed : s.named = none) (opened : s.lastSlot ≠ none) :
    (s.openNamed ctx t 0 family option justClosed).values =
      (s.closeLastSlot ctx t.start.offset []).values := by
  simp [openNamed, backslashes, opened, closeNamed_of_none noNamed]

end

theorem Settled.extend (settled : Settled ctx none s)
    (alike : Alike { tail := tail } ctx ctx.table s s') :
    Settled (ctx.extend tail) none s' := by
  obtain ⟨-, rfl, -⟩ := alike
  obtain ⟨noLong, noEscape, slots, waits⟩ := settled
  refine ⟨?_, ?_, slots, ?_⟩
  · simp [image, noLong]
  · simp [image, noEscape]
  · simpa [Waits, image, freeSlot?] using waits

/-! What is closed takes the same text up to the end and up to a blank behind it. -/

section

variable (values : s'.values = s.values) (plain : '\\' ∉ ctx.content)
  (blank : tail.head? = some ' ')
include values plain blank

theorem closeNamed_values_blank {named : Named} (inside : named.start.In ctx.content)
    (opened : s.named = some named) (opened' : s'.named = some (named.image { tail := tail })) :
    (s'.closeNamed (ctx.extend tail) (ctx.length + 1)).values =
      (s.closeNamed ctx ctx.length).values := by
  have visible : '\\' ∉ named.start.rest := inside.notMem plain
  have raw : named.start.textTo ctx.length = named.start.rest := inside.textTo_end
  have raw' : (named.image { tail := tail }).start.textTo (ctx.length + 1) =
      named.start.rest ++ [' '] := by
    rw [Named.image, Change.place_tail]
    exact inside.textTo_blank blank
  rw [closeNamed_values opened raw visible,
    closeNamed_values opened' raw' (by simpa using visible), trim_append_blank, values]
  rfl

theorem closeLastSlot_values_blank {slot : LastSlot}
    (inside : slot.start.In ctx.content) (opened : s.lastSlot = some slot)
    (opened' : s'.lastSlot = some (slot.image { tail := tail })) :
    (s'.closeLastSlot (ctx.extend tail) (ctx.length + 1) []).values =
      (s.closeLastSlot ctx ctx.length []).values := by
  have visible : '\\' ∉ slot.start.rest := inside.notMem plain
  have raw : slot.start.textTo ctx.length = slot.start.rest := inside.textTo_end
  have raw' : (slot.image { tail := tail }).start.textTo (ctx.length + 1) =
      slot.start.rest ++ [' '] := by
    rw [LastSlot.image, Change.place_tail]
    exact inside.textTo_blank blank
  have front : (slot.image { tail := tail }).front = slot.front :=
    String.map_id
  rw [closeLastSlot_values opened raw visible,
    closeLastSlot_values opened' raw' (by simpa using visible), front, ← List.append_assoc,
    trim_append_blank, values]
  rfl

end

/-- A marker behind the blank behind a text finds the values that the end of the text does. -/
theorem Alike.openNamed_values {mark bound : Nat} {t : Token}
    (alike : Alike { tail := tail } ctx ctx.table s s') (settled : Settled ctx none s)
    (reads : Reads ctx (fun _ => True) mark bound s) (plain : '\\' ∉ ctx.content)
    (blank : tail.head? = some ' ')
    (behind : t.start.offset = ctx.length + 1) (family : Family) (option : OptionDecl)
    (justClosed : Bool) :
    (({ s' with justClosed := false } : State).openNamed (ctx.extend tail) t 0 family option
      justClosed).values = (s.closeAll ctx).values := by
  have settled' := (settled.extend alike).quiet
  generalize same : ({ s' with justClosed := false } : State) = quiet at settled' ⊢
  have values' : quiet.values = s.values := by
    rw [← same, alike.same]
    exact Change.entries_tail s.values
  have named' : quiet.named = s.named.map (Named.image { tail := tail }) := by
    rw [← same, ← alike.named_eq]
  have lastSlot' : quiet.lastSlot = s.lastSlot.map (LastSlot.image { tail := tail }) := by
    rw [← same, ← alike.lastSlot_eq]
  rw [closeAll_eq settled.longText]
  cases reads.phase with
  | slots noNamed noLast =>
      rw [noNamed] at named'
      rw [noLast] at lastSlot'
      rw [closeLastSlot_of_none noLast, closeNamed_of_none noNamed,
        openNamed_values_of_slots _ _ _ _ settled' named' lastSlot', values']
  | single _ _ outside _ _ => exact absurd trivial outside
  | @whole named opened _ _ _ _ noLast _ _ =>
      rw [opened] at named'
      rw [noLast] at lastSlot'
      rw [closeLastSlot_of_none noLast,
        openNamed_values_of_named _ _ _ _ (by simp [named']) lastSlot', behind]
      exact closeNamed_values_blank values' plain blank (alike.known.named named opened).2 opened
        named'
  | @last slot _ opened _ _ noNamed _ _ =>
      have noNamed' : (s.closeLastSlot ctx ctx.length []).named = none := by
        rw [closeLastSlot_frame]
        exact noNamed
      rw [noNamed] at named'
      rw [opened] at lastSlot'
      rw [closeNamed_of_none noNamed',
        openNamed_values_of_last _ _ _ _ named' (by simp [lastSlot']), behind]
      exact closeLastSlot_values_blank values' plain blank
        (alike.known.lastSlot slot opened).2 opened lastSlot'

/-! ## Text behind the marker -/

section

variable {named : Named} (opened : s.named = some named)
  (whole : named.option.takesOneValue ctx.config.singleValue = false)
  (noLast : s.lastSlot = none)
include opened whole noLast

/-- An option that takes all text passes every token but a marker of an option. -/
theorem step_passed {t : Token} (undeclared : ∀ escapes opening name,
      t.kind = .marker escapes opening name → ctx.table.option? name = none) :
    s.step ctx t = { s with justClosed := false } := by
  unfold step
  extract_lets justClosed quiet
  have opened' : quiet.named.isSome = true := by simp [quiet, opened]
  have multiple : quiet.openSingle? ctx = none := by simp [openSingle?, quiet, opened, whole]
  split
  · rename_i escapes opening name kind _
    have undeclared' := undeclared escapes opening name kind
    have noLast' : quiet.lastSlot = none := noLast
    have passed : quiet.onMarker ctx t escapes opening name justClosed = quiet := by
      simp [onMarker, undeclared', literalMarker, noLast', placeText, opened']
    exact passed
  · exact onOther_whole multiple opened' t justClosed

theorem steps_passed {ts : List Token} (undeclared : ∀ t ∈ ts, ∀ escapes opening name,
      t.kind = .marker escapes opening name → ctx.table.option? name = none) :
    ∃ justClosed, s.steps ctx ts = { s with justClosed := justClosed } := by
  induction ts generalizing s with
  | nil => exact ⟨s.justClosed, rfl⟩
  | cons t ts ih =>
      cases stops : s.stops ctx with
      | true => exact ⟨s.justClosed, by simp [steps, stops]⟩
      | false =>
          obtain ⟨justClosed, passed⟩ := ih (s := { s with justClosed := false }) opened noLast
            fun t member => undeclared t (List.mem_cons_of_mem _ member)
          refine ⟨justClosed, ?_⟩
          rw [steps, stops, step_passed opened whole noLast (undeclared t List.mem_cons_self)]
          exact passed

theorem closeAll_passed_values {ts : List Token}
    (undeclared : ∀ t ∈ ts, ∀ escapes opening name,
      t.kind = .marker escapes opening name → ctx.table.option? name = none)
    (noLong : s.longText = none) (raw : named.start.textTo ctx.length = cs)
    (plain : '\\' ∉ cs) :
    ((s.steps ctx ts).closeAll ctx).values =
      s.values.insert named.option.name (named.valueOf (trim cs)) := by
  obtain ⟨justClosed, passed⟩ := steps_passed opened whole noLast undeclared
  have noLast' : (s.steps ctx ts).lastSlot = none := by rw [passed]; exact noLast
  have opened' : (s.steps ctx ts).named = some named := by rw [passed]; exact opened
  have noLong' : (s.steps ctx ts).longText = none := by rw [passed]; exact noLong
  rw [closeAll_eq noLong', closeLastSlot_of_none noLast', closeNamed_values opened' raw plain,
    passed]

end

end State

/-- Which kinds of tokens stand behind a place does not depend on what is in front of it. -/
theorem tokensFrom_kinds (d : Delimiters) (fuel : Nat) {c c' : Cursor} (same : c.rest = c'.rest) :
    (tokensFrom d fuel c).map (·.kind) = (tokensFrom d fuel c').map (·.kind) := by
  induction fuel generalizing c c' with
  | zero => rfl
  | succ fuel ih =>
      cases all : c'.rest with
      | nil => simp [tokensFrom, same, all]
      | cons x rest =>
          simp only [tokensFrom, same, all]
          cases tokenAt? d (x :: rest) with
          | none =>
              apply ih
              rw [Cursor.next_eq_past (same.trans all), Cursor.next_eq_past all]
              rfl
          | some found =>
              obtain ⟨kind, size⟩ := found
              simp only [List.map_cons]
              rw [ih (Cursor.forward_rest_congr same size)]

def OpensNone (table : Table) (d : Delimiters) (text : List Char) : Prop :=
  ∀ t ∈ tokens d text, ∀ escapes opening name,
    t.kind = .marker escapes opening name → table.option? name = none

def Token.opensNone (table : Table) (t : Token) : Bool :=
  match t.kind with
  | .marker _ _ name => (table.option? name).isNone
  | _ => true

theorem opensNone_iff {table : Table} {d : Delimiters} {text : List Char} :
    (tokens d text).all (Token.opensNone table) = true ↔ OpensNone table d text := by
  rw [List.all_eq_true]
  refine forall₂_congr fun t _ => ?_
  unfold Token.opensNone
  cases t.kind <;> simp

instance (table : Table) (d : Delimiters) (text : List Char) :
    Decidable (OpensNone table d text) :=
  decidable_of_iff _ opensNone_iff

theorem OpensNone.tokensAt {table : Table} {d : Delimiters} {c : Cursor}
    (opensNone : OpensNone table d c.rest) {t : Token} (member : t ∈ tokensAt d c)
    (escapes : Nat) (opening : Opening) (name : String)
    (marker : t.kind = .marker escapes opening name) : table.option? name = none := by
  have kinds : (tokens d c.rest).map (·.kind) = (Parse.tokensAt d c).map (·.kind) :=
    tokensFrom_kinds d c.rest.length rfl
  have kind : t.kind ∈ (tokens d c.rest).map (·.kind) := by
    rw [kinds]
    exact List.mem_map_of_mem member
  obtain ⟨t', member', same⟩ := List.mem_map.1 kind
  exact opensNone t' member' escapes opening name (same.trans marker)

/-! ## Runs -/

/-- The value of an option that is named behind a text. -/
def appendedValue (option : OptionDecl) (text : List Char) : String :=
  if option.kind = .boolean ∧ trim text = [] then "true" else String.ofList (trim text)

theorem Named.valueOf_trim (named : Named) (hyphen : named.family = .hyphen) (text : List Char) :
    named.valueOf (trim (' ' :: text)) = appendedValue named.option text := by
  unfold Named.valueOf appendedValue
  rw [trim_cons_blank, hyphen]
  simp [and_comm, all_isBlank_trim]

namespace State

/-- A marker behind a blank opens its option, which takes the text behind it. -/
theorem closeAll_sweep_marker {ctx : Context} {s : State} {name : String} {option : OptionDecl}
    {text : List Char} {c : Cursor} (reads : ReadsMarkers ctx) (noLong : s.longText = none)
    (valid : IsIdentifier name.toList) (declared : ctx.table.option? name = some option)
    (whole : option.takesOneValue ctx.config.singleValue = false) (plain : '\\' ∉ text)
    (opensNone : OpensNone ctx.table ctx.patterns.delimiters text)
    (split : c.rest = ' ' :: (markerOf name ++ ' ' :: text))
    (total : c.offset + byteLength c.rest = ctx.length) :
    ∃ t : Token, t.start.offset = c.offset + 1 ∧
      ((s.sweep ctx c).closeAll ctx).values =
        (({ s with justClosed := false } : State).openNamed ctx t 0 .hyphen option
          s.justClosed).values.insert option.name (appendedValue option text) := by
  let there := c.past [' '] (markerOf name ++ ' ' :: text)
  let behind := there.past (markerOf name) (' ' :: text)
  let marker := Token.reading (.marker 0 (.hyphens 2) name) there (markerOf name) (' ' :: text)
  let opened := ({ s with justClosed := false } : State).openNamed ctx marker 0 .hyphen option
    s.justClosed
  have noLong' : opened.longText = none := (keeps_openNamed ..).longText.trans noLong
  have noLast : opened.lastSlot = none := openNamed_lastSlot ..
  have named : opened.named = some ⟨option, behind, there.offset, .hyphen⟩ := rfl
  have found : tokenAt? ctx.patterns.delimiters there.rest =
      some (.marker 0 (.hyphens 2) name, (markerOf name).length) :=
    tokenAt?_markerOf reads.enabled valid text
  have opens (t : Token) (quiet : State) :
      quiet.onMarker ctx t 0 (.hyphens 2) name s.justClosed =
        quiet.openNamed ctx t 0 .hyphen option s.justClosed := by
    simp [onMarker, declared, reads.anyFamily, declaredMarker]
  have raw : behind.textTo ctx.length = ' ' :: text := by
    have split' : c.rest = [' '] ++ there.rest := split
    have total' : there.offset + byteLength there.rest = ctx.length :=
      (Cursor.past_total split').trans total
    rw [← total', ← Cursor.past_total (c := there) rfl]
    exact Cursor.textTo_eq_rest
  refine ⟨marker, rfl, ?_⟩
  rw [sweep_blank split, sweep_token (c := there) rfl found (reads.stops s),
    step_eq_onMarker noLong, opens, sweep_blank (c := behind) rfl, sweep,
    closeAll_passed_values named whole noLast (fun t member => opensNone.tokensAt member) noLong'
      raw (by simpa using plain),
    Named.valueOf_trim _ rfl]

theorem run_appended_values {ctx : Context} {name : String} {option : OptionDecl}
    {text : List Char} (reads : ReadsMarkers ctx) (outside : SingleOutside ctx fun _ => True)
    (unquoted : Unquoted ctx.patterns.delimiters ctx.content) (valid : IsIdentifier name.toList)
    (declared : ctx.table.option? name = some option) (plain : '\\' ∉ text)
    (opensNone : OpensNone ctx.table ctx.patterns.delimiters text) :
    (run (ctx.extend (' ' :: (markerOf name ++ ' ' :: text))) none).values =
      (run ctx none).values.insert option.name (appendedValue option text) := by
  let start := Cursor.start ctx.content
  let tail := ' ' :: (markerOf name ++ ' ' :: text)
  let stop := (start.past start.rest []).extend tail
  have whole : option.takesOneValue ctx.config.singleValue = false := by
    simpa using outside name option declared
  have settled := (Settled.initial ctx start.after).sweep (ReadsAt.initial ctx _) outside unquoted
    reads.goesOn
  obtain ⟨bound, inOrder⟩ := (ReadsAt.initial ctx _).sweep outside
  have seated : initial (ctx.extend tail) = (initial ctx).image { tail := tail } := rfl
  have relates : Change.Relates { tail := tail } ctx ctx.table := relates_tail rfl
  obtain ⟨s, alike, sweeps⟩ := (Alike.initial relates seated).sweep (Cursor.start_in _)
  rw [context_tail, Change.place_tail, Change.place_tail] at sweeps
  have total : stop.offset + byteLength stop.rest = (ctx.extend tail).length := by
    simp [stop, start, Cursor.start, Cursor.extend, Context.length, Context.extend]
  have reads' : ReadsMarkers (ctx.extend tail) := ⟨reads.enabled, reads.anyFamily, reads.goesOn⟩
  obtain ⟨t, offset, found⟩ := closeAll_sweep_marker (c := stop) reads'
    (settled.extend alike).longText valid declared whole plain opensNone rfl total
  have behind : t.start.offset = ctx.length + 1 := by
    rw [offset]
    exact congrArg (· + 1) (Nat.zero_add ctx.length)
  rw [run_none, run_none]
  change (((initial (ctx.extend tail)).sweep (ctx.extend tail) (start.extend tail)).closeAll
    (ctx.extend tail)).values = _
  rw [sweeps, found, alike.openNamed_values settled inOrder unquoted.backslash rfl behind]

end State

end Parse

open Parse Text

namespace Command

/-- Behind a text without quotes and backslashes a marker with a text adds the value of its
option, and changes no other. -/
theorem parse_appended {command : Command} {shared : Config} {front text : String}
    {o : OptionDecl} (sound : command.defect? = none)
    (noChoices : (Table.ofCommand command).choices = [])
    (enabled :
      ((Table.ofCommand command).configFor shared).delimiters.hasDoubleHyphen = true)
    (anyFamily : ((Table.ofCommand command).configFor shared).oneFamily = false)
    (goesOn : ((Table.ofCommand command).configFor shared).stopWhenFilled = false)
    (whole : ∀ o ∈ command.options,
      o.takesOneValue ((Table.ofCommand command).configFor shared).singleValue = false)
    (unquoted : Unquoted ((Table.ofCommand command).configFor shared).delimiters front.toList)
    (member : o ∈ command.options) (fillable : o.isFillable = true)
    (valid : IsIdentifier o.name.toList) (plain : '\\' ∉ text.toList)
    (opensNone : OpensNone (Table.ofCommand command)
      ((Table.ofCommand command).configFor shared).delimiters text.toList) :
    (command.parse shared (front ++ " --" ++ o.name ++ " " ++ text) none).values =
      (command.parse shared front none).values.insert o.name (appendedValue o text.toList) := by
  have distinct := names_nodup_of_defect? sound
  have counted := Table.optionCount_pos distinct member fillable
  have declared := Table.option?_of_mem distinct member fillable
  have written : (front ++ " --" ++ o.name ++ " " ++ text).toList =
      front.toList ++ ' ' :: (markerOf o.name ++ ' ' :: text.toList) := by
    simp [String.toList_append, markerOf]
  rw [Command.parse, Command.parse]
  generalize (Table.ofCommand command).configFor shared = config
    at enabled anyFamily goesOn whole unquoted opensNone ⊢
  have reads : ReadsMarkers ⟨front.toList, Table.ofCommand command, config, .ofConfig config⟩ :=
    ⟨enabled, anyFamily, goesOn⟩
  have outside : State.SingleOutside
      ⟨front.toList, Table.ofCommand command, config, .ofConfig config⟩ fun _ => True := by
    intro key option known single
    simp [whole option (Table.option?_eq_some known).1] at single
  rw [parse_of_noChoices counted noChoices, parse_of_noChoices counted noChoices, written]
  exact State.run_appended_values reads outside unquoted valid declared plain opensNone

/-- The text in front ends in another option that is open, and a marker of no option stands in
the text behind. -/
theorem parse_appended_undeclared :
    ((⟨"go", [{ name := "what" }, { name := "to" }, { name := "fast", flag := true }], none⟩ :
        Command).parse {} ("a: b --to c" ++ " --" ++ "fast" ++ " " ++ "--no d ") none).values =
      ⟨[("what", "a:"), ("to", "c"), ("fast", "--no d")]⟩ := by
  have kinds : (tokens {} "--no d ".toList).map (·.kind) =
      [.marker 0 (.hyphens 2) "no", .word] := by decide +kernel
  have opensNone : OpensNone (Table.ofCommand
      ⟨"go", [{ name := "what" }, { name := "to" }, { name := "fast", flag := true }], none⟩) {}
      "--no d ".toList := by
    intro t member escapes opening name marker
    have kind := List.mem_map_of_mem (f := Token.kind) member
    rw [marker, kinds] at kind
    simp only [List.mem_cons, TokenKind.marker.injEq, reduceCtorEq, List.not_mem_nil, or_false]
      at kind
    rw [kind.2.2]
    rfl
  have noQuotes : "a: b --to c".toList.all (fun c => !({} : Delimiters).isQuoteChar c) = true := by
    decide +kernel
  have unquoted : Unquoted {} "a: b --to c".toList :=
    ⟨by decide +kernel, fun c inside => by simpa using List.all_eq_true.1 noQuotes c inside⟩
  have identifier : IsIdentifier "fast".toList :=
    ⟨⟨'f', rfl, rfl⟩, List.all_eq_true.1 (by decide +kernel)⟩
  have parsed := @parse_appended
    ⟨"go", [{ name := "what" }, { name := "to" }, { name := "fast", flag := true }], none⟩ {}
    "a: b --to c" "--no d " { name := "fast", flag := true } (by decide +kernel) rfl rfl rfl rfl
    (by decide +kernel) unquoted (by simp) rfl identifier (by decide +kernel) opensNone
  exact parsed.trans rfl

end Command

end ChatArgs
