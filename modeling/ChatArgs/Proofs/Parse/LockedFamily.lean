import ChatArgs.Proofs.Parse.Appended
import ChatArgs.Proofs.Parse.Choices
import ChatArgs.Proofs.Parse.RepliedUser
import ChatArgs.Proofs.Parse.Transitions
import ChatArgs.Proofs.Parse.WithoutColons

/-!
# Markers of the other family

If a marker with hyphens comes first and one family only may open options, a marker with a colon is
text, but the text is still cut at it. So a marker with hyphens that stands behind a colon opens an
option, and it does not where colons are switched off, for there it is a part of a word. Where no
such marker stands in the text, the family that may not open options is as good as switched off.
-/

namespace ChatArgs

namespace Parse

open Text

def Token.opened? (table : Table) (t : Token) : Option String :=
  match t.kind with
  | .marker escapes (.hyphens _) name =>
      if escapes % 2 == 0 && (table.option? name).isSome then some name else none
  | _ => none

theorem Token.opened?_eq_some {table : Table} {t : Token} {name : String}
    (opens : t.opened? table = some name) :
    ∃ escapes count option, t.kind = .marker escapes (.hyphens count) name ∧
      escapes % 2 = 0 ∧ table.option? name = some option := by
  unfold Token.opened? at opens
  split at opens
  · rename_i escapes count name' kind
    split at opens
    · rename_i even
      obtain rfl := Option.some.inj opens
      rw [Bool.and_eq_true, beq_iff_eq, Option.isSome_iff_exists] at even
      obtain ⟨option, declared⟩ := even.2
      exact ⟨escapes, count, option, kind, even.1, declared⟩
    · contradiction
  · contradiction

/-- Without colons those markers open options that do not stand inside a word. -/
theorem filter_opened_withoutColons (table : Table) {d : Delimiters}
    (hyphens : d.hasHyphen = true) (text : List Char) :
    ((tokens d.withoutColons text).filter fun t => (t.opened? table).isSome) =
      ((tokens d text).filter fun t => (t.opened? table).isSome).filter
        fun t => !decide (t.InWord (tokens d.withoutColons text)) := by
  have same : ShowsSame d (fun t => (t.opened? table).isSome) (Cursor.start text) := by
    refine showsSame_tokensAt hyphens (fun t opens => ?_) _
    obtain ⟨name, own⟩ := Option.isSome_iff_exists.1 opens
    obtain ⟨escapes, count, _, kind, -⟩ := Token.opened?_eq_some own
    exact ⟨escapes, count, name, kind⟩
  rw [List.filter_filter]
  exact same.trans (List.filter_congr fun t _ => Bool.and_comm _ _)

namespace State

variable {ctx ctx' : Context} {s s' : State} {named : Named}

/-- An option that a marker with hyphens opened takes all text, and markers with colons open
none. -/
structure Gathers (ctx : Context) (named : Named) (s : State) : Prop where
  opened : s.named = some named
  family : named.family = .hyphen
  whole : named.option.takesOneValue ctx.config.singleValue = false
  longText : s.longText = none
  lastSlot : s.lastSlot = none
  locked : ctx.config.oneFamily = true → s.family = some .hyphen
  escapes : ctx.patterns.delimiters.markerEscapes s.family .hyphen = some { hyphen := true }

def Matches (s s' : State) : Prop :=
  s' = { s with family := s'.family, justClosed := s'.justClosed }

theorem Matches.refl (s : State) : Matches s s := rfl

theorem Matches.symm (same : Matches s s') : Matches s' s := by
  unfold Matches at same ⊢
  rw [same]

theorem Matches.trans {s'' : State} (same : Matches s s') (same' : Matches s' s'') :
    Matches s s'' := by
  unfold Matches at same same' ⊢
  rw [same', same]

/-! ## One step -/

theorem Gathers.quiet (gathers : Gathers ctx named s) :
    Gathers ctx named { s with justClosed := false } :=
  ⟨gathers.opened, gathers.family, gathers.whole, gathers.longText, gathers.lastSlot,
    gathers.locked, gathers.escapes⟩

theorem Gathers.step_eq_onMarker (gathers : Gathers ctx named s) {t : Token} {escapes : Nat}
    {opening : Opening} {name : String} (kind : t.kind = .marker escapes opening name) :
    s.step ctx t =
      ({ s with justClosed := false } : State).onMarker ctx t escapes opening name
        s.justClosed := by
  simp only [step, kind, gathers.longText]

theorem Gathers.placeText (gathers : Gathers ctx named s) (text : String) (start : Cursor)
    (stop : Nat) (next : Option Char) (justClosed : Bool) :
    s.placeText ctx text start stop next justClosed = s := by
  simp [State.placeText, gathers.opened]

theorem Gathers.onMarker_hyphens (gathers : Gathers ctx named s) {name : String}
    {option : OptionDecl} (declared : ctx.table.option? name = some option) (t : Token)
    (escapes count : Nat) (justClosed : Bool) :
    s.onMarker ctx t escapes (.hyphens count) name justClosed =
      s.declaredMarker ctx t escapes (.hyphens count) option name justClosed := by
  cases lock : ctx.config.oneFamily with
  | false => simp [onMarker, declared, lock]
  | true => simp [onMarker, declared, lock, gathers.locked lock, Opening.family]

theorem Gathers.onMarker_colon (gathers : Gathers ctx named s)
    (oneFamily : ctx.config.oneFamily = true) {name : String} {option : OptionDecl}
    (declared : ctx.table.option? name = some option) (t : Token) (escapes : Nat)
    (justClosed : Bool) : s.onMarker ctx t escapes .colon name justClosed = s := by
  have literal : s.literalMarker ctx t justClosed = s := by
    rw [literalMarker, gathers.placeText, ite_self]
  have other : (Family.hyphen == Opening.colon.family) = false := by decide
  simp only [onMarker, declared, oneFamily, if_true]
  split
  · rename_i undecided
    rw [gathers.locked oneFamily] at undecided
    contradiction
  · rename_i family decided
    obtain rfl := Option.some.inj ((gathers.locked oneFamily).symm.trans decided)
    rw [other, if_neg (by decide), literal]

/-- The option passes every token that opens none. -/
theorem Gathers.step_passed (gathers : Gathers ctx named s) {t : Token}
    (noColon : ctx.config.oneFamily = false → t.family? ≠ some .colon)
    (other : t.opened? ctx.table = none) : s.step ctx t = { s with justClosed := false } := by
  by_cases undeclared : ∀ escapes opening name, t.kind = .marker escapes opening name →
      ctx.table.option? name = none
  · exact State.step_passed gathers.opened gathers.whole gathers.lastSlot undeclared
  simp only [not_forall] at undeclared
  obtain ⟨escapes, opening, name, kind, declared⟩ := undeclared
  obtain ⟨option, found⟩ := Option.ne_none_iff_exists'.1 declared
  rw [gathers.step_eq_onMarker kind]
  cases opening with
  | colon =>
      have lock : ctx.config.oneFamily = true := by
        by_contra off
        exact noColon (by simpa using off) (by rw [Token.family?, kind]; rfl)
      exact gathers.quiet.onMarker_colon lock found t escapes s.justClosed
  | hyphens count =>
      have odd : (escapes % 2 == 1) = true := by
        simpa [Token.opened?, kind, found] using other
      rw [gathers.quiet.onMarker_hyphens found, declaredMarker]
      simp only [odd, if_true]
      rw [gathers.quiet.placeText, ite_self]

/-- A marker closes the option in front of it and opens its own. -/
theorem Gathers.step_opened (gathers : Gathers ctx named s) {t : Token} {escapes count : Nat}
    {name : String} {option : OptionDecl} (kind : t.kind = .marker escapes (.hyphens count) name)
    (even : escapes % 2 = 0) (declared : ctx.table.option? name = some option) :
    s.step ctx t =
      { ({ s with justClosed := false } : State).closeNamed ctx (t.start.offset + escapes) with
        named := some ⟨option, t.stop, t.start.offset + escapes, .hyphen⟩ } := by
  have plain : (escapes % 2 == 1) = false := by simp [even]
  rw [gathers.step_eq_onMarker kind, gathers.quiet.onMarker_hyphens declared, declaredMarker]
  simp only [plain, Bool.false_eq_true, if_false]
  have opens := gathers.quiet
  generalize ({ s with justClosed := false } : State) = quiet at opens ⊢
  have noLast : (quiet.closeNamed ctx (t.start.offset + escapes)).lastSlot = none := by
    rw [closeNamed_frame]
    exact opens.lastSlot
  have stop : (if (backslashes (escapes / 2)).isEmpty then t.start.offset
      else t.start.offset + escapes) = t.start.offset + escapes := by
    split
    · rename_i empty
      have none : escapes / 2 = 0 := by simpa [backslashes] using empty
      omega
    · rfl
  have opened : (quiet.named.isNone && quiet.lastSlot.isNone) = false := by simp [opens.opened]
  simp only [openNamed, opens.placeText, ite_self, opened, Bool.false_eq_true, if_false, stop,
    closeLastSlot_of_none noLast]

/-! ## What is closed -/

/-- The text of an option behind a marker with hyphens, where only hyphens are escaped. -/
def gatheredText (named : Named) (stop : Nat) : List Char :=
  let (sign, raw) := splitSign (named.start.textTo stop)
  sign ++ trim (unescape { hyphen := true } raw)

theorem Gathers.namedValue (gathers : Gathers ctx named s) (stop : Nat) :
    s.namedValue ctx named stop = gatheredText named stop := by
  rw [State.namedValue, gathers.family, gatheredText]
  simp only [gathers.escapes, unescapeWith]

theorem markFilled_with (table : ctx'.table = ctx.table) (option : OptionDecl) (s : State)
    (family : Option Family) :
    ({ s with family := family } : State).markFilled ctx' option =
      { s.markFilled ctx option with family := family } := by
  unfold markFilled take
  rw [table]
  split
  · split <;> rfl
  · split
    · split <;> rfl
    · rfl

section

variable (same : Matches s s') (table : ctx'.table = ctx.table)
include same

theorem Matches.gathers (gathers : Gathers ctx named s) {named' : Named}
    (gathers' : Gathers ctx' named' s') : named' = named := by
  have opened := gathers'.opened
  rw [same] at opened
  exact Option.some.inj (opened.symm.trans gathers.opened)

include table

theorem Matches.closeNamed (gathers : Gathers ctx named s) (gathers' : Gathers ctx' named s')
    (stop : Nat) : Matches (s.closeNamed ctx stop) (s'.closeNamed ctx' stop) := by
  obtain ⟨r, released⟩ : ∃ r : State, ({ s with
      named := none
      justClosed := true
      lastFilled := some named.option.name } : State) = r := ⟨_, rfl⟩
  have released' : ({ s' with
      named := none
      justClosed := true
      lastFilled := some named.option.name } : State) = { r with family := s'.family } := by
    rw [← released, same]
  unfold Matches State.closeNamed
  simp only [gathers.opened, gathers'.opened, gathers.namedValue, gathers'.namedValue, released,
    released', markFilled_with table]
  split <;> rfl

theorem Matches.step_opened (gathers : Gathers ctx named s) (gathers' : Gathers ctx' named s')
    {t : Token} {name : String} (opens : t.opened? ctx.table = some name) :
    Matches (s.step ctx t) (s'.step ctx' t) := by
  obtain ⟨escapes, count, option, kind, even, declared⟩ := Token.opened?_eq_some opens
  have same' : Matches { s with justClosed := false } { s' with justClosed := false } := by
    unfold Matches at same ⊢
    rw [same]
  have closed := same'.closeNamed table gathers.quiet gathers'.quiet (t.start.offset + escapes)
  rw [gathers.step_opened kind even declared,
    gathers'.step_opened kind even (by rw [table]; exact declared)]
  unfold Matches at closed ⊢
  rw [closed]

end

/-! ## All tokens -/

def TakesTexts (ctx : Context) : Prop :=
  ∀ name option, ctx.table.option? name = some option →
    option.name = name ∧ option.takesOneValue ctx.config.singleValue = false

theorem Gathers.after_opened (gathers : Gathers ctx named s) (takes : TakesTexts ctx) {t : Token}
    {name : String} (opens : t.opened? ctx.table = some name) :
    ∃ named', named'.option.name = name ∧ Gathers ctx named' (s.step ctx t) := by
  obtain ⟨escapes, count, option, kind, even, declared⟩ := Token.opened?_eq_some opens
  obtain ⟨same, whole⟩ := takes name option declared
  refine ⟨⟨option, t.stop, t.start.offset + escapes, .hyphen⟩, same, ?_⟩
  rw [gathers.step_opened kind even declared, closeNamed_frame]
  exact ⟨rfl, rfl, whole, gathers.longText, gathers.lastSlot, gathers.locked, gathers.escapes⟩

theorem steps_of_stops (stops : s.stops ctx = true) (ts : List Token) : s.steps ctx ts = s := by
  cases ts <;> simp [steps, stops]

theorem Matches.stops (same : Matches s s') (table : ctx'.table = ctx.table)
    (stop : ctx'.config.stopWhenFilled = ctx.config.stopWhenFilled) :
    s'.stops ctx' = s.stops ctx := by
  rw [same]
  simp only [State.stops, allFilled, table, stop]

/-- A run passes what opens no option, so the markers that open one make the same run. -/
theorem Matches.steps (same : Matches s s') (gathers : Gathers ctx named s)
    (gathers' : Gathers ctx' named s') (table : ctx'.table = ctx.table)
    (stop : ctx'.config.stopWhenFilled = ctx.config.stopWhenFilled) (takes : TakesTexts ctx)
    (takes' : TakesTexts ctx') {ts : List Token}
    (noColon : ctx.config.oneFamily = false → ∀ t ∈ ts, t.family? ≠ some .colon) :
    Matches (s.steps ctx ts)
        (s'.steps ctx' (ts.filter fun t => (t.opened? ctx.table).isSome)) ∧
      ∃ last, Gathers ctx last (s.steps ctx ts) ∧
        Gathers ctx' last (s'.steps ctx' (ts.filter fun t => (t.opened? ctx.table).isSome)) := by
  -- The run on the right idles at a token that opens none; what it has open is the same.
  induction ts generalizing s s' named with
  | nil => exact ⟨same, named, gathers, gathers'⟩
  | cons t ts ih =>
      have later (off : ctx.config.oneFamily = false) (t' : Token) (member : t' ∈ ts) :=
        noColon off t' (List.mem_cons_of_mem t member)
      have stops' := same.stops table stop
      cases stops : s.stops ctx with
      | true =>
          rw [stops] at stops'
          rw [steps_of_stops stops, steps_of_stops stops']
          exact ⟨same, named, gathers, gathers'⟩
      | false =>
          rw [stops] at stops'
          cases opens : t.opened? ctx.table with
          | none =>
              have passed := gathers.step_passed (fun off => noColon off t List.mem_cons_self) opens
              rw [List.filter_cons_of_neg (by simp [opens]), State.steps, if_neg (by simp [stops]),
                passed]
              exact ih (by unfold Matches at same ⊢; rw [same]) gathers.quiet gathers' later
          | some name =>
              have opens' : t.opened? ctx'.table = some name := by rw [table, opens]
              obtain ⟨named₁, -, after⟩ := gathers.after_opened takes opens
              obtain ⟨named₂, -, after'⟩ := gathers'.after_opened takes' opens'
              have same₁ := same.step_opened table gathers gathers' opens
              obtain rfl := same₁.gathers after after'
              rw [List.filter_cons_of_pos (by simp [opens]), State.steps, State.steps,
                if_neg (by simp [stops]), if_neg (by simp [stops'])]
              exact ih same₁ after after' later

/-! ## The options that have values -/

theorem Gathers.closeAll (gathers : Gathers ctx named s) :
    s.closeAll ctx = s.closeNamed ctx ctx.length := by
  rw [closeAll_eq gathers.longText, closeLastSlot_of_none gathers.lastSlot]

theorem mem_keys_closeNamed (gathers : Gathers ctx named s) (stop : Nat) (name : String) :
    name ∈ (s.closeNamed ctx stop).values.keys ↔
      name ∈ s.values.keys ∨ name = named.option.name := by
  unfold State.closeNamed
  simp only [gathers.opened]
  rw [markFilled_frame]
  split <;> simp [setValue, Entries.mem_keys_insert, or_comm]

/-- The options that have values at the end are those that have one before, the one that is open and
those that are opened. -/
theorem Gathers.mem_keys_steps (gathers : Gathers ctx named s)
    (goesOn : ctx.config.stopWhenFilled = false) (takes : TakesTexts ctx) {ts : List Token}
    (noColon : ctx.config.oneFamily = false → ∀ t ∈ ts, t.family? ≠ some .colon)
    (name : String) :
    name ∈ ((s.steps ctx ts).closeAll ctx).values.keys ↔
      name ∈ s.values.keys ∨ name = named.option.name ∨
        ∃ t ∈ ts, t.opened? ctx.table = some name := by
  induction ts generalizing s named with
  | nil =>
      rw [State.steps, gathers.closeAll, mem_keys_closeNamed gathers]
      simp
  | cons t ts ih =>
      have later (off : ctx.config.oneFamily = false) (t' : Token) (member : t' ∈ ts) :=
        noColon off t' (List.mem_cons_of_mem t member)
      rw [State.steps, if_neg (by simp [stops_of_goesOn goesOn])]
      cases opens : t.opened? ctx.table with
      | none =>
          have passed := gathers.step_passed (fun off => noColon off t List.mem_cons_self) opens
          rw [passed, ih gathers.quiet later]
          simp [opens]
      | some opened =>
          obtain ⟨escapes, count, option, kind, even, declared⟩ := Token.opened?_eq_some opens
          obtain ⟨named', same, after⟩ := gathers.after_opened takes opens
          have closed := mem_keys_closeNamed gathers.quiet (t.start.offset + escapes) name
          have values : (s.step ctx t).values = (({ s with justClosed := false } : State).closeNamed
              ctx (t.start.offset + escapes)).values := by
            rw [gathers.step_opened kind even declared]
          rw [ih after later, values, closed, same]
          simp only [List.exists_mem_cons_iff, opens, Option.some.injEq, or_assoc,
            eq_comm (a := opened)]

/-! ## A marker at the front -/

def frontMarker (name : String) (text : List Char) : Token :=
  .reading (.marker 0 (.hyphens 2) name) (.start (markerOf name ++ ' ' :: text)) (markerOf name)
    (' ' :: text)

def frontNamed (name : String) (option : OptionDecl) (text : List Char) : Named :=
  ⟨option, (frontMarker name text).stop, 0, .hyphen⟩

/-- Markers with colons open nothing: they are switched off, or the family may not open options. -/
def ColonsOff (ctx : Context) : Prop :=
  ctx.patterns.delimiters.hasDoubleHyphen = true ∧
    (ctx.config.oneFamily = true ∨ ctx.patterns.delimiters.hasColon = false)

section

variable {name : String} {option : OptionDecl} {text : List Char} {message : Option Message}

theorem frontMarker_opened? (declared : ctx.table.option? name = some option) :
    (frontMarker name text).opened? ctx.table = some name := by
  simp [Token.opened?, frontMarker, Token.reading, declared]

theorem step_front (untouched : Untouched s) (declared : ctx.table.option? name = some option) :
    s.step ctx (frontMarker name text) =
      { s with
        justClosed := false
        family := if ctx.config.oneFamily then some .hyphen else none
        named := some (frontNamed name option text) } := by
  rw [frontMarker, step_marker untouched.longText untouched.held untouched.lastSlot
    (by simp [untouched.family]) declared, locked, opened]
  split
  · rw [closeNamed_of_none (s := { s with justClosed := false, family := some .hyphen })
      untouched.named]
    rfl
  · rw [closeNamed_of_none (s := { s with justClosed := false }) untouched.named,
      ← untouched.family]
    rfl

theorem ColonsOff.noColon (off : ColonsOff ctx) (any : ctx.config.oneFamily = false) (c : Cursor) :
    ∀ t ∈ tokensAt ctx.patterns.delimiters c, t.family? ≠ some .colon := by
  have disabled : ctx.patterns.delimiters.hasColon = false :=
    off.2.resolve_left (by simp [any])
  induction c using tokensAt_induction ctx.patterns.delimiters with
  | finish c ends => simp [tokensAt_end ends]
  | skip c x rest split _ noToken ih => rwa [tokensAt_skip split noToken]
  | token c kind front rest split shape found ih =>
      rw [tokensAt_token split found, List.forall_mem_cons]
      refine ⟨fun colon => ?_, ih⟩
      cases shape with
      | colon enabled _ _ _ => simp [disabled] at enabled
      | _ => simp [Token.family?, Token.reading, Opening.family] at colon

theorem ColonsOff.gathers (off : ColonsOff ctx) (takes : TakesTexts ctx) (untouched : Untouched s)
    (declared : ctx.table.option? name = some option) :
    Gathers ctx (frontNamed name option text) (s.step ctx (frontMarker name text)) := by
  have hyphens : ctx.patterns.delimiters.hasHyphen = true := by simp [Delimiters.hasHyphen, off.1]
  rw [step_front untouched declared]
  refine ⟨rfl, rfl, (takes name option declared).2, untouched.longText, untouched.lastSlot,
    fun lock => by simp [lock], ?_⟩
  rcases off.2 with lock | disabled
  · simp [lock, Delimiters.markerEscapes, Delimiters.hasMarkers, Delimiters.escapedMarkers, hyphens]
  · cases lock : ctx.config.oneFamily <;>
      simp [Delimiters.markerEscapes, Delimiters.hasMarkers, Delimiters.escapedMarkers, hyphens,
        disabled]

theorem tokensAt_front {d : Delimiters} (enabled : d.hasDoubleHyphen = true)
    (valid : IsIdentifier name.toList) :
    tokensAt d (.start (markerOf name ++ ' ' :: text)) =
      frontMarker name text :: tokensAt d (frontMarker name text).stop :=
  tokensAt_token rfl (tokenAt?_markerOf enabled valid text)

/-! ## A whole parse -/

def swept (ctx : Context) (s : State) : State :=
  (s.steps ctx (tokensAt ctx.patterns.delimiters (Cursor.start ctx.content))).closeAll ctx

/-- A parse goes over all tokens, unless the author replied to fills all there is. -/
theorem run_eq_swept (ctx : Context) (message : Option Message) :
    run ctx message =
      if ((initial ctx).fillReplied? ctx message).any (·.allFilled ctx) then
        (started ctx message).closeAll ctx
      else (started ctx message).swept ctx := by
  rw [run_eq_closeAll, runTransitions]
  split
  · rw [behind_nil]
  · rw [swept, steps_eq_behind]

def openers (ctx : Context) : List Token :=
  (tokensAt ctx.patterns.delimiters (Cursor.start ctx.content)).filter
    fun t => (t.opened? ctx.table).isSome

section

variable (valid : IsIdentifier name.toList)
  (declared : ctx.table.option? name = some option)
  (content : ctx.content = markerOf name ++ ' ' :: text)
include valid declared content

theorem openers_eq_cons (enabled : ctx.patterns.delimiters.hasDoubleHyphen = true) :
    openers ctx = frontMarker name text ::
      (tokensAt ctx.patterns.delimiters (frontMarker name text).stop).filter
        fun t => (t.opened? ctx.table).isSome := by
  rw [openers, content, tokensAt_front enabled valid]
  exact List.filter_cons_of_pos (by rw [frontMarker_opened? declared]; rfl)

/-- The values at the end are those that were there and those of the options that are opened. -/
theorem mem_keys_swept (untouched : Untouched s) (takes : TakesTexts ctx) (off : ColonsOff ctx)
    (goesOn : ctx.config.stopWhenFilled = false) (other : String) :
    other ∈ (s.swept ctx).values.keys ↔
      other ∈ s.values.keys ∨ ∃ t ∈ openers ctx, t.opened? ctx.table = some other := by
  have gathers := @ColonsOff.gathers ctx s name option text off takes untouched declared
  have values : (s.step ctx (frontMarker name text)).values = s.values := by
    rw [step_front untouched declared]
  have opened : (∃ t ∈ openers ctx, t.opened? ctx.table = some other) ↔
      ∃ t ∈ tokensAt ctx.patterns.delimiters (Cursor.start ctx.content),
        t.opened? ctx.table = some other := by
    simp only [openers, List.mem_filter, and_assoc]
    refine exists_congr fun t => and_congr_right fun _ => ⟨And.right, fun own => ⟨?_, own⟩⟩
    simp [own]
  rw [opened, swept, content, tokensAt_front off.1 valid, State.steps,
    if_neg (by simp [stops_of_goesOn goesOn]),
    gathers.mem_keys_steps goesOn takes fun any => off.noColon any _, values]
  simp only [List.exists_mem_cons_iff, frontMarker_opened? declared, Option.some.injEq,
    frontNamed, (takes name option declared).1, eq_comm (a := other)]

/-- Two runs in which the same markers open options end alike. -/
theorem Matches.swept (untouched : Untouched s) (takes : TakesTexts ctx)
    (takes' : TakesTexts ctx') (off : ColonsOff ctx) (off' : ColonsOff ctx')
    (table : ctx'.table = ctx.table) (content' : ctx'.content = ctx.content)
    (stop : ctx'.config.stopWhenFilled = ctx.config.stopWhenFilled)
    (same : openers ctx' = openers ctx) : Matches (s.swept ctx) (s.swept ctx') := by
  have declared' : ctx'.table.option? name = some option := by rw [table, declared]
  have length : ctx'.length = ctx.length := by rw [Context.length, content', Context.length]
  have gathers := @ColonsOff.gathers ctx s name option text off takes untouched declared
  have gathers' := @ColonsOff.gathers ctx' s name option text off' takes' untouched declared'
  have start : Matches (s.step ctx (frontMarker name text))
      (s.step ctx' (frontMarker name text)) := by
    rw [step_front untouched declared, step_front untouched declared']
    rfl
  rw [openers_eq_cons valid declared content off.1,
    openers_eq_cons valid declared' (content'.trans content) off'.1, table] at same
  unfold State.swept
  rw [content', content, tokensAt_front off.1 valid, tokensAt_front off'.1 valid]
  have stops' := (Matches.refl s).stops table stop
  cases stops : s.stops ctx with
  | true =>
      rw [stops] at stops'
      rw [steps_of_stops stops, steps_of_stops stops',
        closeAll_of_closed untouched.lastSlot untouched.named untouched.longText,
        closeAll_of_closed untouched.lastSlot untouched.named untouched.longText]
      exact .refl s
  | false =>
      rw [stops] at stops'
      rw [State.steps, State.steps, if_neg (by simp [stops]), if_neg (by simp [stops'])]
      -- Both runs are compared with the one that has the openers only, for these are the same.
      obtain ⟨same₁, last, gathered, -⟩ := start.steps gathers gathers' table stop takes takes'
        fun any => off.noColon any (frontMarker name text).stop
      obtain ⟨same₂, last', gathered', -⟩ := (Matches.refl _).steps gathers' gathers' rfl rfl
        takes' takes' fun any => off'.noColon any (frontMarker name text).stop
      rw [table, (List.cons.inj same).2] at same₂
      have whole := same₁.trans same₂.symm
      obtain rfl := whole.gathers gathered gathered'
      rw [gathered.closeAll, gathered'.closeAll, length]
      exact whole.closeNamed table gathered gathered' ctx.length

/-- The author replied to fills the same slot in both. -/
theorem Matches.run (takes : TakesTexts ctx) (takes' : TakesTexts ctx') (off : ColonsOff ctx)
    (off' : ColonsOff ctx') (table : ctx'.table = ctx.table) (content' : ctx'.content = ctx.content)
    (stop : ctx'.config.stopWhenFilled = ctx.config.stopWhenFilled)
    (reply : ctx'.config.replyFilling = ctx.config.replyFilling)
    (same : openers ctx' = openers ctx) : Matches (run ctx message) (run ctx' message) := by
  have untouched := started_untouched ctx message
  have start : initial ctx' = initial ctx := by rw [initial, table, initial]
  have author :
      (initial ctx').fillReplied? ctx' message = (initial ctx).fillReplied? ctx message := by
    rw [start, fillReplied?, reply, table, fillReplied?]
  have all : (fun s : State => s.allFilled ctx') = fun s => s.allFilled ctx := by
    funext s
    rw [allFilled, table, allFilled]
  rw [run_eq_swept, run_eq_swept, author, all,
    show started ctx' message = started ctx message by rw [started, author, start, started]]
  split
  · rw [closeAll_of_closed untouched.lastSlot untouched.named untouched.longText,
      closeAll_of_closed untouched.lastSlot untouched.named untouched.longText]
    exact .refl _
  · exact .swept valid declared content untouched takes takes' off off' table content' stop same

/-- The options that have values are those that markers open, where no author fills one and the
parse goes on to the end. -/
theorem mem_keys_run (takes : TakesTexts ctx) (off : ColonsOff ctx)
    (goesOn : ctx.config.stopWhenFilled = false) (noReply : ctx.config.replyFilling = none)
    (other : String) :
    other ∈ (run ctx message).values.keys ↔
      ∃ t ∈ openers ctx, t.opened? ctx.table = some other := by
  have noAuthor : (initial ctx).fillReplied? ctx message = none := by
    simp [fillReplied?, noReply]
  have start : started ctx message = initial ctx := by
    rw [started, noAuthor]
    rfl
  rw [run_eq_swept, noAuthor, start, if_neg (by simp), mem_keys_swept valid declared content
    (start ▸ started_untouched ctx message) takes off goesOn]
  simp [initial, Entries.keys]

end

end

end State

end Parse

open Parse Text

def Config.withoutColons (config : Config) (oneFamily : Bool) : Config :=
  { config with delimiters := config.delimiters.withoutColons, oneFamily := oneFamily }

namespace Command

/-- If markers of one family only may open options and the text begins with a marker with hyphens,
values are those that the text has where markers with colons are switched off, unless a marker that
opens an option then stands in a word. The options that have values are those of all markers in the
one parse, and of the markers outside of words in the other. -/
theorem parse_lockedFamily {command : Command} {shared shared' config : Config} {oneFamily : Bool}
    (configured : command.configFor shared = config)
    (configured' : command.configFor shared' = config.withoutColons oneFamily)
    (locks : config.oneFamily = true) (enabled : config.delimiters.hasDoubleHyphen = true)
    (whole : ∀ o ∈ command.options, o.takesOneValue config.singleValue = false)
    {name : String} (valid : IsIdentifier name.toList) {option : OptionDecl}
    (declared : (Table.ofCommand command).option? name = some option) {content : String}
    {text : List Char} (front : content.toList = markerOf name ++ ' ' :: text)
    (message : Option Message) :
    let table := Table.ofCommand command
    let args := command.parse shared content message
    let args' := command.parse shared' content message
    let openers := (tokens config.delimiters content.toList).filter
      fun t => (t.opened? table).isSome
    let shown := openers.filter
      fun t => !decide (t.InWord (tokens config.delimiters.withoutColons content.toList))
    (shown = openers → args = args') ∧
      (config.stopWhenFilled = false → config.replyFilling = none → ∀ other,
        (other ∈ args.values.keys ↔ ∃ t ∈ openers, t.opened? table = some other) ∧
        (other ∈ args'.values.keys ↔ ∃ t ∈ shown, t.opened? table = some other)) := by
  intro table args args' openers shown
  let ctx : Context := ⟨content.toList, table, config, .ofConfig config⟩
  let ctx' : Context := ⟨content.toList, table, config.withoutColons oneFamily,
    .ofConfig (config.withoutColons oneFamily)⟩
  have takes : State.TakesTexts ctx := fun _ _ known =>
    ⟨(Table.option?_eq_some known).2.2, whole _ (Table.option?_eq_some known).1⟩
  have takes' : State.TakesTexts ctx' := takes
  have off : State.ColonsOff ctx := ⟨enabled, .inl locks⟩
  have off' : State.ColonsOff ctx' :=
    ⟨(Delimiters.withoutColons_hasDoubleHyphen _).trans enabled,
      .inr (Delimiters.withoutColons_hasColon _)⟩
  have shows : State.openers ctx' = shown :=
    filter_opened_withoutColons table (by simp [Delimiters.hasHyphen, enabled]) content.toList
  have counted := Table.optionCount_pos_of_option? declared
  have parsed : args = ⟨content, matchChoices table.choices config.choices
      (State.run ctx message).values, (State.run ctx message).spans⟩ := by
    rw [show args = _ from parse_eq counted, configured]
  have parsed' : args' = ⟨content, matchChoices table.choices config.choices
      (State.run ctx' message).values, (State.run ctx' message).spans⟩ := by
    rw [show args' = _ from parse_eq counted, configured']
    rfl
  refine ⟨fun outside => ?_, fun goesOn noReply other => ?_⟩
  · have same : State.Matches (State.run ctx message) (State.run ctx' message) :=
      .run valid declared front takes takes' off off' rfl rfl rfl rfl (shows.trans outside)
    rw [parsed, parsed', same]
  · rw [parsed, parsed', keys_matchChoices, keys_matchChoices, ← shows]
    exact ⟨State.mem_keys_run valid declared front takes off goesOn noReply other,
      @State.mem_keys_run ctx' _ _ _ _ valid declared front takes' off' goesOn noReply other⟩

/-- A marker with a colon is text in both, and the marker with hyphens behind it opens an option. -/
theorem parse_lockedFamily_colon :
    let command : Command := ⟨"say", [{ name := "x" }, { name := "y" }], none⟩
    let config : Config := { oneFamily := true }
    let args := command.parse config "--x a y: b --y c" none
    let openers := (tokens config.delimiters "--x a y: b --y c".toList).filter
      fun t => (t.opened? (.ofCommand command)).isSome
    args.values.toList = [("x", "a y: b"), ("y", "c")] ∧
      args = command.parse (config.withoutColons true) "--x a y: b --y c" none ∧
      ∀ other, other ∈ args.values.keys ↔
        ∃ t ∈ openers, t.opened? (.ofCommand command) = some other := by
  intro command config args openers
  have identifier : IsIdentifier "x".toList :=
    ⟨⟨'x', rfl, rfl⟩, List.all_eq_true.1 (by decide +kernel)⟩
  have equal := @parse_lockedFamily command config (config.withoutColons true) config true rfl rfl
    rfl (by decide) (by decide) "x" identifier { name := "x" } rfl "--x a y: b --y c"
    "a y: b --y c".toList (by decide) none
  exact ⟨by decide +kernel, equal.1 (by decide +kernel), fun other => (equal.2 rfl rfl other).1⟩

/-- Behind a colon a marker with hyphens opens an option, which it does not where markers with
colons are switched off. -/
theorem not_parse_eq_withoutColons :
    ¬ ∀ (command : Command) (shared : Config), command.overrides = none →
      shared.delimiters = {} → shared.oneFamily = true →
      (∀ o ∈ command.options, o.choices = [] ∧ o.takesOneValue shared.singleValue = false) →
      ∀ name, IsIdentifier name.toList → ((Table.ofCommand command).option? name).isSome →
      ∀ (text : String) (oneFamily : Bool),
        let content := String.ofList (markerOf name ++ ' ' :: text.toList)
        (command.parse shared content none).values =
          (command.parse (shared.withoutColons oneFamily) content none).values := by
  intro always
  have identifier : IsIdentifier "x".toList :=
    ⟨⟨'x', rfl, rfl⟩, List.all_eq_true.1 (by decide +kernel)⟩
  have equal := always ⟨"say", [{ name := "x" }, { name := "y" }], none⟩ { oneFamily := true } rfl
    rfl rfl (by decide) "x" identifier (by decide +kernel) ":--y b" true
  have opened := congrArg (fun values => values.get? "y") equal
  revert opened
  decide +kernel

end Command

end ChatArgs
