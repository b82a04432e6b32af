import ChatArgs.Proofs.Parse.Change

/-!
# Parses that are alike

`State.image` is what a state of a first parse becomes in a second one that differs from it by a
`Change`, and `Alike` says that two states are such a pair. Each function of a parse keeps it. So
where nothing stands behind the text, the second parse answers what the first one does, with the
characters replaced and the first slots filled; and where more text does, the second parse comes to
its blank in the state that the first one ends in.
-/

namespace ChatArgs.Parse

open Text

/-! ## States -/

def LongText.image (v : Change) (long : LongText) : LongText :=
  { long with
    body := v.place long.body
    closing := long.closing.map fun run => { run with first := v.place run.first } }

def Held.image (v : Change) (held : Held) : Held :=
  ⟨held.text.map v.char, v.place held.start⟩

def Named.image (v : Change) (named : Named) : Named :=
  { named with start := v.place named.start }

def LastSlot.image (v : Change) (slot : LastSlot) : LastSlot :=
  { slot with start := v.place slot.start, front := slot.front.map v.char }

def Token.image (v : Change) (t : Token) : Token :=
  { t with start := v.place t.start, stop := v.place t.stop }

variable {v : Change} {ctx : Context} {table' : Table}

theorem Change.Relates.text_image (relates : v.Relates ctx table') {t : Token}
    (inside : t.In ctx) :
    String.ofList (t.image v).text = (String.ofList t.text).map v.char := by
  rw [map_ofList]
  exact congrArg _ (relates.textTo_place inside.start inside.stop.offset_le)

namespace State

def image (v : Change) (s : State) : State :=
  { s with
    values := v.entries s.values
    taken := v.seats.map (fun _ => true) ++ s.taken
    takenCount := v.seats.length + s.takenCount
    longText := s.longText.map (LongText.image v)
    escape := s.escape.map fun escape => (v.place escape.1, escape.2)
    held := s.held.map (Held.image v)
    named := s.named.map (Named.image v)
    lastSlot := s.lastSlot.map (LastSlot.image v) }

section

variable (v : Change) (s : State)

@[simp] theorem image_remaining : (s.image v).remaining = s.remaining := by
  simp only [remaining, image, List.length_append, List.length_map]
  omega

theorem image_freeSlot? : (s.image v).freeSlot? = s.freeSlot?.map (· + v.seats.length) := by
  unfold freeSlot? image
  rw [List.findIdx?_append, List.length_map]
  have taken : (v.seats.map fun _ => true).findIdx? (fun taken => !taken) = none := by
    rw [List.findIdx?_eq_none_iff]
    simp
  rw [taken, Option.none_or]

@[simp] theorem image_lastFilled : (s.image v).lastFilled = s.lastFilled := rfl

@[simp] theorem image_longText_isNone : (s.image v).longText.isNone = s.longText.isNone :=
  Option.isNone_map ..

@[simp] theorem image_held_isNone : (s.image v).held.isNone = s.held.isNone :=
  Option.isNone_map ..

@[simp] theorem image_named_isNone : (s.image v).named.isNone = s.named.isNone :=
  Option.isNone_map ..

@[simp] theorem image_lastSlot_isNone : (s.image v).lastSlot.isNone = s.lastSlot.isNone :=
  Option.isNone_map ..

@[simp] theorem image_longText_isSome : (s.image v).longText.isSome = s.longText.isSome :=
  Option.isSome_map ..

@[simp] theorem image_held_isSome : (s.image v).held.isSome = s.held.isSome :=
  Option.isSome_map ..

@[simp] theorem image_named_isSome : (s.image v).named.isSome = s.named.isSome :=
  Option.isSome_map ..

@[simp] theorem image_lastSlot_isSome : (s.image v).lastSlot.isSome = s.lastSlot.isSome :=
  Option.isSome_map ..

@[simp] theorem image_freeSlot?_isNone : (s.image v).freeSlot?.isNone = s.freeSlot?.isNone := by
  rw [image_freeSlot?, Option.isNone_map]

theorem image_openSingle? (ctx : Context) (table : Table) :
    (s.image v).openSingle? (v.context ctx table) =
      (s.openSingle? ctx).map (Named.image v) := by
  unfold openSingle? image
  rw [Option.filter_map]
  rfl

theorem image_quotesArePlain (ctx : Context) (table : Table) :
    (s.image v).quotesArePlain (v.context ctx table) = s.quotesArePlain ctx := by
  unfold quotesArePlain oneSlotLeft
  rw [image_named_isNone, image_remaining]
  rfl

end

variable {s s' : State}

/-- What is remembered are places of the text, names of options, and quotes that are switched
on. -/
structure Known (ctx : Context) (s : State) : Prop where
  long : ∀ long ∈ s.longText, ctx.patterns.delimiters.isQuoteChar long.quote.char = true ∧
    long.body.In ctx.content ∧ ∀ run ∈ long.closing, run.first.In ctx.content
  escape : ∀ escape ∈ s.escape, escape.1.In ctx.content
  held : ∀ held ∈ s.held, held.start.In ctx.content
  named : ∀ named ∈ s.named, ctx.table.Holds named.option.name ∧ named.start.In ctx.content
  lastSlot : ∀ slot ∈ s.lastSlot, ctx.table.Holds slot.name ∧ slot.start.In ctx.content
  lastFilled : ∀ name ∈ s.lastFilled, ctx.table.Holds name

structure Alike (v : Change) (ctx : Context) (table' : Table) (s s' : State) : Prop where
  relates : v.Relates ctx table'
  same : s' = s.image v
  known : Known ctx s

namespace Alike

theorem ite {p q : Prop} [Decidable p] [Decidable q] {a a' b b' : State} (same : p ↔ q)
    (yes : Alike v ctx table' a a') (no : Alike v ctx table' b b') :
    Alike v ctx table' (if p then a else b) (if q then a' else b') := by
  by_cases h : p
  · rwa [if_pos h, if_pos (same.1 h)]
  · rwa [if_neg h, if_neg (mt same.2 h)]

theorem longText_eq (alike : Alike v ctx table' s s') :
    s'.longText = s.longText.map (LongText.image v) := by rw [alike.same]; rfl

theorem held_eq (alike : Alike v ctx table' s s') : s'.held = s.held.map (Held.image v) := by
  rw [alike.same]; rfl

theorem named_eq (alike : Alike v ctx table' s s') : s'.named = s.named.map (Named.image v) := by
  rw [alike.same]; rfl

theorem lastSlot_eq (alike : Alike v ctx table' s s') :
    s'.lastSlot = s.lastSlot.map (LastSlot.image v) := by rw [alike.same]; rfl

theorem family_eq (alike : Alike v ctx table' s s') : s'.family = s.family := by
  rw [alike.same]; rfl

theorem quotesArePlain_eq (alike : Alike v ctx table' s s') :
    s'.quotesArePlain (v.context ctx table') = s.quotesArePlain ctx := by
  rw [alike.same, image_quotesArePlain]

/-! ## Fields -/

theorem withHeld (alike : Alike v ctx table' s s') (held : Option Held)
    (inside : ∀ held' ∈ held, held'.start.In ctx.content) :
    Alike v ctx table' { s with held := held } { s' with held := held.map (Held.image v) } := by
  obtain ⟨relates, rfl, known⟩ := alike
  exact ⟨relates, rfl, { known with held := inside }⟩

theorem withEscape (alike : Alike v ctx table' s s') (escape : Option (Cursor × Nat))
    (inside : ∀ escape' ∈ escape, escape'.1.In ctx.content) :
    Alike v ctx table' { s with escape := escape }
      { s' with escape := escape.map fun escape => (v.place escape.1, escape.2) } := by
  obtain ⟨relates, rfl, known⟩ := alike
  exact ⟨relates, rfl, { known with escape := inside }⟩

theorem withFamily (alike : Alike v ctx table' s s') (family : Option Family) :
    Alike v ctx table' { s with family := family } { s' with family := family } := by
  obtain ⟨relates, rfl, known⟩ := alike
  exact ⟨relates, rfl, { known with }⟩

theorem openLong (alike : Alike v ctx table' s s') (long : LongText)
    (enabled : ctx.patterns.delimiters.isQuoteChar long.quote.char = true)
    (body : long.body.In ctx.content) (closing : ∀ run ∈ long.closing, run.first.In ctx.content) :
    Alike v ctx table' { s with longText := some long }
      { s' with longText := some (long.image v) } := by
  obtain ⟨relates, rfl, known⟩ := alike
  refine ⟨relates, rfl, { known with long := ?_ }⟩
  intro long' member
  rw [← Option.some.inj member]
  exact ⟨enabled, body, closing⟩

/-- An option that takes its value is the one that is filled last. -/
theorem closeOption {named : Named} (alike : Alike v ctx table' s s')
    (holds : ctx.table.Holds named.option.name) :
    Alike v ctx table'
      { s with named := none, justClosed := true, lastFilled := some named.option.name }
      { s' with named := none, justClosed := true, lastFilled := some named.option.name } := by
  obtain ⟨relates, rfl, known⟩ := alike
  refine ⟨relates, rfl, { known with named := by simp, lastFilled := ?_ }⟩
  intro name member
  rwa [← Option.some.inj member]

/-! ## Giving a value -/

theorem setValue {name value value' : String} (alike : Alike v ctx table' s s')
    (holds : ctx.table.Holds name) (text : value' = value.map v.char) (start stop : Nat) :
    Alike v ctx table' (s.setValue name value start stop)
      (s'.setValue name value' start stop) := by
  obtain ⟨relates, rfl, known⟩ := alike
  refine ⟨relates, ?_, { known with }⟩
  have values := v.entries_insert (relates.fresh name holds) s.values value
  simp only [State.setValue, image, text, values]

theorem append {last text text' : String} (alike : Alike v ctx table' s s')
    (filled : s.lastFilled = some last) (same : text' = text.map v.char) (stop : Nat) :
    Alike v ctx table' (s.append last text stop) (s'.append last text' stop) := by
  obtain ⟨relates, rfl, known⟩ := alike
  have fresh := relates.fresh last (known.lastFilled last filled)
  refine ⟨relates, ?_, { known with }⟩
  have longer : ((v.entries s.values).get? last).getD "" ++ text' =
      ((s.values.get? last).getD "" ++ text).map v.char := by
    rw [v.entries_get? fresh, map_append, same]
    cases s.values.get? last with
    | none => rw [Option.map_none, Option.getD_none, map_empty]
    | some value => rfl
  simp only [State.append, image, longer, v.entries_insert fresh]

theorem take (alike : Alike v ctx table' s s') (slot : Nat) :
    Alike v ctx table' (s.take slot) (s'.take (slot + v.seats.length)) := by
  obtain ⟨relates, rfl, known⟩ := alike
  constructor
  · exact relates
  · have seats : (v.seats.map fun _ => true).length = v.seats.length := List.length_map ..
    have taken : (s.image v).taken[slot + v.seats.length]? = s.taken[slot]? := by
      change (v.seats.map (fun _ => true) ++ s.taken)[slot + v.seats.length]? = _
      rw [List.getElem?_append_right (by simp), seats, Nat.add_sub_cancel]
    unfold State.take
    rw [taken]
    split
    · simp only [image, State.mk.injEq, true_and, and_true]
      constructor
      · rw [List.set_append_right _ _ (by simp), seats, Nat.add_sub_cancel]
      · exact Nat.add_assoc ..
    · rfl
  · rw [take_frame]
    exact { known with }

theorem fillSlot {value value' : String} {start : Cursor} (alike : Alike v ctx table' s s')
    (text : value' = value.map v.char) (inside : start.In ctx.content) (stop : Nat) (long : Bool) :
    Alike v ctx table' (s.fillSlot ctx value start stop long)
      (s'.fillSlot (v.context ctx table') value' (v.place start) stop long) := by
  obtain ⟨relates, rfl, known⟩ := alike
  unfold State.fillSlot
  rw [image_freeSlot?]
  cases s.freeSlot? with
  | none => exact ⟨relates, rfl, known⟩
  | some slot =>
      have slots' : (v.context ctx table').table.slots[slot + v.seats.length]? =
          ctx.table.slots[slot]? := relates.slots_get slot
      simp -zeta only [Option.map_some, slots']
      cases declared : ctx.table.slots[slot]? with
      | none => exact ⟨relates, rfl, known⟩
      | some option =>
          simp -zeta only
          extract_lets front spanStart lastSlot filled front' spanStart' lastSlot' filled'
          have holds : ctx.table.Holds option.name :=
            .inl ⟨option, List.mem_of_getElem? declared, rfl⟩
          obtain ⟨front'', spanStart''⟩ : front' = front.map v.char ∧ spanStart' = spanStart := by
            have held' : (s.image v).held = s.held.map (Held.image v) := rfl
            unfold front' front spanStart' spanStart
            rw [held']
            cases s.held with
            | none => exact ⟨(map_empty _).symm, rfl⟩
            | some held => exact ⟨rfl, rfl⟩
          have lastSlot'' : lastSlot' = lastSlot.map (LastSlot.image v) := by
            unfold lastSlot' lastSlot
            rw [image_remaining, image_longText_isNone, front'', spanStart'']
            split <;> rfl
          have filled'' : Alike v ctx table' filled filled' := by
            refine ⟨relates, ?_, { known with held := ?_, lastSlot := ?_, lastFilled := ?_ }⟩
            · unfold filled' filled
              rw [lastSlot'']
              rfl
            · simp [filled]
            · intro slot member
              change slot ∈ lastSlot at member
              unfold lastSlot at member
              split at member
              · rw [← Option.some.inj member]
                exact ⟨holds, inside⟩
              · exact known.lastSlot slot member
            · intro name member
              rwa [← Option.some.inj member]
          rw [spanStart'']
          refine (filled''.setValue holds ?_ _ _).take slot
          rw [front'', text, map_append]

theorem markFilled {option : OptionDecl} (alike : Alike v ctx table' s s')
    (holds : ctx.table.Holds option.name) :
    Alike v ctx table' (s.markFilled ctx option)
      (s'.markFilled (v.context ctx table') option) := by
  have slotOf' : (v.context ctx table').table.slotOf? option.name =
      (ctx.table.slotOf? option.name).map (· + v.seats.length) :=
    alike.relates.slotOf?_eq (alike.relates.fresh _ holds)
  unfold State.markFilled
  rw [slotOf']
  refine .ite Iff.rfl ?_ ?_
  · obtain ⟨relates, rfl, known⟩ := alike
    exact .ite Iff.rfl ⟨relates, rfl, known⟩ ⟨relates, rfl, { known with }⟩
  · cases ctx.table.slotOf? option.name with
    | none => exact alike
    | some slot => exact alike.take slot

theorem fillNamed {named : Named} {value value' : String} (alike : Alike v ctx table' s s')
    (holds : ctx.table.Holds named.option.name) (text : value' = value.map v.char)
    (start stop : Nat) :
    Alike v ctx table' (s.fillNamed ctx named value start stop)
      (s'.fillNamed (v.context ctx table') (named.image v) value' start stop) :=
  ((alike.closeOption holds).setValue holds text start stop).markFilled holds

theorem place {value value' : String} {start : Cursor} (alike : Alike v ctx table' s s')
    (text : value' = value.map v.char) (inside : start.In ctx.content) (stop : Nat) (long : Bool) :
    Alike v ctx table' (s.place ctx value start stop long)
      (s'.place (v.context ctx table') value' (v.place start) stop long) := by
  have single : s'.openSingle? (v.context ctx table') =
      (s.openSingle? ctx).map (Named.image v) := by
    rw [alike.same, image_openSingle?]
  unfold State.place
  rw [single, alike.held_eq]
  cases found : s.openSingle? ctx with
  | some named =>
      have opened := (openSingle?_eq_some.1 found).1
      exact alike.fillNamed (alike.known.named named opened).1 text _ stop
  | none =>
      cases long with
      | false => exact alike.fillSlot text inside stop false
      | true =>
          cases filled : s.held with
          | none => exact alike.fillSlot text inside stop true
          | some held =>
              have text' : (held.image v).text = held.text.map v.char := rfl
              have first := (alike.withHeld none (by simp)).fillSlot text'
                (alike.known.held held filled) start.offset true
              exact first.fillSlot text inside stop true

/-! ## Closing what is open -/

/-- The end of the text is one for both, unless more text stands behind it. -/
theorem closeLastSlot {stop : Nat} {post : List Char} (alike : Alike v ctx table' s s')
    (inside : stop ≤ ctx.length) (ends : v.tail = [] ∨ stop < ctx.length)
    (fixed : post.map v.char = post) :
    Alike v ctx table' (s.closeLastSlot ctx stop post)
      (s'.closeLastSlot (v.context ctx table') stop post) := by
  have length := alike.relates.length_context
  have atEnd : (stop == (v.context ctx table').length) = (stop == ctx.length) := by
    rw [length, Bool.eq_iff_iff, beq_iff_eq, beq_iff_eq]
    rcases ends with none | before
    · rw [none, byteLength_nil, Nat.add_zero]
    · omega
  have neutral := alike.relates.neutral
  unfold State.closeLastSlot
  rw [alike.lastSlot_eq]
  cases opened : s.lastSlot with
  | none => exact alike
  | some slot =>
      obtain ⟨holds, place⟩ := alike.known.lastSlot slot opened
      have raw : (slot.image v).start.textTo stop = (slot.start.textTo stop).map v.char :=
        alike.relates.textTo_place place inside
      obtain ⟨relates, rfl, known⟩ := alike
      have closed : Alike v ctx table' { s with lastSlot := none, lastSlotClosed := true }
          { s.image v with lastSlot := none, lastSlotClosed := true } :=
        ⟨relates, rfl, { known with lastSlot := by simp }⟩
      refine closed.setValue holds ?_ _ _
      have escaped (e : Option EscapeSet)
          (covered : ∀ e' ∈ e, ∀ c, e'.isDelimiter c = true →
            ¬ IsOrdinary ctx.patterns.delimiters c) :
          unescapeWith e ((slot.start.textTo stop).map v.char) ++ post =
            (unescapeWith e (slot.start.textTo stop) ++ post).map v.char := by
        rw [neutral.unescapeWith_map covered, List.map_append, fixed]
      have front : (slot.image v).front.toList = slot.front.toList.map v.char :=
        String.toList_map
      rw [map_ofList, ← trim_map neutral.isBlank, List.map_append, atEnd, raw, front]
      congr 3
      simp only [apply_ite (List.map v.char)]
      refine if_congr Iff.rfl rfl ?_
      refine escaped _ ?_
      intro e escapes
      split at escapes
      · exact unquotedEscapes_covered escapes
      · exact textEscapes_covered escapes

theorem closeLongText {stop : Nat} (alike : Alike v ctx table' s s')
    (inside : stop ≤ ctx.length) :
    Alike v ctx table' (s.closeLongText ctx stop)
      (s'.closeLongText (v.context ctx table') stop) := by
  have neutral := alike.relates.neutral
  unfold State.closeLongText
  rw [alike.longText_eq]
  cases opened : s.longText with
  | none => exact alike
  | some long =>
      obtain ⟨-, body, -⟩ := alike.known.long long opened
      have raw : (long.image v).body.textTo stop = (long.body.textTo stop).map v.char :=
        alike.relates.textTo_place body inside
      obtain ⟨relates, rfl, known⟩ := alike
      have closed : Alike v ctx table' { s with longText := none, justClosed := true }
          { s.image v with longText := none, justClosed := true } :=
        ⟨relates, rfl, { known with long := by simp }⟩
      refine closed.place ?_ body stop true
      rw [map_ofList, raw, ← neutral.unescapeWith_map fun e escapes => quoteEscapes_covered escapes]
      rfl

theorem splitSign_map {d : Delimiters} {r : Char → Char} (neutral : Neutral d r)
    (cs : List Char) :
    splitSign (cs.map r) = ((splitSign cs).1.map r, (splitSign cs).2.map r) := by
  have sign (x : Char) (member : x ∈ ['\\', '=', ':', '/']) (c : Char) :
      (r c == x) = (c == x) := neutral.beq (not_isOrdinary_of_sign member) c
  unfold splitSign
  simp only [neutral.length_takeWhile not_isOrdinary_backslash, ← List.map_drop]
  cases cs.drop (cs.takeWhile (· == '\\')).length with
  | nil => rfl
  | cons c rest =>
      simp only [List.map_cons, sign '=' (by decide), sign ':' (by decide)]
      split
      · rw [List.map_append, neutral.map_backslashes, List.map_singleton]
      · rfl

theorem namedValue_image {named : Named} {stop : Nat} (alike : Alike v ctx table' s s')
    (place : named.start.In ctx.content) (inside : stop ≤ ctx.length) :
    s'.namedValue (v.context ctx table') (named.image v) stop =
      (s.namedValue ctx named stop).map v.char := by
  have neutral := alike.relates.neutral
  have raw : (named.image v).start.textTo stop = (named.start.textTo stop).map v.char :=
    alike.relates.textTo_place place inside
  have value (family : Family) (cs : List Char) :
      trim (unescapeWith (ctx.patterns.delimiters.markerEscapes s.family family)
          (cs.map v.char)) =
        (trim (unescapeWith (ctx.patterns.delimiters.markerEscapes s.family family) cs)).map
          v.char := by
    rw [neutral.unescapeWith_map fun e escapes => markerEscapes_covered escapes,
      trim_map neutral.isBlank]
  have family' : (named.image v).family = named.family := rfl
  unfold State.namedValue
  rw [alike.family_eq, raw, family']
  cases named.family with
  | hyphen =>
      simp only [splitSign_map neutral, List.map_append]
      exact congrArg _ (value .hyphen _)
  | colon =>
      simp only [List.map_append]
      exact congrArg _ (value .colon _)

theorem closeNamed {stop : Nat} (alike : Alike v ctx table' s s') (inside : stop ≤ ctx.length) :
    Alike v ctx table' (s.closeNamed ctx stop) (s'.closeNamed (v.context ctx table') stop) := by
  have neutral := alike.relates.neutral
  unfold State.closeNamed
  rw [alike.named_eq]
  cases opened : s.named with
  | none => exact alike
  | some named =>
      obtain ⟨holds, place⟩ := alike.known.named named opened
      have value := alike.namedValue_image place inside
      have marked := (alike.closeOption holds).markFilled holds
      have fixed : "true".map v.char = "true" := by
        rw [← String.toList_inj, String.toList_map]
        exact neutral.map_name (List.all_eq_true.1 (by decide +kernel))
      refine .ite ?_ (marked.setValue holds fixed.symm _ _) (marked.setValue holds ?_ _ _)
      · rw [value, all_map neutral.isBlank]
        rfl
      · rw [value, map_ofList]

/-! ## Text between words -/

theorem hold {text text' : String} {start : Cursor} (alike : Alike v ctx table' s s')
    (same : text' = text.map v.char) (inside : start.In ctx.content) :
    Alike v ctx table' (s.hold text start) (s'.hold text' (v.place start)) := by
  unfold State.hold
  rw [alike.held_eq, same]
  cases filled : s.held with
  | none =>
      refine alike.withHeld (some ⟨text, start⟩) ?_
      intro held member
      rwa [← Option.some.inj member]
  | some held =>
      have longer := alike.withHeld (some { held with text := held.text ++ text }) ?_
      · rw [Option.map_some, Held.image, map_append] at longer
        exact longer
      · intro held' member
        rw [← Option.some.inj member]
        exact alike.known.held held filled

theorem flushHeld (alike : Alike v ctx table' s s') (stop : Nat) :
    Alike v ctx table' (s.flushHeld ctx stop) (s'.flushHeld (v.context ctx table') stop) := by
  unfold State.flushHeld
  rw [alike.held_eq]
  cases filled : s.held with
  | none => exact alike
  | some held =>
      have text : (held.image v).text = held.text.map v.char := rfl
      exact (alike.withHeld none (by simp)).place text (alike.known.held held filled)
        stop false

theorem placeText {text text' : String} {start : Cursor} {next next' : Option Char}
    (alike : Alike v ctx table' s s') (same : text' = text.map v.char)
    (inside : start.In ctx.content) (stop : Nat) (sees : isVisible next' = isVisible next)
    (justClosed : Bool) :
    Alike v ctx table' (s.placeText ctx text start stop next justClosed)
      (s'.placeText (v.context ctx table') text' (v.place start) stop next' justClosed) := by
  have named' : s'.named.isSome = s.named.isSome := by rw [alike.same, image_named_isSome]
  have glued' : (s'.held.isNone && !justClosed && isVisible (v.place start).before) =
      (s.held.isNone && !justClosed && isVisible start.before) := by
    rw [alike.same, image_held_isNone, alike.relates.isVisible_before]
  have last' : s'.lastFilled = s.lastFilled := by rw [alike.same, image_lastFilled]
  unfold State.placeText
  simp only [named', glued', last', sees]
  split
  · exact alike
  · split
    · rename_i filled
      exact alike.append filled same stop
    · split
      · exact alike.hold same inside
      · exact alike.place same inside stop false

/-! ## Markers -/

theorem literalMarker {t : Token} (alike : Alike v ctx table' s s') (inside : t.In ctx)
    (justClosed : Bool) :
    Alike v ctx table' (s.literalMarker ctx t justClosed)
      (s'.literalMarker (v.context ctx table') (t.image v) justClosed) := by
  unfold State.literalMarker
  refine .ite (by rw [alike.same, image_lastSlot_isSome]) alike ?_
  exact alike.placeText (alike.relates.text_image inside) inside.start _
    (alike.relates.isVisible_after t.stop) justClosed

theorem openNamed {t : Token} {option : OptionDecl} {escapes : Nat}
    (alike : Alike v ctx table' s s') (inside : t.In ctx) (holds : ctx.table.Holds option.name)
    (fits : t.start.offset + escapes ≤ ctx.length) (family : Family) (justClosed : Bool) :
    Alike v ctx table' (s.openNamed ctx t escapes family option justClosed)
      (s'.openNamed (v.context ctx table') (t.image v) escapes family option justClosed) := by
  have neutral := alike.relates.neutral
  have before : t.start.offset < ctx.length := inside.ahead.trans_le inside.stop.offset_le
  unfold State.openNamed
  extract_lets index kept placed flushed closed done index' placed' flushed' closed' done'
  have text : String.ofList kept = (String.ofList kept).map v.char := by
    rw [map_ofList, neutral.map_backslashes]
  have placed'' : Alike v ctx table' placed placed' :=
    .ite (by rw [alike.same, image_lastSlot_isNone])
      (alike.placeText text inside.start _ rfl justClosed) alike
  have flushed'' : Alike v ctx table' flushed flushed' :=
    .ite (by rw [placed''.same, image_named_isNone, image_lastSlot_isNone])
      (placed''.flushHeld index) placed''
  have closed'' : Alike v ctx table' closed closed' := by
    apply flushed''.closeNamed
    split
    · exact before.le
    · exact fits
  have done'' : Alike v ctx table' done done' :=
    closed''.closeLastSlot before.le (.inr before) (neutral.map_backslashes _)
  obtain ⟨relates, same, known⟩ := done''
  refine ⟨relates, ?_, { known with named := ?_ }⟩
  · rw [same]
    rfl
  · intro named member
    rw [← Option.some.inj member]
    exact ⟨holds, inside.stop⟩

def Stays (v : Change) (opening : Opening) (name : String) : Prop :=
  ∀ count, opening = .hyphens count →
    (List.replicate count '-' ++ name.toList).map v.char = List.replicate count '-' ++ name.toList

theorem declaredMarker {t : Token} {opening : Opening} {option : OptionDecl} {name : String}
    {escapes : Nat} (alike : Alike v ctx table' s s') (inside : t.In ctx)
    (holds : ctx.table.Holds option.name) (fits : t.start.offset + escapes ≤ ctx.length)
    (stays : Stays v opening name) (justClosed : Bool) :
    Alike v ctx table' (s.declaredMarker ctx t escapes opening option name justClosed)
      (s'.declaredMarker (v.context ctx table') (t.image v) escapes opening option name
        justClosed) := by
  have neutral := alike.relates.neutral
  unfold State.declaredMarker
  cases opening with
  | colon => exact alike.openNamed inside holds fits _ _
  | hyphens count =>
      refine .ite Iff.rfl (.ite (by rw [alike.same, image_lastSlot_isNone]) ?_ alike)
        (alike.openNamed inside holds fits _ _)
      refine alike.placeText ?_ inside.start _ (alike.relates.isVisible_after t.stop) justClosed
      rw [map_ofList, List.append_assoc, List.map_append, neutral.map_backslashes,
        stays count rfl]

theorem onMarker {t : Token} {opening : Opening} {name : String} {escapes : Nat}
    (alike : Alike v ctx table' s s') (inside : t.In ctx) (fresh : ¬ v.Seats name)
    (fits : t.start.offset + escapes ≤ ctx.length) (stays : Stays v opening name)
    (justClosed : Bool) :
    Alike v ctx table' (s.onMarker ctx t escapes opening name justClosed)
      (s'.onMarker (v.context ctx table') (t.image v) escapes opening name justClosed) := by
  have option' : (v.context ctx table').table.option? name = ctx.table.option? name :=
    alike.relates.option? name fresh
  have literal := alike.literalMarker inside justClosed
  unfold State.onMarker
  rw [option', alike.family_eq]
  cases known : ctx.table.option? name with
  | none => exact literal
  | some option =>
      have holds : ctx.table.Holds option.name := .inr ⟨name, option, known, rfl⟩
      have declared := alike.declaredMarker inside holds fits stays justClosed
      refine .ite Iff.rfl ?_ declared
      cases s.family with
      | none => exact (alike.withFamily _).declaredMarker inside holds fits stays justClosed
      | some family => exact .ite Iff.rfl declared literal

/-! ## Backslashes, quotes and words -/

theorem onBackslashes {t : Token} (alike : Alike v ctx table' s s') (inside : t.In ctx)
    (count : Nat) (justClosed : Bool) :
    Alike v ctx table' (s.onBackslashes ctx t count justClosed)
      (s'.onBackslashes (v.context ctx table') (t.image v) count justClosed) := by
  unfold State.onBackslashes
  extract_lets next counts isQuote odd escaping marked kept next' counts' isQuote' escaping'
    marked' kept'
  have counts'' : counts' = counts := by
    unfold counts' counts
    rw [alike.longText_eq]
    cases opened : s.longText with
    | none => rfl
    | some long =>
        obtain ⟨enabled, -⟩ := alike.known.long long opened
        exact alike.relates.after_beq (not_isOrdinary_quote enabled) long.quote.char_ne_blank _
  refine .ite (by rw [counts'']) alike ?_
  -- A quote that is switched off may have gone; in front of one nothing is an escape.
  have escaping'' : escaping' = escaping := by
    have escapes : (v.context ctx table').patterns.delimiters.escapesNext s'.family next' =
        ctx.patterns.delimiters.escapesNext s.family next := by
      rw [alike.family_eq]
      exact alike.relates.escapesNext_after s.family t.stop
    unfold escaping' escaping
    rw [alike.quotesArePlain_eq, escapes]
    cases escaped : ctx.patterns.delimiters.escapesNext s.family next with
    | false => simp
    | true =>
        have isQuote'' : isQuote' = isQuote := alike.relates.quote_after escaped
        rw [isQuote'']
  have marked'' : Alike v ctx table' marked marked' := by
    refine .ite (by rw [escaping'']) ?_ alike
    refine alike.withEscape (some (t.start, t.stop.offset)) ?_
    intro escape member
    rw [← Option.some.inj member]
    exact inside.start
  have kept'' : kept' = kept := by
    unfold kept' kept
    rw [escaping'']
  have text : String.ofList kept = (String.ofList kept).map v.char := by
    rw [map_ofList, alike.relates.neutral.map_backslashes]
  rw [kept'']
  refine .ite (by rw [marked''.same, image_longText_isSome]) marked'' (.ite Iff.rfl marked'' ?_)
  exact marked''.placeText text inside.start _ (alike.relates.isVisible_after t.stop) justClosed

theorem placeLanguage {start : Cursor} (alike : Alike v ctx table' s s')
    (inside : start.In ctx.content) (language : List Char) (hasLanguage : Bool) (stop : Nat) :
    Alike v ctx table' (s.placeLanguage ctx language hasLanguage start stop)
      (s'.placeLanguage (v.context ctx table') (language.map v.char) hasLanguage
        (v.place start) stop) := by
  unfold State.placeLanguage
  refine .ite ?_ alike (.ite Iff.rfl (alike.place (map_ofList ..).symm inside _ false) ?_)
  · rw [alike.same, image_named_isNone]
    rfl
  · rw [alike.same, image_freeSlot?, ← alike.same]
    cases s.freeSlot? with
    | none => exact alike
    | some slot => exact alike.take slot

theorem openCode {long : LongText} {closing : Cursor} (alike : Alike v ctx table' s s')
    (opened : s.longText = some long) (ends : closing.In ctx.content) :
    Alike v ctx table' (s.openCode ctx long closing)
      (s'.openCode (v.context ctx table') (long.image v) (v.place closing)) := by
  obtain ⟨enabled, body, closings⟩ := alike.known.long long opened
  unfold State.openCode
  extract_lets block lines placed block' lines' placed'
  have block'' : block' = block.map v.char := alike.relates.textTo_place body ends.offset_le
  have lines'' : lines' = v.place lines := by
    unfold lines' lines
    rw [block'']
    exact alike.relates.codeLines_place (Cursor.length_textTo_le ..)
  have placed'' : Alike v ctx table' placed placed' := by
    unfold placed placed'
    rw [block'', lines'', alike.relates.language_map, alike.relates.hasLanguage_map]
    exact alike.placeLanguage body ..
  rw [lines'', alike.relates.behindFeed_place]
  exact placed''.openLong { long with body := Block.behindFeed lines } enabled
    (Block.behindFeed_in (Block.codeLines_in body block)) closings

theorem closeCodeBlock {long : LongText} {closing : Cursor} (alike : Alike v ctx table' s s')
    (opened : s.longText = some long) (ends : closing.In ctx.content) :
    Alike v ctx table' (s.closeCodeBlock ctx long closing)
      (s'.closeCodeBlock (v.context ctx table') (long.image v) (v.place closing)) := by
  rw [closeCodeBlock_eq, closeCodeBlock_eq, alike.relates.beforeFeed_place]
  exact (alike.openCode opened ends).closeLongText
    ((Block.beforeFeed_le closing).trans ends.offset_le)

theorem onSameQuote {t : Token} {long : LongText} (alike : Alike v ctx table' s s')
    (inside : t.In ctx) (opened : s.longText = some long) :
    Alike v ctx table' (s.onSameQuote ctx t long)
      (s'.onSameQuote (v.context ctx table') (t.image v) (long.image v)) := by
  obtain ⟨enabled, body, closings⟩ := alike.known.long long opened
  unfold State.onSameQuote
  extract_lets index again isCodeBlock index' again' isCodeBlock'
  have again'' : again' = again :=
    alike.relates.after_beq (not_isOrdinary_quote enabled) long.quote.char_ne_blank t.stop
  have isCodeBlock'' : isCodeBlock' = isCodeBlock := rfl
  have closing' : (long.image v).closing = long.closing.map fun run =>
      { run with first := v.place run.first } := rfl
  refine .ite Iff.rfl
    (alike.openLong { long with body := t.stop } enabled inside.stop closings) ?_
  have remember (run : ClosingRun) (first : run.first.In ctx.content) :=
    alike.openLong { long with closing := some run } enabled body
      (by
        intro run' member
        rw [← Option.some.inj member]
        exact first)
  have fresh := remember ⟨t.start, index⟩ inside.start
  have here : index ≤ ctx.length := inside.start.offset_le
  rw [again'', isCodeBlock'', closing']
  cases known : long.closing with
  | none =>
      cases again with
      | true => exact fresh
      | false =>
          cases isCodeBlock with
          | true => exact alike
          | false => exact alike.closeLongText here
  | some run =>
      have first := closings run known
      cases again with
      | true => exact .ite Iff.rfl (remember { run with last := index } first) fresh
      | false =>
          cases isCodeBlock with
          | true => exact .ite Iff.rfl alike (alike.closeCodeBlock opened first)
          | false => exact alike.closeLongText first.offset_le

theorem onQuote {t : Token} {quote : Quote} (alike : Alike v ctx table' s s')
    (inside : t.In ctx)
    (enabled : ctx.patterns.delimiters.isQuoteChar quote.char = true) :
    Alike v ctx table' (s.onQuote ctx t quote)
      (s'.onQuote (v.context ctx table') (t.image v) quote) := by
  unfold State.onQuote
  rw [alike.longText_eq]
  cases opened : s.longText with
  | none =>
      exact alike.openLong ⟨quote, t.stop.offset, t.stop, none⟩ enabled inside.stop
        (by simp)
  | some long => exact .ite Iff.rfl (alike.onSameQuote inside opened) alike

theorem delimiterIsValue_image {t : Token} {c : Char} {rest : List Char}
    (alike : Alike v ctx table' s s')
    (enabled : isDelimiterChar ctx.patterns.delimiters c = true)
    (split : t.start.rest = c :: rest) :
    s'.delimiterIsValue (v.context ctx table') (t.image v) = s.delimiterIsValue ctx t := by
  have neutral := alike.relates.neutral
  have plain' : (v.context ctx table').config.plainLast = ctx.config.plainLast := rfl
  have longText' : s'.longText.isNone = s.longText.isNone := by
    rw [alike.same, image_longText_isNone]
  have block' : ['`', '`', '`'].isPrefixOf (t.image v).start.rest =
      ['`', '`', '`'].isPrefixOf t.start.rest := by
    by_cases backtick : c = '`'
    · refine alike.relates.isPrefixOf_place (fun x member => ?_) (by decide) t.start
      have same : x = '`' := by simpa using member
      rw [same, ← backtick]
      exact not_isOrdinary_of_delimiter enabled
    · have other : ('`' == c) = false := beq_false_of_ne (Ne.symm backtick)
      change ['`', '`', '`'].isPrefixOf (t.start.rest.map v.char ++ v.tail) = _
      rw [split, List.map_cons, List.cons_append,
        neutral.fixed (not_isOrdinary_of_delimiter enabled), List.isPrefixOf, List.isPrefixOf,
        other, Bool.false_and, Bool.false_and]
  unfold State.delimiterIsValue
  rw [plain', block', alike.quotesArePlain_eq, longText']

theorem onBareDelimiter {t : Token} {c : Char} {rest : List Char}
    (alike : Alike v ctx table' s s') (inside : t.In ctx)
    (enabled : isDelimiterChar ctx.patterns.delimiters c = true) (split : t.start.rest = c :: rest)
    (text : String.ofList [c] = (String.ofList [c]).map v.char) (justClosed : Bool) :
    Alike v ctx table' (s.onBareDelimiter ctx t c justClosed)
      (s'.onBareDelimiter (v.context ctx table') (t.image v) c justClosed) := by
  unfold State.onBareDelimiter
  refine .ite (by rw [alike.delimiterIsValue_image enabled split])
    (alike.place text inside.start _ false) ?_
  cases found : Quote.ofChar? c with
  | none =>
      refine .ite (by rw [alike.same, image_longText_isNone]) ?_ alike
      exact alike.placeText text inside.start _ (alike.relates.isVisible_after t.stop) justClosed
  | some quote =>
      obtain rfl := Quote.char_of_ofChar? found
      exact alike.onQuote inside (isQuoteChar_of_isDelimiterChar enabled)

theorem onDelimiter {t : Token} {c : Char} {rest : List Char} (alike : Alike v ctx table' s s')
    (inside : t.In ctx) (enabled : isDelimiterChar ctx.patterns.delimiters c = true)
    (split : t.start.rest = c :: rest) (justClosed : Bool) :
    Alike v ctx table' (s.onDelimiter ctx t c justClosed)
      (s'.onDelimiter (v.context ctx table') (t.image v) c justClosed) := by
  have neutral := alike.relates.neutral
  have text : String.ofList [c] = (String.ofList [c]).map v.char := by
    rw [map_ofList, List.map_singleton, neutral.fixed (not_isOrdinary_of_delimiter enabled)]
  have cleared : Alike v ctx table' { s with escape := none } { s' with escape := none } :=
    alike.withEscape none (by simp)
  have escape' : s'.escape.filter (·.2 == (t.image v).start.offset) =
      (s.escape.filter (·.2 == t.start.offset)).map
        fun escape => (v.place escape.1, escape.2) := by
    rw [alike.same]
    exact Option.filter_map ..
  unfold State.onDelimiter
  rw [escape']
  cases found : s.escape.filter (·.2 == t.start.offset) with
  | none => exact cleared.onBareDelimiter inside enabled split text justClosed
  | some escape =>
      have start := alike.known.escape escape (Option.filter_eq_some_iff.1 found).1
      refine .ite (by rw [cleared.same, image_longText_isNone]) ?_ cleared
      exact cleared.placeText text start _ (alike.relates.isVisible_after t.stop) justClosed

theorem onWord {t : Token} (alike : Alike v ctx table' s s') (inside : t.In ctx)
    (justClosed : Bool) :
    Alike v ctx table' (s.onWord ctx t justClosed)
      (s'.onWord (v.context ctx table') (t.image v) justClosed) := by
  have text := alike.relates.text_image inside
  have held' : s'.held.isSome = s.held.isSome := by rw [alike.same, image_held_isSome]
  have last' : s'.lastFilled = s.lastFilled := by rw [alike.same, image_lastFilled]
  unfold State.onWord
  extract_lets text' gap glued text'' gap' glued'
  have gap'' : gap' = gap := by
    have before : (t.image v).start.before = t.start.before.map v.char := rfl
    unfold gap' gap
    rw [before]
    cases t.start.before with
    | none => rfl
    | some c => exact alike.relates.neutral.isGap c
  have glued'' : glued' = glued := by
    unfold glued' glued
    rw [held', gap'']
  rw [glued'', last']
  split
  · rename_i filled
    exact alike.append filled text _
  · exact alike.place text inside.start _ false

/-! ## Steps -/

/-- What a token does where text may become a value. -/
theorem onText {t : Token} {text rest : List Char} (alike : Alike v ctx table' s s')
    (inside : t.In ctx) (token : TokenFront ctx.patterns.delimiters t.kind text rest)
    (split : t.start.rest = text ++ rest) (single justClosed : Bool) :
    Alike v ctx table'
      (match t.kind with
        | .backslashes count => s.onBackslashes ctx t count justClosed
        | .delimiter c => s.onDelimiter ctx t c justClosed
        | .word =>
            if single && (s.lastSlotClosed || s.freeSlot?.isNone) then s
            else if s.longText.isNone then s.onWord ctx t justClosed
            else s
        | _ => s)
      (match t.kind with
        | .backslashes count =>
            s'.onBackslashes (v.context ctx table') (t.image v) count justClosed
        | .delimiter c => s'.onDelimiter (v.context ctx table') (t.image v) c justClosed
        | .word =>
            if single && (s'.lastSlotClosed || s'.freeSlot?.isNone) then s'
            else if s'.longText.isNone then
              s'.onWord (v.context ctx table') (t.image v) justClosed
            else s'
        | _ => s') := by
  cases kind : t.kind with
  | backslashes count => exact alike.onBackslashes inside count justClosed
  | delimiter c =>
      rw [kind] at token
      cases token with
      | delimiter enabled => exact alike.onDelimiter inside enabled split justClosed
  | word =>
      refine .ite ?_ alike (.ite ?_ (alike.onWord inside justClosed) alike)
      · rw [alike.same, image_freeSlot?_isNone]
        rfl
      · rw [alike.same, image_longText_isNone]
  | marker => exact alike
  | lineFeeds => exact alike

theorem onOther {t : Token} {text rest : List Char} (alike : Alike v ctx table' s s')
    (inside : t.In ctx) (token : TokenFront ctx.patterns.delimiters t.kind text rest)
    (split : t.start.rest = text ++ rest) (justClosed : Bool) :
    Alike v ctx table' (s.onOther ctx t justClosed)
      (s'.onOther (v.context ctx table') (t.image v) justClosed) := by
  have kind' : (t.image v).kind = t.kind := rfl
  unfold State.onOther
  extract_lets single atLine single' atLine'
  have single'' : single' = single := by
    unfold single' single
    rw [alike.same, image_openSingle?, Option.isSome_map]
  have atLine'' : atLine' = atLine := by
    unfold atLine' atLine
    rw [single'', kind', alike.same, image_longText_isNone, image_lastSlot_isNone]
  have passes : (s.lastSlot.isSome || (s.named.isSome && !single)) = true ↔
      (s'.lastSlot.isSome || (s'.named.isSome && !single)) = true := by
    rw [alike.same, image_lastSlot_isSome, image_named_isSome]
  have other := alike.onText inside token split single justClosed
  have named' := alike.named_eq
  rw [atLine'', single'', kind', named']
  cases known : s.named with
  | none =>
      rw [known, named', known] at passes
      cases atLine <;> exact .ite passes alike other
  | some named =>
      rw [known, named', known] at passes
      cases atLine with
      | true => exact alike.closeNamed (alike.known.named named known).2.offset_le
      | false => exact .ite passes alike other

/-- A marker of the text stays, and it names no seat. -/
theorem marker_stays {escapes : Nat} {opening : Opening} {name : String} {text rest : List Char}
    {c : Cursor} (relates : v.Relates ctx table') (place : c.In ctx.content)
    (token : TokenFront ctx.patterns.delimiters (.marker escapes opening name) text rest)
    (split : c.rest = text ++ rest) : ¬ v.Seats name ∧ Stays v opening name := by
  constructor
  · obtain ⟨front, whole, -⟩ := place
    rw [split] at whole
    exact relates.unmarked front text rest escapes opening name whole token
  · intro count hyphens
    subst hyphens
    cases token with
    | hyphens _ enabled valid _ =>
        rw [String.toList_ofList, List.map_append, List.map_replicate,
          relates.neutral.fixed (not_isOrdinary_hyphen enabled), relates.neutral.map_name valid.2]

theorem step {c : Cursor} {kind : TokenKind} {text rest : List Char}
    (alike : Alike v ctx table' s s') (place : c.In ctx.content)
    (token : TokenFront ctx.patterns.delimiters kind text rest) (split : c.rest = text ++ rest) :
    Alike v ctx table' (s.step ctx (.reading kind c text rest))
      (s'.step (v.context ctx table') (Token.image v (.reading kind c text rest))) := by
  have inside := Token.reading_in place token split
  unfold State.step
  extract_lets justClosed quiet justClosed' quiet'
  have quiet'' : Alike v ctx table' quiet quiet' := by
    obtain ⟨relates, rfl, known⟩ := alike
    exact ⟨relates, rfl, { known with }⟩
  have justClosed'' : justClosed' = justClosed := by
    unfold justClosed' justClosed
    rw [alike.same]
    rfl
  have kind' : (Token.image v (.reading kind c text rest)).kind = kind := rfl
  have other := quiet''.onOther inside token split justClosed
  rw [justClosed'', kind', quiet''.longText_eq]
  cases kind with
  | marker escapes opening name =>
      cases quiet.longText with
      | none =>
          obtain ⟨fresh, stays⟩ := marker_stays alike.relates place token split
          have fits := (Nat.add_le_add_left token.escapes_le c.offset).trans
            (place.past split).offset_le
          exact quiet''.onMarker inside fresh fits stays justClosed
      | some long => exact other
  | delimiter => exact other
  | word => exact other
  | backslashes => exact other
  | lineFeeds => exact other

/-! ## Runs -/

theorem allFilled_eq (alike : Alike v ctx table' s s') :
    s'.allFilled (v.context ctx table') = s.allFilled ctx := by
  have count' : (v.context ctx table').table.optionCount =
      v.seats.length + ctx.table.optionCount := alike.relates.optionCount
  unfold State.allFilled
  rw [count', alike.same]
  change decide (_ ≤ v.seats.length + s.takenCount + s.filledFlags.length) = _
  rw [Nat.add_assoc]
  exact decide_eq_decide.2 (Nat.add_le_add_iff_left ..)

theorem stops_eq (alike : Alike v ctx table' s s') :
    s'.stops (v.context ctx table') = s.stops ctx := by
  unfold State.stops
  rw [alike.allFilled_eq]
  rfl

/-- The second parse comes to the end of the first text in the state that the first one ends
in. -/
theorem sweep {c : Cursor} (alike : Alike v ctx table' s s') (place : c.In ctx.content) :
    ∃ s'', Alike v ctx table' (s.sweep ctx c) s'' ∧
      s'.sweep (v.context ctx table') (v.place c) =
        s''.sweep (v.context ctx table') (v.place (c.past c.rest [])) := by
  have relates := alike.relates
  induction c, s using sweep_induction ctx generalizing s' with
  | finish c s ends =>
      rcases ends with ends | stops
      · have same : c.past c.rest [] = c := by
          rw [ends]
          exact ends ▸ c.past_nil
        rw [sweep_end ends, same]
        exact ⟨s', alike, rfl⟩
      · have stops' := alike.stops_eq.trans stops
        rw [sweep_of_stops stops, sweep_of_stops stops']
        exact ⟨s', alike, (sweep_of_stops stops').symm⟩
  | skip c s x rest split _ none _ ih =>
      have split' : (v.place c).rest = v.char x :: (rest.map v.char ++ v.tail) := by
        rw [Change.place_rest, split, List.map_cons, List.cons_append]
      have none' : tokenAt? (v.context ctx table').patterns.delimiters (v.place c).rest = .none :=
        (relates.tokenAt?_place c).trans none
      have behind := relates.past_place c [x] rest
      rw [List.map_singleton] at behind
      obtain ⟨s'', alike', same⟩ := ih alike (place.past split)
      rw [Cursor.past_past] at same
      rw [sweep_skip split none, sweep_skip split' none', behind, split]
      exact ⟨s'', alike', same⟩
  | token c s kind text rest split front found stops ih =>
      have split' : (v.place c).rest = text.map v.char ++ (rest.map v.char ++ v.tail) := by
        rw [Change.place_rest, split, List.map_append, List.append_assoc]
      have found' : tokenAt? (v.context ctx table').patterns.delimiters (v.place c).rest =
          some (kind, (text.map v.char).length) := by
        rw [List.length_map]
        exact (relates.tokenAt?_place c).trans found
      have behind := relates.past_place c text rest
      have token' : Token.reading kind (v.place c) (text.map v.char) (rest.map v.char ++ v.tail) =
          (Token.reading kind c text rest).image v := by
        rw [Token.reading, behind]
        rfl
      obtain ⟨s'', alike', same⟩ := ih (alike.step place front split) (place.past split)
      rw [Cursor.past_past] at same
      rw [sweep_token split found stops,
        sweep_token split' found' (alike.stops_eq.trans stops), behind, token', split]
      exact ⟨s'', alike', same⟩

theorem closeAll (alike : Alike v ctx table' s s') (alone : v.tail = []) :
    Alike v ctx table' (s.closeAll ctx) (s'.closeAll (v.context ctx table')) := by
  have length := alike.relates.length_context
  rw [alone, byteLength_nil, Nat.add_zero] at length
  unfold State.closeAll
  rw [length]
  exact ((alike.closeLastSlot (Nat.le_refl _) (.inl alone) rfl).closeNamed
    (Nat.le_refl _)).closeLongText (Nat.le_refl _)

theorem initial (relates : v.Relates ctx table') {s' : State}
    (same : s' = (State.initial ctx).image v) :
    Alike v ctx table' (State.initial ctx) s' :=
  ⟨relates, same, by constructor <;> simp [State.initial]⟩

/-- A second parse of no more text, which starts with its seats filled, ends in what a first one
ends in. -/
theorem run {s' : State} (alike : Alike v ctx table' (State.initial ctx) s')
    (alone : v.tail = []) :
    Alike v ctx table' (State.run ctx none)
      ((s'.sweep (v.context ctx table') (Cursor.start (v.context ctx table').content)).closeAll
        (v.context ctx table')) := by
  obtain ⟨s'', alike', same⟩ := alike.sweep (Cursor.start_in ctx.content)
  have ends : (v.place ((Cursor.start ctx.content).past (Cursor.start ctx.content).rest [])).rest =
      [] := by
    rw [Change.place_rest, Cursor.past_rest, alone]
    rfl
  have start : Cursor.start (v.context ctx table').content =
      v.place (Cursor.start ctx.content) := rfl
  rw [run_none, start, same, sweep_end ends]
  exact alike'.closeAll alone

end Alike

end State

end ChatArgs.Parse
