import ChatArgs.Proofs.Parse.OneFamily
import ChatArgs.Proofs.Parse.QuotedItems

/-!
# Held text

Text between words is held for the token behind it, which makes it the front of a value. Every
token that can follow does so, but for a backslash that stands alone in front of a blank or of the
end: it escapes what is behind it, and leaves held text where it is. `run_held` says that held text
is lost there and nowhere else.
-/

namespace ChatArgs.Parse

open Text

/-- A backslash alone in front of a blank or of the end: an escape of which no text is left. -/
def Token.isLoneEscape (t : Token) : Bool :=
  t.kind == .backslashes 1 && t.stop.after.all isBlank

def Token.leavesHeld (t : Token) : Bool :=
  t.kind == .lineFeeds || t.isLoneEscape

def Held.Continues (held held' : Held) : Prop :=
  held'.start = held.start ∧ ∃ more, held'.text = held.text ++ more

theorem Held.Continues.refl (held : Held) : held.Continues held :=
  ⟨rfl, "", by simp⟩

theorem Held.Continues.trans {a b c : Held} (first : a.Continues b) (second : b.Continues c) :
    a.Continues c := by
  obtain ⟨start, more, text⟩ := first
  obtain ⟨start', more', text'⟩ := second
  exact ⟨start'.trans start, more ++ more', by rw [text', text, String.append_assoc]⟩

namespace State

variable {ctx : Context} {s s' : State} {start : Nat}

def HoldsAlone (s : State) : Prop :=
  s.held ≠ none → s.named = none ∧ s.lastSlot = none

theorem HoldsAlone.noHeld (alone : HoldsAlone s) (opened : s.named ≠ none ∨ s.lastSlot ≠ none) :
    s.held = none := by
  by_contra holds
  obtain ⟨noNamed, noLast⟩ := alone holds
  exact opened.elim (· noNamed) (· noLast)

/-! ## The value that held text is the front of -/

/-- A taken slot has a value whose span starts at the offset, and if a last slot is open, it is
that slot. -/
def Placed (ctx : Context) (start : Nat) (s : State) : Prop :=
  ∃ (slot : Nat) (option : OptionDecl) (span : Span),
    ctx.table.slots[slot]? = some option ∧ s.taken[slot]? = some true ∧
      s.spans.get? option.name = some span ∧ span.start = start ∧
      ∀ last, s.lastSlot = some last → last.name = option.name ∧ last.spanStart = start

theorem exists_option_of_freeSlot (slots : s.taken.length = ctx.table.slots.length) {slot : Nat}
    (free : s.freeSlot? = some slot) : ∃ option, ctx.table.slots[slot]? = some option := by
  have bound := (List.findIdx?_eq_some_iff_getElem.1 free).1
  rw [slots] at bound
  exact ⟨_, List.getElem?_eq_getElem bound⟩

def frontStart (held : Option Held) (start : Cursor) : Nat :=
  match held with
  | some held => held.start.offset
  | none => start.offset

section

variable {slot : Nat} {option : OptionDecl} (free : s.freeSlot? = some slot)
  (found : ctx.table.slots[slot]? = some option)
include free found

theorem fillSlot_taken (value : String) (start : Cursor) (stop : Nat) (long : Bool) :
    (s.fillSlot ctx value start stop long).taken = s.taken.set slot true := by
  have isFree := taken_of_freeSlot free
  simp [fillSlot, free, found, take, setValue, isFree]

theorem fillSlot_spans (value : String) (start : Cursor) (stop : Nat) (long : Bool) :
    (s.fillSlot ctx value start stop long).spans =
      s.spans.insert option.name ⟨frontStart s.held start, stop⟩ := by
  simp only [fillSlot, free, found]
  rw [take_frame]
  rfl

theorem fillSlot_held_none (value : String) (start : Cursor) (stop : Nat) (long : Bool) :
    (s.fillSlot ctx value start stop long).held = none := by
  simp only [fillSlot, free, found]
  rw [take_frame]
  rfl

theorem fillSlot_placed (noLast : s.lastSlot = none) (value : String) (start : Cursor)
    (stop : Nat) (long : Bool) :
    Placed ctx (frontStart s.held start) (s.fillSlot ctx value start stop long) := by
  have isFree := taken_of_freeSlot free
  have bound : slot < s.taken.length := (List.getElem?_eq_some_iff.1 isFree).1
  refine ⟨slot, option, ⟨frontStart s.held start, stop⟩, found, ?_, ?_, rfl, ?_⟩
  · rw [fillSlot_taken free found, List.getElem?_set_self bound]
  · rw [fillSlot_spans free found, Entries.get?_insert, if_pos rfl]
  · intro last opened
    simp only [fillSlot, free, found] at opened
    rw [take_frame] at opened
    simp only [setValue, noLast] at opened
    split at opened
    · obtain rfl := Option.some.inj opened
      exact ⟨rfl, rfl⟩
    · simp at opened

end

theorem Placed.fillSlot (placed : Placed ctx start s)
    (distinct : (ctx.table.slots.map (·.name)).Nodup) (value : String) (from' : Cursor)
    (stop : Nat) : Placed ctx start (s.fillSlot ctx value from' stop true) := by
  obtain ⟨slot, option, span, found, taken, known, starts, last⟩ := placed
  cases free : s.freeSlot? with
  | none =>
      rw [fillSlot_of_noFreeSlot free]
      exact ⟨slot, option, span, found, taken, known, starts, last⟩
  | some other =>
      cases found' : ctx.table.slots[other]? with
      | none =>
          have same : s.fillSlot ctx value from' stop true = s := by
            simp [State.fillSlot, free, found']
          rw [same]
          exact ⟨slot, option, span, found, taken, known, starts, last⟩
      | some option' =>
          have differ : other ≠ slot := by
            rintro rfl
            rw [taken_of_freeSlot free] at taken
            simp at taken
          have names : option'.name ≠ option.name := by
            intro same
            have bound := (List.getElem?_eq_some_iff.1 found').1
            apply differ
            apply (List.getElem?_inj (by rwa [List.length_map]) distinct).1
            rw [List.getElem?_map, List.getElem?_map, found, found', Option.map_some,
              Option.map_some, same]
          refine ⟨slot, option, span, found, ?_, ?_, starts, ?_⟩
          · rw [fillSlot_taken free found', List.getElem?_set_ne differ, taken]
          · rw [fillSlot_spans free found', Entries.get?_insert, if_neg names, known]
          · rwa [fillSlot_lastSlot]

theorem Placed.closeLastSlot (placed : Placed ctx start s) (stop : Nat) (post : List Char) :
    Placed ctx start (s.closeLastSlot ctx stop post) := by
  refine closeLastSlot_cases (fun _ => placed) fun last value opened => ?_
  obtain ⟨slot, option, span, found, taken, known, starts, waits⟩ := placed
  obtain ⟨name, spanStart⟩ := waits last opened
  refine ⟨slot, option, ⟨last.spanStart, stop⟩, found, taken, ?_, spanStart, by simp [setValue]⟩
  simp only [setValue]
  rw [Entries.get?_insert, if_pos name]

/-! ## What becomes of held text -/

/-- Why text is still held: a visible character follows it, a long text is open, or there is no
slot for it. -/
def MayHold (next : Option Char) (s : State) : Prop :=
  isVisible next = true ∨ s.longText ≠ none ∨ s.freeSlot? = none

/-- What becomes of `held`: nothing is held, and it is the front of a value if a slot is free; or
it is held on for some reason, and nothing else is open. -/
inductive TreatsHeld (ctx : Context) (held : Option Held) (reason : State → Prop) (s : State) :
    Prop
  | given : s.held = none →
      (∀ front, held = some front → s.freeSlot? ≠ none →
        (ctx.table.slots.map (·.name)).Nodup → Placed ctx front.start.offset s) →
      TreatsHeld ctx held reason s
  | waiting (later : Held) : s.held = some later → s.named = none → s.lastSlot = none →
      (∀ front, held = some front → front.Continues later) → reason s →
      TreatsHeld ctx held reason s

namespace TreatsHeld

variable {held : Option Held} {reason reason' : State → Prop}

theorem mono (treats : TreatsHeld ctx held reason s) (weaker : reason s → reason' s) :
    TreatsHeld ctx held reason' s := by
  cases treats with
  | given noHeld placed => exact .given noHeld placed
  | waiting later holds noNamed noLast continues why =>
      exact .waiting later holds noNamed noLast continues (weaker why)

theorem of_none (noHeld : held = none) (noHeld' : s.held = none) :
    TreatsHeld ctx held reason s :=
  .given noHeld' (by simp [noHeld])

theorem same (alone : HoldsAlone s) (held : s'.held = s.held) (named : s'.named = s.named)
    (lastSlot : s'.lastSlot = s.lastSlot) (why : s.held ≠ none → reason s') :
    TreatsHeld ctx s.held reason s' := by
  cases holds : s.held with
  | none => exact .of_none rfl (held.trans holds)
  | some front =>
      have some : s.held ≠ none := by simp [holds]
      refine .waiting front (held.trans holds) (named.trans (alone some).1)
        (lastSlot.trans (alone some).2) ?_ (why some)
      rintro _ ⟨⟩
      exact .refl front

theorem of_continues {later : Held}
    (continues : ∀ front, held = some front → front.Continues later)
    (treats : TreatsHeld ctx (some later) reason s) : TreatsHeld ctx held reason s := by
  cases treats with
  | given noHeld placed =>
      refine .given noHeld fun front known free distinct => ?_
      rw [← (continues front known).1]
      exact placed later rfl free distinct
  | waiting last holds noNamed noLast continues' why =>
      exact .waiting last holds noNamed noLast
        (fun front known => (continues front known).trans (continues' later rfl)) why

theorem alone (treats : TreatsHeld ctx held reason s) : HoldsAlone s := by
  cases treats with
  | given noHeld _ => exact fun holds => absurd noHeld holds
  | waiting later holds noNamed noLast _ _ => exact fun _ => ⟨noNamed, noLast⟩

end TreatsHeld

section

variable (slots : s.taken.length = ctx.table.slots.length) (alone : HoldsAlone s)
include slots alone

theorem fillSlot_treatsHeld (next : Option Char) (value : String) (start : Cursor) (stop : Nat)
    (long : Bool) :
    TreatsHeld ctx s.held (MayHold next) (s.fillSlot ctx value start stop long) := by
  cases free : s.freeSlot? with
  | none =>
      rw [fillSlot_of_noFreeSlot free]
      exact .same alone rfl rfl rfl fun _ => .inr (.inr free)
  | some slot =>
      obtain ⟨option, found⟩ := exists_option_of_freeSlot slots free
      refine .given (fillSlot_held_none free found ..) fun front holds _ _ => ?_
      have placed := fillSlot_placed free found (alone (by simp [holds])).2 value start stop long
      rwa [holds] at placed

/-- Text held in front of a long text takes a slot of its own. -/
theorem place_treatsHeld (next : Option Char) (value : String) (start : Cursor) (stop : Nat)
    (long : Bool) : TreatsHeld ctx s.held (MayHold next) (s.place ctx value start stop long) := by
  refine place_cases ?named ?apart ?slot
  case named =>
    intro named found
    have noHeld := alone.noHeld (.inl (by simp [(openSingle?_eq_some.1 found).1]))
    refine .of_none noHeld ?_
    rw [fillNamed, markFilled_frame]
    exact noHeld
  case apart =>
    intro front _ _ holds
    -- The held text is placed as a long text too, so that no last slot is left open.
    let empty : State := { s with held := none }
    refine .given (fillSlot_held (fillSlot_held rfl ..) ..) fun front' same free distinct => ?_
    obtain rfl : front = front' := Option.some.inj (holds.symm.trans same)
    have noLast : empty.lastSlot = none := (alone (by simp [holds])).2
    cases free' : empty.freeSlot? with
    | none =>
        rw [fillSlot_of_noFreeSlot (s := empty) free', fillSlot_of_noFreeSlot free'] at free
        exact absurd free' free
    | some slot =>
        obtain ⟨option, found⟩ := @exists_option_of_freeSlot ctx empty slots slot free'
        exact (fillSlot_placed free' found noLast ..).fillSlot distinct _ _ _
  case slot => exact fun _ _ => fillSlot_treatsHeld slots alone ..

theorem placeText_treatsHeld (noLast : s.lastSlot = none) (text : String) (start : Cursor)
    (stop : Nat) (next : Option Char) (justClosed : Bool) :
    TreatsHeld ctx s.held (MayHold next) (s.placeText ctx text start stop next justClosed) := by
  refine placeText_cases ?passed ?glued ?held ?placed
  case passed =>
    intro opened
    have noHeld := alone.noHeld (.inl opened)
    exact .of_none noHeld noHeld
  case glued => exact fun _ _ _ noHeld _ _ => .of_none noHeld noHeld
  case held =>
    intro noNamed visible _
    refine hold_cases (fun front holds => ?_) fun noHeld => ?_
    · refine .waiting _ rfl noNamed noLast ?_ (.inl visible)
      rintro _ same
      obtain rfl := Option.some.inj (holds.symm.trans same)
      exact ⟨rfl, text, rfl⟩
    · exact .waiting _ rfl noNamed noLast (by simp [noHeld]) (.inl visible)
  case placed => exact fun _ _ _ => place_treatsHeld slots alone ..

omit slots alone in
theorem TreatsHeld.of_busy {held : Option Held} {reason : State → Prop}
    (treats : TreatsHeld ctx held reason s) (busy : s.named ≠ none ∨ s.lastSlot ≠ none) :
    TreatsHeld ctx held (fun _ => False) s := by
  cases treats with
  | given noHeld placed => exact .given noHeld placed
  | waiting later holds noNamed noLast _ _ => simp [noNamed, noLast] at busy

omit slots alone in
theorem TreatsHeld.flushHeld {held : Option Held} {reason : State → Prop}
    (treats : TreatsHeld ctx held reason s) (slots : s.taken.length = ctx.table.slots.length)
    (stop : Nat) : TreatsHeld ctx held (fun _ => False) (s.flushHeld ctx stop) := by
  cases treats with
  | given noHeld placed =>
      have same : s.flushHeld ctx stop = s := by rw [State.flushHeld, noHeld]
      rw [same]
      exact .given noHeld placed
  | waiting later holds noNamed noLast continues _ =>
      let empty : State := { s with held := none }
      have same : s.flushHeld ctx stop = empty.fillSlot ctx later.text later.start stop false := by
        simp [State.flushHeld, holds, noNamed, place, openSingle?, empty]
      rw [same]
      refine .given (fillSlot_held rfl ..) fun front known free distinct => ?_
      rw [← (continues front known).1]
      cases free' : empty.freeSlot? with
      | none =>
          rw [fillSlot_of_noFreeSlot free'] at free
          exact absurd free' free
      | some slot =>
          obtain ⟨option, found⟩ := @exists_option_of_freeSlot ctx empty slots slot free'
          exact fillSlot_placed free' found noLast ..

/-- In front of a marker held text is the front of a value, which is closed there. -/
theorem openNamed_treatsHeld (reason : State → Prop) (t : Token) (escapes : Nat) (family : Family)
    (option : OptionDecl) (justClosed : Bool) :
    TreatsHeld ctx s.held reason (s.openNamed ctx t escapes family option justClosed) := by
  refine openNamed_cases
    (fun r => OpensNothing s r ∧ TreatsHeld ctx s.held (fun _ => True) r)
    (fun r => OpensNothing s r ∧ TreatsHeld ctx s.held (fun _ => False) r)
    ⟨.refl s, .same alone rfl rfl rfl fun _ => trivial⟩ ?placed ?busy ?flushed ?opened
  case placed =>
    exact fun text noLast => ⟨(puts_placeText ..).opensNothing,
      (placeText_treatsHeld slots alone noLast ..).mono fun _ => trivial⟩
  case busy => exact fun r first busy => ⟨first.1, first.2.of_busy busy⟩
  case flushed =>
    exact fun r first _ _ => ⟨first.1.trans (puts_flushHeld ..).opensNothing,
      first.2.flushHeld (first.1.slots.trans slots) _⟩
  case opened =>
    rintro flushed stop post ⟨opens, treats⟩ -
    cases treats with
    | waiting _ _ _ _ _ never => exact never.elim
    | given noHeld front =>
        refine .given ?_ fun held holds free distinct => ?_
        · rw [closeLastSlot_frame, closeNamed_frame]
          exact noHeld
        · have noNamed := opens.noNamed (alone (by simp [holds])).1
          have same : flushed.closeNamed ctx stop = flushed := by rw [closeNamed, noNamed]
          rw [same] at free ⊢
          have free' : flushed.freeSlot? ≠ none := by rwa [closeLastSlot_frame] at free
          exact (front held holds free' distinct).closeLastSlot t.start.offset post

/-! ## Tokens -/

theorem closeLongText_treatsHeld (next : Option Char) {long : LongText}
    (opened : s.longText = some long) (stop : Nat) :
    TreatsHeld ctx s.held (MayHold next) (s.closeLongText ctx stop) := by
  simp only [closeLongText, opened]
  exact @place_treatsHeld ctx { s with longText := none, justClosed := true } slots alone ..

omit slots alone in
/-- The value of a long text takes text along that is still held, and leaves a value that was
given. -/
theorem TreatsHeld.closeLongText {held : Option Held} {reason : State → Prop}
    (treats : TreatsHeld ctx held reason s) (slots : s.taken.length = ctx.table.slots.length)
    (noNamed : held ≠ none → s.named = none) (next : Option Char) {long : LongText}
    (opened : s.longText = some long) (stop : Nat) :
    TreatsHeld ctx held (MayHold next) (s.closeLongText ctx stop) := by
  cases treats with
  | given noHeld placed =>
      simp only [State.closeLongText, opened]
      let closed : State := { s with longText := none, justClosed := true }
      have noHeld' : closed.held = none := noHeld
      change TreatsHeld ctx held _ (closed.place ctx _ long.body stop true)
      refine .given (place_held noHeld' ..) fun front known free distinct => ?_
      have filled (value : String) : closed.place ctx value long.body stop true =
          closed.fillSlot ctx value long.body stop true := by
        have noSingle : closed.openSingle? ctx = none := by
          simp [openSingle?, closed, noNamed (by simp [known])]
        simp [place, noSingle, noHeld']
      rw [filled] at free ⊢
      -- A long text that finds no slot changes nothing, so a slot was free before.
      have free' : s.freeSlot? ≠ none := by
        intro full
        rw [fillSlot_of_noFreeSlot (s := closed) full] at free
        exact free full
      exact Placed.fillSlot (s := closed) (placed front known free' distinct) distinct ..
  | waiting later holds noNamed' noLast continues _ =>
      have takes := closeLongText_treatsHeld slots (fun _ => ⟨noNamed', noLast⟩) next opened stop
      rw [holds] at takes
      exact takes.of_continues continues

theorem placeLanguage_treatsHeld (language : List Char) (hasLanguage : Bool) (start : Cursor)
    (stop : Nat) :
    TreatsHeld ctx s.held (fun _ => True)
      (s.placeLanguage ctx language hasLanguage start stop) := by
  refine placeLanguage_cases ?passed ?placed ?taken
  case passed => exact .same alone rfl rfl rfl fun _ => trivial
  case placed => exact fun _ _ => (place_treatsHeld slots alone none ..).mono fun _ => trivial
  case taken =>
    intro slot _
    refine .same alone ?_ ?_ ?_ fun _ => trivial <;> rw [take_frame]

theorem closeCodeBlock_treatsHeld (next : Option Char) (long : LongText) (closing : Cursor) :
    TreatsHeld ctx s.held (MayHold next) (s.closeCodeBlock ctx long closing) := by
  rw [closeCodeBlock_eq]
  unfold openCode
  extract_lets block lines placed
  have opens : OpensNothing s placed := (writes_placeLanguage ..).opensNothing
  have noNamed (holds : s.held ≠ none) : placed.named = none := opens.noNamed (alone holds).1
  have noted : TreatsHeld ctx s.held (fun _ => True)
      ({ placed with longText := some { long with body := Block.behindFeed lines } } : State) := by
    cases placeLanguage_treatsHeld slots alone (Block.language block) (Block.hasLanguage block)
        long.body lines.offset with
    | given noHeld placed => exact .given noHeld placed
    | waiting later holds noNamed noLast continues why =>
        exact .waiting later holds noNamed noLast continues why
  exact noted.closeLongText (opens.slots.trans slots) noNamed next rfl _

theorem onQuote_treatsHeld (t : Token) (quote : Quote) :
    TreatsHeld ctx s.held (MayHold t.stop.after) (s.onQuote ctx t quote) := by
  refine onQuote_cases ?noted ?passed ?closed ?block
  case noted => exact fun long _ => .same alone rfl rfl rfl fun _ => .inr (.inl (by simp))
  case passed => exact fun long => .same alone rfl rfl rfl fun _ => .inr (.inl long)
  case closed => exact fun long stop opened _ => closeLongText_treatsHeld slots alone _ opened stop
  case block => exact fun _ _ _ _ _ _ _ => closeCodeBlock_treatsHeld slots alone ..

theorem onDelimiter_treatsHeld (noLast : s.lastSlot = none) (t : Token) (c : Char)
    (justClosed : Bool) :
    TreatsHeld ctx s.held (MayHold t.stop.after) (s.onDelimiter ctx t c justClosed) := by
  let cleared : State := { s with escape := none }
  refine onDelimiter_cases ?passed ?escaped ?text ?value ?quoted
  case passed => exact fun long => .same alone rfl rfl rfl fun _ => .inr (.inl long)
  case escaped => exact fun _ _ _ => @placeText_treatsHeld ctx cleared slots alone noLast ..
  case text => exact fun _ _ => @placeText_treatsHeld ctx cleared slots alone noLast ..
  case value => exact fun _ _ => @place_treatsHeld ctx cleared slots alone ..
  case quoted => exact fun quote _ => @onQuote_treatsHeld ctx cleared slots alone t quote

theorem onMarker_treatsHeld (t : Token) (escapes : Nat) (opening : Opening) (name : String)
    (justClosed : Bool) :
    TreatsHeld ctx s.held (MayHold t.stop.after)
      (s.onMarker ctx t escapes opening name justClosed) := by
  refine onMarker_cases ?passed ?placed ?opened
  case passed =>
    intro family _ opened
    have noHeld := alone.noHeld (.inr opened)
    exact .of_none noHeld noHeld
  case placed =>
    intro family text _ noLast
    exact @placeText_treatsHeld ctx { s with family := family } slots alone noLast ..
  case opened =>
    intro family option _ _ _ _
    exact @openNamed_treatsHeld ctx { s with family := family } slots alone ..

theorem onWord_treatsHeld (t : Token) (justClosed : Bool) :
    TreatsHeld ctx s.held (MayHold t.stop.after) (s.onWord ctx t justClosed) := by
  refine onWord_cases ?glued ?placed
  case glued => exact fun _ _ noHeld _ => .of_none noHeld noHeld
  case placed => exact place_treatsHeld slots alone ..

end

/-! ## Tokens that leave held text -/

/-- The token leaves held text where it is, with everything that is open. -/
structure PassesOver (t : Token) (s s' : State) : Prop where
  leavesHeld : t.leavesHeld = true
  held : s'.held = s.held
  named : s'.named = s.named
  lastSlot : s'.lastSlot = s.lastSlot
  longText : s'.longText = s.longText
  taken : s'.taken = s.taken

section

variable (slots : s.taken.length = ctx.table.slots.length) (alone : HoldsAlone s)
include slots alone

/-- A run of backslashes is text, but for a single one that escapes what is behind it. -/
theorem onBackslashes_treatsHeld (noLast : s.lastSlot = none) {t : Token} {count : Nat}
    (kind : t.kind = .backslashes count) (positive : 0 < count) (justClosed : Bool) :
    TreatsHeld ctx s.held (MayHold t.stop.after) (s.onBackslashes ctx t count justClosed) ∨
      PassesOver t s (s.onBackslashes ctx t count justClosed) := by
  refine onBackslashes_cases ?passed ?placed
  case passed =>
    intro escape _ lone
    by_cases long : s.longText = none
    · rcases lone long with none | ⟨rfl, next, -⟩
      · exact absurd none positive.ne'
      · cases after : t.stop.after with
        | none => exact .inr ⟨by simp [Token.leavesHeld, Token.isLoneEscape, kind, after], rfl, rfl,
            rfl, rfl, rfl⟩
        | some c =>
            rw [after] at next
            rcases isDelimiterChar_of_escapesNext next with blank | isDelimiter
            · exact .inr ⟨by simp [Token.leavesHeld, Token.isLoneEscape, kind, after, blank], rfl,
                rfl, rfl, rfl, rfl⟩
            · refine .inl (.same alone rfl rfl rfl fun _ => .inl ?_)
              simp [isVisible, isGap_of_isDelimiterChar isDelimiter]
    · exact .inl (.same alone rfl rfl rfl fun _ => .inr (.inl long))
  case placed =>
    intro escape text _ _
    exact .inl (@placeText_treatsHeld ctx { s with escape := escape } slots alone noLast ..)

theorem onOther_treatsHeld {t : Token}
    (noMarker : s.longText = none → ∀ escapes opening name, t.kind ≠ .marker escapes opening name)
    (positive : ∀ count, t.kind = .backslashes count → 0 < count) (justClosed : Bool) :
    TreatsHeld ctx s.held (MayHold t.stop.after) (s.onOther ctx t justClosed) ∨
      PassesOver t s (s.onOther ctx t justClosed) := by
  refine onOther_cases ?line ?passed ?backslashes ?delimiter ?word
  case line =>
    intro named found
    have noHeld := alone.noHeld (.inl (by simp [(openSingle?_eq_some.1 found).1]))
    refine .inl (.of_none noHeld ?_)
    rw [closeNamed_frame]
    exact noHeld
  case passed =>
    rintro (last | named | long | lineFeeds | ⟨escapes, opening, name, marker⟩)
    · have noHeld := alone.noHeld (.inr last)
      exact .inl (.of_none noHeld noHeld)
    · have noHeld := alone.noHeld (.inl named)
      exact .inl (.of_none noHeld noHeld)
    · exact .inl (.same alone rfl rfl rfl fun _ => .inr (.inl long))
    · exact .inr ⟨by simp [Token.leavesHeld, lineFeeds], rfl, rfl, rfl, rfl, rfl⟩
    · refine .inl (.same alone rfl rfl rfl fun _ => .inr (.inl fun noLong => ?_))
      exact noMarker noLong _ _ _ marker
  case backslashes =>
    intro count kind takes
    exact onBackslashes_treatsHeld slots alone takes.noLast kind (positive count kind) justClosed
  case delimiter =>
    intro c _ takes
    exact .inl (onDelimiter_treatsHeld slots alone takes.noLast t c justClosed)
  case word => exact fun _ _ _ => .inl (onWord_treatsHeld slots alone t justClosed)

/-- Every token takes held text along, keeps it for a reason, or leaves all as it is. -/
theorem step_treatsHeld {t : Token} (positive : ∀ count, t.kind = .backslashes count → 0 < count) :
    TreatsHeld ctx s.held (MayHold t.stop.after) (s.step ctx t) ∨
      PassesOver t s (s.step ctx t) := by
  let quiet : State := { s with justClosed := false }
  refine step_cases ?marker ?other
  case marker => exact fun _ _ _ _ _ => .inl (@onMarker_treatsHeld ctx quiet slots alone ..)
  case other =>
    intro noMarker
    have takes := @onOther_treatsHeld ctx quiet slots alone t noMarker positive s.justClosed
    exact takes.imp_right fun passes => ⟨passes.leavesHeld, passes.held, passes.named,
      passes.lastSlot, passes.longText, passes.taken⟩

end

end State

end ChatArgs.Parse
