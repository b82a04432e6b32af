import ChatArgs.Proofs.Parse.BlockLines
import ChatArgs.Proofs.Parse.Keys
import ChatArgs.Proofs.Parse.Placing
import ChatArgs.Proofs.Parse.SpanOrder
import ChatArgs.Proofs.Parse.Sweep

/-!
# Spans that do not overlap

No text is given to two options that take all text up to the next marker. `Reads` holds between
two tokens: spans are in order, and whatever is open or held starts behind all of them.

An option that takes one value is left out: a word that stands directly behind its marker is
glued to the value in front of it too, and a quote that is still open when the text ends is both
in the value of the option and a value of its own.
-/

namespace ChatArgs

namespace Parse

open Text

namespace State

variable {ctx : Context} {p : String → Prop} {mark bound : Nat} {s : State}

/-- Where the next text goes: to slots, to the option behind a marker, or to the last slot. -/
inductive Phase (ctx : Context) (p : String → Prop) (bound : Nat) (s : State) : Prop
  | slots : s.named = none → s.lastSlot = none → Phase ctx p bound s
  | single {named : Named} : s.named = some named →
      named.option.takesOneValue ctx.config.singleValue = true → ¬ p named.option.name →
      s.lastSlot = none → s.held = none → Phase ctx p bound s
  | whole {named : Named} : s.named = some named →
      named.option.takesOneValue ctx.config.singleValue = false →
      Ordered p named.nameStart s → named.nameStart ≤ named.start.offset →
      named.start.offset ≤ bound → s.lastSlot = none → s.held = none → s.longText = none →
      Phase ctx p bound s
  | last {slot : LastSlot} {stop : Nat} : s.lastSlot = some slot →
      s.lastFilled = some slot.name → s.spans.get? slot.name = some ⟨slot.spanStart, stop⟩ →
      s.named = none → s.held = none → s.longText = none → Phase ctx p bound s

/-- Spans are in order up to `bound`, and what is open or held starts behind them. The last
escape ends at `mark` or in front of it. -/
structure Reads (ctx : Context) (p : String → Prop) (mark bound : Nat) (s : State) : Prop where
  here : Ordered p bound s
  held : ∀ held ∈ s.held, Ordered p held.start.offset s
  long : ∀ long ∈ s.longText, Ordered p long.body.offset s ∧ long.body.offset ≤ bound ∧
    ∀ run ∈ long.closing, long.body.offset < run.first.offset ∧ run.first.offset ≤ bound
  escape : ∀ escape ∈ s.escape, escape.2 ≤ mark
  phase : Phase ctx p bound s

/-- Text that starts at a place may become a value: all spans end in front of it, or it is
joined with text further to the left. -/
inductive Fits (p : String → Prop) (start : Cursor) (justClosed : Bool) (s : State) : Prop
  | behind : Ordered p start.offset s → Fits p start justClosed s
  | held : s.held ≠ none → Fits p start justClosed s
  | glued : justClosed = false → isVisible start.before = true → s.lastFilled ≠ none →
      Fits p start justClosed s

theorem Phase.of_takesText {s' : State} {bound' : Nat} (phase : Phase ctx p bound s)
    (takes : TakesText ctx s) (named : s'.named = s.named) (lastSlot : s'.lastSlot = s.lastSlot)
    (held : s'.held = s.held) : Phase ctx p bound' s' := by
  cases phase with
  | slots noNamed noLast => exact .slots (named.trans noNamed) (lastSlot.trans noLast)
  | single opened single outside noLast noHeld =>
      exact .single (named.trans opened) single outside (lastSlot.trans noLast)
        (held.trans noHeld)
  | whole opened whole _ _ _ _ _ _ => simp [takes.single _ opened] at whole
  | last opened _ _ _ _ _ => simp [takes.noLast] at opened

theorem Fits.congr {s' : State} {start : Cursor} {justClosed : Bool}
    (fits : Fits p start justClosed s) (spans : s'.spans = s.spans)
    (last : s'.lastFilled = s.lastFilled) (held : s'.held = s.held) :
    Fits p start justClosed s' := by
  cases fits with
  | behind ordered => exact .behind (ordered.congr (fun _ => by rw [spans]) last)
  | held filled => exact .held (by rwa [held])
  | glued apart visible filled => exact .glued apart visible (by rwa [last])

/-- Text that is not glued is held, or all spans end in front of it. -/
theorem Fits.ordered {start : Cursor} {justClosed : Bool} (fits : Fits p start justClosed s)
    (apart : s.held = none → justClosed = false → isVisible start.before = true →
      s.lastFilled = none) (noHeld : s.held = none) : Ordered p start.offset s := by
  cases fits with
  | behind ordered => exact ordered
  | held some => exact absurd noHeld some
  | glued open' visible filled => exact absurd (apart noHeld open' visible) filled

/-- Only options outside of `p` take one value when they are named. -/
def SingleOutside (ctx : Context) (p : String → Prop) : Prop :=
  ∀ (key : String) (option : OptionDecl), ctx.table.option? key = some option →
    option.takesOneValue ctx.config.singleValue = true → ¬ p option.name

namespace Reads

theorem initial (ctx : Context) (p : String → Prop) :
    Reads ctx p 0 0 (State.initial ctx) where
  here := Ordered.initial p 0 ctx
  held := by simp [State.initial]
  long := by simp [State.initial]
  escape := by simp [State.initial]
  phase := .slots rfl rfl

theorem mono {mark' bound' : Nat} (reads : Reads ctx p mark bound s) (marks : mark ≤ mark')
    (bounds : bound ≤ bound') : Reads ctx p mark' bound' s where
  here := reads.here.mono bounds
  held := reads.held
  long := by
    intro long opened
    obtain ⟨ordered, inside, closing⟩ := reads.long long opened
    exact ⟨ordered, inside.trans bounds,
      fun run member => (closing run member).imp_right (·.trans bounds)⟩
  escape := fun escape member => (reads.escape escape member).trans marks
  phase := by
    cases reads.phase with
    | slots named lastSlot => exact .slots named lastSlot
    | single named single outside lastSlot held => exact .single named single outside lastSlot held
    | whole named whole ordered marker inside lastSlot held long =>
        exact .whole named whole ordered marker (inside.trans bounds) lastSlot held long
    | last lastSlot filled spanned named held long =>
        exact .last lastSlot filled spanned named held long

theorem congr {s' : State} {mark' : Nat} (reads : Reads ctx p mark bound s)
    (spans : s'.spans = s.spans) (last : s'.lastFilled = s.lastFilled) (held : s'.held = s.held)
    (long : s'.longText = s.longText) (escape : ∀ escape ∈ s'.escape, escape.2 ≤ mark')
    (named : s'.named = s.named) (lastSlot : s'.lastSlot = s.lastSlot) :
    Reads ctx p mark' bound s' := by
  have ordered {bound : Nat} (old : Ordered p bound s) : Ordered p bound s' :=
    old.congr (fun _ => by rw [spans]) last
  refine ⟨ordered reads.here, ?_, ?_, escape, ?_⟩
  · rw [held]
    exact fun text member => ordered (reads.held text member)
  · rw [long]
    intro text member
    obtain ⟨old, inside, closing⟩ := reads.long text member
    exact ⟨ordered old, inside, closing⟩
  · cases reads.phase with
    | slots named' lastSlot' => exact .slots (named.trans named') (lastSlot.trans lastSlot')
    | single named' single outside lastSlot' held' =>
        exact .single (named.trans named') single outside (lastSlot.trans lastSlot')
          (held.trans held')
    | whole named' whole old marker inside lastSlot' held' long' =>
        exact .whole (named.trans named') whole (ordered old) marker inside
          (lastSlot.trans lastSlot') (held.trans held') (long.trans long')
    | last lastSlot' filled spanned named' held' long' =>
        exact .last (lastSlot.trans lastSlot') (last.trans filled) (by rw [spans, spanned])
          (named.trans named') (held.trans held') (long.trans long')

theorem dropHeld (reads : Reads ctx p mark bound s) :
    Reads ctx p mark bound { s with held := none } := by
  have ordered {bound : Nat} (old : Ordered p bound s) : Ordered p bound { s with held := none } :=
    old.congr (fun _ => rfl) rfl
  refine ⟨ordered reads.here, by simp, ?_, reads.escape, ?_⟩
  · intro long opened
    obtain ⟨old, inside, closing⟩ := reads.long long opened
    exact ⟨ordered old, inside, closing⟩
  · cases reads.phase with
    | slots noNamed noLast => exact .slots noNamed noLast
    | single opened single outside noLast _ => exact .single opened single outside noLast rfl
    | whole opened whole old marker inside noLast _ noLong =>
        exact .whole opened whole (ordered old) marker inside noLast rfl noLong
    | last opened filled spanned noNamed _ noLong =>
        exact .last opened filled spanned noNamed rfl noLong

/-! ## Options behind markers -/

theorem fillOther {s' : State} {name : String} {span : Span} (reads : Reads ctx p mark bound s)
    (outside : ¬ p name) (spans : s'.spans = s.spans.insert name span)
    (last : s'.lastFilled = some name) (held : s'.held = s.held)
    (long : s'.longText = s.longText) (escape : s'.escape = s.escape) (named : s'.named = none)
    (lastSlot : s'.lastSlot = none) : Reads ctx p mark bound s' := by
  have ordered {bound : Nat} (old : Ordered p bound s) : Ordered p bound s' :=
    old.fillOther outside spans last
  refine ⟨ordered reads.here, ?_, ?_, ?_, .slots named lastSlot⟩
  · rw [held]
    exact fun text member => ordered (reads.held text member)
  · rw [long]
    intro text member
    obtain ⟨old, inside, closing⟩ := reads.long text member
    exact ⟨ordered old, inside, closing⟩
  · rw [escape]
    exact reads.escape

/-- What an open option that takes one value leaves open besides. -/
theorem phase_of_single {named : Named} (reads : Reads ctx p mark bound s)
    (opened : s.named = some named)
    (single : named.option.takesOneValue ctx.config.singleValue = true) :
    ¬ p named.option.name ∧ s.lastSlot = none ∧ s.held = none := by
  cases reads.phase with
  | slots noNamed _ => simp [noNamed] at opened
  | single opened' _ outside noLast noHeld =>
      obtain rfl := Option.some.inj (opened.symm.trans opened')
      exact ⟨outside, noLast, noHeld⟩
  | whole opened' whole _ _ _ _ _ _ =>
      obtain rfl := Option.some.inj (opened.symm.trans opened')
      simp [whole] at single
  | last _ _ _ noNamed _ _ => simp [noNamed] at opened

theorem fillNamed {named : Named} (reads : Reads ctx p mark bound s)
    (opened : s.named = some named)
    (single : named.option.takesOneValue ctx.config.singleValue = true) (value : String)
    (start stop : Nat) : Reads ctx p mark bound (s.fillNamed ctx named value start stop) := by
  obtain ⟨outside, noLast, -⟩ := reads.phase_of_single opened single
  rw [State.fillNamed, markFilled_frame]
  exact reads.fillOther outside rfl rfl rfl rfl rfl rfl noLast

/-- An option that takes one value may be closed anywhere. -/
theorem closeSingle {named : Named} (reads : Reads ctx p mark bound s)
    (opened : s.named = some named)
    (single : named.option.takesOneValue ctx.config.singleValue = true) (stop : Nat) :
    Reads ctx p mark bound (s.closeNamed ctx stop) := by
  refine closeNamed_cases (fun _ => reads) fun named' value start stop' opened' _ => ?_
  obtain rfl := Option.some.inj (opened.symm.trans opened')
  exact reads.fillNamed opened single value start stop'

theorem closeNamed {stop : Nat} (reads : Reads ctx p mark bound s) (inside : stop ≤ bound) :
    Reads ctx p mark bound (s.closeNamed ctx stop) := by
  refine closeNamed_cases (fun _ => reads) fun named value start stop' opened ends => ?_
  cases reads.phase with
  | slots noNamed _ => simp [noNamed] at opened
  | single opened' single _ _ _ =>
      obtain rfl := Option.some.inj (opened.symm.trans opened')
      exact reads.fillNamed opened single value start stop'
  | whole opened' _ ordered marker reached noLast noHeld noLong =>
      obtain rfl := Option.some.inj (opened.symm.trans opened')
      have span : Ordered p start s ∧ stop' ≤ bound := by
        rcases ends with ⟨rfl, rfl⟩ | ⟨rfl, rfl⟩
        · exact ⟨ordered.mono marker, inside⟩
        · exact ⟨ordered, reached⟩
      rw [State.fillNamed, markFilled_frame]
      exact ⟨reads.here.fill span.1 rfl rfl span.2, by simp [setValue, noHeld],
        by simp [setValue, noLong], reads.escape, .slots rfl noLast⟩
  | last _ _ _ noNamed _ _ => simp [noNamed] at opened

theorem closeLastSlot {stop : Nat} (reads : Reads ctx p mark bound s) (inside : stop ≤ bound)
    (post : List Char) : Reads ctx p mark bound (s.closeLastSlot ctx stop post) := by
  refine closeLastSlot_cases (fun _ => reads) fun slot value opened => ?_
  cases reads.phase with
  | slots _ noLast => simp [noLast] at opened
  | single _ _ _ noLast _ => simp [noLast] at opened
  | whole _ _ _ _ _ noLast _ _ => simp [noLast] at opened
  | last opened' filled spanned noNamed noHeld noLong =>
      obtain rfl := Option.some.inj (opened.symm.trans opened')
      exact ⟨reads.here.extend filled spanned (fun _ => Entries.get?_insert ..) filled inside,
        by simp [setValue, noHeld], by simp [setValue, noLong], reads.escape,
        .slots noNamed rfl⟩

/-! ## Slots -/

theorem fillSlot (reads : Reads ctx p mark bound s) (noNamed : s.named = none)
    (noLast : s.lastSlot = none) (noLong : s.longText = none) (value : String) {start : Cursor}
    {stop : Nat} (behind : s.held = none → Ordered p start.offset s) (inside : stop ≤ bound)
    (long : Bool) : Reads ctx p mark bound (s.fillSlot ctx value start stop long) := by
  refine fillSlot_cases reads fun slot option value spanStart lastSlot _ _ from' last => ?_
  have start' : Ordered p spanStart s := by
    cases from' with
    | alone noHeld => exact behind noHeld
    | held filled => exact reads.held _ filled
  rw [take_frame]
  refine ⟨reads.here.fill start' rfl rfl inside, by simp [setValue],
    by simp [setValue, noLong], reads.escape, ?_⟩
  cases last with
  | same => exact .slots noNamed noLast
  | opens =>
      have spanned := Entries.get?_insert s.spans option.name option.name
      exact .last rfl rfl ((spanned _).trans (if_pos rfl)) noNamed rfl noLong

theorem takesText_of_longText {long : LongText} (reads : Reads ctx p mark bound s)
    (opened : s.longText = some long) : TakesText ctx s := by
  cases reads.phase with
  | slots noNamed noLast => exact ⟨noLast, by simp [noNamed]⟩
  | single opened' single _ noLast _ =>
      refine ⟨noLast, fun named member => ?_⟩
      obtain rfl := Option.some.inj (opened'.symm.trans member)
      exact single
  | whole _ _ _ _ _ _ _ noLong => simp [noLong] at opened
  | last _ _ _ _ _ noLong => simp [noLong] at opened

theorem place (reads : Reads ctx p mark bound s) (takes : TakesText ctx s)
    (noLong : s.longText = none) (value : String) {start : Cursor} {stop : Nat}
    (behind : s.held = none → Ordered p start.offset s) (inside : stop ≤ bound) :
    Reads ctx p mark bound (s.place ctx value start stop false) := by
  refine place_cases ?named ?apart ?slot
  case named =>
    intro named found
    obtain ⟨opened, single⟩ := openSingle?_eq_some.1 found
    exact reads.fillNamed opened single _ _ _
  case apart => simp
  case slot =>
    exact fun noSingle _ => reads.fillSlot (takes.noNamed noSingle) takes.noLast noLong value behind
      inside false

theorem placeLong {start : Cursor} {stop : Nat} (reads : Reads ctx p mark start.offset s)
    (takes : TakesText ctx s) (noLong : s.longText = none) (value : String)
    (le : start.offset ≤ bound) (inside : stop ≤ bound) :
    Reads ctx p mark bound (s.place ctx value start stop true) := by
  have later := reads.mono (Nat.le_refl mark) le
  refine place_cases ?named ?apart ?slot
  case named =>
    intro named found
    obtain ⟨opened, single⟩ := openSingle?_eq_some.1 found
    exact later.fillNamed opened single _ _ _
  case apart =>
    intro held noSingle _ filled
    have noNamed := takes.noNamed noSingle
    have first : Reads ctx p mark start.offset
        (({ s with held := none } : State).fillSlot ctx held.text held.start start.offset true) :=
      reads.dropHeld.fillSlot noNamed takes.noLast noLong _
        (fun _ => (reads.held held filled).congr (fun _ => rfl) rfl) (Nat.le_refl _) true
    have named' := fillSlot_named ctx { s with held := none } held.text held.start start.offset true
    refine (first.mono (Nat.le_refl mark) le).fillSlot (named'.trans noNamed) ?_ ?_ value
      (fun _ => first.here) inside true
    · rw [fillSlot_lastSlot]
      exact takes.noLast
    · exact (puts_fillSlot ..).keeps.longText.trans noLong
  case slot =>
    exact fun noSingle _ => later.fillSlot (takes.noNamed noSingle) takes.noLast noLong value
      (fun _ => reads.here) inside true

/-! ## Text between words -/

theorem hold (reads : Reads ctx p mark bound s) (noNamed : s.named = none)
    (noLast : s.lastSlot = none) (text : String) {start : Cursor}
    (behind : s.held = none → Ordered p start.offset s) :
    Reads ctx p mark bound (s.hold text start) := by
  have holding (held : Held) (ordered : Ordered p held.start.offset s) :
      Reads ctx p mark bound { s with held := some held } := by
    refine ⟨reads.here.congr (fun _ => rfl) rfl, ?_, ?_, reads.escape, .slots noNamed noLast⟩
    · intro held' member
      obtain rfl := Option.some.inj member
      exact ordered.congr (fun _ => rfl) rfl
    · intro long opened
      obtain ⟨ordered, inside, closing⟩ := reads.long long opened
      exact ⟨ordered.congr (fun _ => rfl) rfl, inside, closing⟩
  exact hold_cases (fun held filled => holding _ (reads.held held filled))
    fun noHeld => holding _ (behind noHeld)

theorem append {last : String} {stop : Nat} (reads : Reads ctx p mark bound s)
    (takes : TakesText ctx s) (filled : s.lastFilled = some last) (noHeld : s.held = none)
    (noLong : s.longText = none) (later : bound ≤ stop) (text : String) :
    Reads ctx p mark stop (s.append last text stop) := by
  refine ⟨reads.here.append filled later text, by simp [State.append, noHeld],
    by simp [State.append, noLong], reads.escape, reads.phase.of_takesText takes rfl rfl rfl⟩

theorem placeText {start : Cursor} {stop : Nat} {justClosed : Bool}
    (reads : Reads ctx p mark bound s) (noLast : s.lastSlot = none) (noLong : s.longText = none)
    (fits : s.named = none → Fits p start justClosed s) (later : bound ≤ stop) (text : String)
    (next : Option Char) :
    Reads ctx p mark stop (s.placeText ctx text start stop next justClosed) := by
  have moved := reads.mono (Nat.le_refl mark) later
  have takes (noNamed : s.named = none) : TakesText ctx s := ⟨noLast, by simp [noNamed]⟩
  refine placeText_cases ?passed ?glued ?held ?placed
  case passed => exact fun _ => moved
  case glued =>
    intro last filled noNamed noHeld _ _
    exact reads.append (takes noNamed) filled noHeld noLong later text
  case held =>
    intro noNamed _ apart
    exact moved.hold noNamed noLast text ((fits noNamed).ordered apart)
  case placed =>
    intro noNamed _ apart
    exact moved.place (takes noNamed) noLong text ((fits noNamed).ordered apart)
      (Nat.le_refl stop)

theorem flushHeld {stop : Nat} (reads : Reads ctx p mark bound s) (takes : TakesText ctx s)
    (noLong : s.longText = none) (inside : stop ≤ bound) :
    Reads ctx p mark bound (s.flushHeld ctx stop) :=
  flushHeld_cases (fun _ => reads) fun held filled =>
    reads.dropHeld.place ⟨takes.noLast, takes.single⟩ noLong _
      (fun _ => (reads.held held filled).congr (fun _ => rfl) rfl) inside

/-! ## Markers -/

/-- An option opens: nothing else is open then, and it starts behind all spans. -/
theorem openOption (named : Named) (reads : Reads ctx p mark named.nameStart s)
    (noLast : s.lastSlot = none) (noHeld : s.held = none) (noLong : s.longText = none)
    (outside : named.option.takesOneValue ctx.config.singleValue = true → ¬ p named.option.name)
    (ahead : named.nameStart ≤ named.start.offset) :
    Reads ctx p mark named.start.offset { s with named := some named } := by
  have here : Ordered p named.nameStart { s with named := some named } :=
    reads.here.congr (fun _ => rfl) rfl
  refine ⟨here.mono ahead, by simp [noHeld], by simp [noLong], reads.escape, ?_⟩
  cases single : named.option.takesOneValue ctx.config.singleValue with
  | true => exact .single rfl single (outside single) noLast noHeld
  | false => exact .whole rfl single here ahead (Nat.le_refl _) noLast noHeld noLong

theorem openNamed {t : Token} {escapes : Nat} {option : OptionDecl}
    (reads : Reads ctx p mark t.start.offset s) (noLong : s.longText = none)
    (outside : option.takesOneValue ctx.config.singleValue = true → ¬ p option.name)
    (inside : t.start.offset + escapes ≤ t.stop.offset) (family : Family) (justClosed : Bool) :
    Reads ctx p mark t.stop.offset (s.openNamed ctx t escapes family option justClosed) := by
  let here := t.start.offset
  have within : here ≤ here + escapes := Nat.le_add_right ..
  refine openNamed_cases
    (fun s => Reads ctx p mark (here + escapes) s ∧ s.longText = none)
    (fun s => Reads ctx p mark (here + escapes) s ∧ s.longText = none ∧ s.held = none)
    ⟨reads.mono (Nat.le_refl mark) within, noLong⟩ ?placed ?busy ?flushed ?opened
  case placed =>
    exact fun text noLast =>
      ⟨reads.placeText noLast noLong (fun _ => .behind reads.here) within _ _,
        (puts_placeText ..).keeps.longText.trans noLong⟩
  case busy =>
    rintro s ⟨placed, noLong⟩ busy
    refine ⟨placed, noLong, ?_⟩
    cases placed.phase with
    | slots noNamed noLast => simp [noNamed, noLast] at busy
    | single _ _ _ _ noHeld => exact noHeld
    | whole _ _ _ _ _ _ noHeld _ => exact noHeld
    | last _ _ _ _ noHeld _ => exact noHeld
  case flushed =>
    rintro s ⟨placed, noLong⟩ noNamed noLast
    exact ⟨placed.flushHeld ⟨noLast, by simp [noNamed]⟩ noLong within,
      (puts_flushHeld ..).keeps.longText.trans noLong, flushHeld_held _⟩
  case opened =>
    rintro s stop post ⟨flushed, noLong, noHeld⟩ ends
    have closed : Reads ctx p mark (here + escapes) (s.closeNamed ctx stop) := by
      apply flushed.closeNamed
      rcases ends with rfl | rfl
      · exact within
      · exact Nat.le_refl _
    have closedFrame := closeNamed_frame ctx stop s
    have doneFrame := closeLastSlot_frame ctx here post (s.closeNamed ctx stop)
    refine Reads.openOption ⟨option, t.stop, here + escapes, family⟩
      (closed.closeLastSlot within post) (congrArg State.lastSlot doneFrame) ?_ ?_ outside inside
    · exact (congrArg State.held doneFrame).trans ((congrArg State.held closedFrame).trans noHeld)
    · exact (congrArg State.longText doneFrame).trans
        ((congrArg State.longText closedFrame).trans noLong)

theorem onMarker {t : Token} {escapes : Nat} (outside : SingleOutside ctx p)
    (reads : Reads ctx p mark t.start.offset s) (noLong : s.longText = none)
    (inside : t.start.offset + escapes ≤ t.stop.offset) (opening : Opening) (name : String)
    (justClosed : Bool) :
    Reads ctx p mark t.stop.offset (s.onMarker ctx t escapes opening name justClosed) := by
  have ahead : t.start.offset ≤ t.stop.offset := (Nat.le_add_right ..).trans inside
  have locked (family : Option Family) :
      Reads ctx p mark t.start.offset { s with family := family } :=
    reads.congr rfl rfl rfl rfl reads.escape rfl rfl
  refine onMarker_cases ?passed ?placed ?opened
  case passed => exact fun family _ _ => (locked family).mono (Nat.le_refl mark) ahead
  case placed =>
    intro family text _ noLast
    exact (locked family).placeText noLast noLong (fun _ => .behind (locked family).here) ahead _ _
  case opened =>
    intro family option _ declared _ _
    exact (locked family).openNamed noLong (outside name option declared) inside _ _

/-! ## Long texts -/

theorem openLong {long : LongText} (reads : Reads ctx p mark bound s) (takes : TakesText ctx s)
    (body : Ordered p long.body.offset s) (inside : long.body.offset ≤ bound)
    (closing : ∀ run ∈ long.closing,
      long.body.offset < run.first.offset ∧ run.first.offset ≤ bound) :
    Reads ctx p mark bound { s with longText := some long } := by
  refine ⟨reads.here.congr (fun _ => rfl) rfl, ?_, ?_, reads.escape,
    reads.phase.of_takesText takes rfl rfl rfl⟩
  · exact fun held filled => (reads.held held filled).congr (fun _ => rfl) rfl
  · intro long' opened
    obtain rfl := Option.some.inj opened
    exact ⟨body.congr (fun _ => rfl) rfl, inside, closing⟩

/-- Without the long text that is open, all spans end where it starts. -/
theorem dropLong {long : LongText} (reads : Reads ctx p mark bound s)
    (opened : s.longText = some long) :
    Reads ctx p mark long.body.offset { s with longText := none } := by
  refine ⟨(reads.long long opened).1.congr (fun _ => rfl) rfl, ?_, by simp, reads.escape,
    reads.phase.of_takesText (reads.takesText_of_longText opened) rfl rfl rfl⟩
  exact fun held filled => (reads.held held filled).congr (fun _ => rfl) rfl

theorem closeLongText {stop : Nat} (reads : Reads ctx p mark bound s) (inside : stop ≤ bound) :
    Reads ctx p mark bound (s.closeLongText ctx stop) := by
  refine closeLongText_cases (fun _ => reads) fun long value opened => ?_
  have takes := reads.takesText_of_longText opened
  have dropped : Reads ctx p mark long.body.offset
      { s with longText := none, justClosed := true } :=
    (reads.dropLong opened).congr rfl rfl rfl rfl reads.escape rfl rfl
  exact dropped.placeLong ⟨takes.noLast, takes.single⟩ rfl _ (reads.long long opened).2.1 inside

/-- While a long text is open, a slot may take text from its front. -/
theorem fillSlotInLong {long : LongText} {stop : Nat} (reads : Reads ctx p mark bound s)
    (opened : s.longText = some long) (noNamed : s.named = none)
    (ahead : long.body.offset ≤ stop) (value : String) :
    Reads ctx p mark stop
        { s.fillSlot ctx value long.body stop false with longText := none } ∧
      TakesText ctx (s.fillSlot ctx value long.body stop false) := by
  have takes := reads.takesText_of_longText opened
  have dropped := reads.dropLong opened
  have same := fillSlot_long ctx opened none value long.body stop
  constructor
  · have moved := (dropped.mono (Nat.le_refl mark) ahead).fillSlot noNamed takes.noLast rfl value
      (fun _ => dropped.here) (Nat.le_refl stop) true
    have closed : (({ s with longText := none } : State).fillSlot ctx value long.body stop
        true).longText = none := (puts_fillSlot ..).keeps.longText
    rw [same]
    exact moved.congr rfl rfl rfl closed.symm moved.escape rfl rfl
  · have lastSlot := congrArg State.lastSlot same
    have named := fillSlot_named ctx s value long.body stop false
    refine ⟨?_, by simp [named, noNamed]⟩
    exact lastSlot.trans ((fillSlot_lastSlot ..).trans takes.noLast)

theorem placeLanguage {long : LongText} {stop : Nat} (reads : Reads ctx p mark bound s)
    (opened : s.longText = some long) (ahead : long.body.offset ≤ stop) (language : List Char)
    (hasLanguage : Bool) :
    Reads ctx p mark stop
        { s.placeLanguage ctx language hasLanguage long.body stop with longText := none } ∧
      TakesText ctx (s.placeLanguage ctx language hasLanguage long.body stop) := by
  have takes := reads.takesText_of_longText opened
  have moved := (reads.dropLong opened).mono (Nat.le_refl mark) ahead
  refine placeLanguage_cases ?passed ?placed ?taken
  case passed => exact ⟨moved, takes⟩
  case placed =>
    intro noNamed _
    have placed : s.place ctx (String.ofList language) long.body stop false =
        s.fillSlot ctx (String.ofList language) long.body stop false := by
      simp [State.place, openSingle?, noNamed]
    rw [placed]
    exact reads.fillSlotInLong opened noNamed ahead _
  case taken =>
    intro slot _
    rw [take_frame]
    exact ⟨moved.congr rfl rfl rfl rfl moved.escape rfl rfl, ⟨takes.noLast, takes.single⟩⟩

theorem closeCodeBlock {long : LongText} {closing : Cursor} (reads : Reads ctx p mark bound s)
    (opened : s.longText = some long) (ahead : long.body.offset < closing.offset)
    (inside : closing.offset < bound) :
    Reads ctx p mark bound (s.closeCodeBlock ctx long closing) := by
  rw [closeCodeBlock_eq]
  let block := long.body.textTo closing.offset
  let lines := Block.codeLines long.body block
  obtain ⟨placed, takes⟩ := reads.placeLanguage opened (Block.le_codeLines_offset long.body block)
    (Block.language block) (Block.hasLanguage block)
  have dropped : Reads ctx p mark (Block.behindFeed lines).offset
      { s.openCode ctx long closing with longText := none, justClosed := true } :=
    (placed.mono (Nat.le_refl mark) (Block.le_behindFeed_offset lines)).congr
      rfl rfl rfl rfl placed.escape rfl rfl
  have inner : lines.offset ≤ closing.offset := Block.codeLines_offset_le ahead.le
  have next : (Block.behindFeed lines).offset ≤ lines.offset + 1 := Block.behindFeed_offset_le lines
  exact dropped.placeLong ⟨takes.noLast, takes.single⟩ rfl _ (by omega)
    ((Block.beforeFeed_le closing).trans inside.le)

/-- What a quote notes starts where the quotes in front of it end. -/
theorem noteQuote {t : Token} {quote : Quote} {long : LongText}
    (reads : Reads ctx p mark t.start.offset s) (takes : TakesText ctx s)
    (ahead : t.start.offset ≤ t.stop.offset) (notes : Notes t quote s.longText long) :
    Reads ctx p mark t.stop.offset { s with longText := some long } := by
  have moved := reads.mono (Nat.le_refl mark) ahead
  generalize before : s.longText = open' at notes
  cases notes with
  | opens => exact moved.openLong takes (reads.here.mono ahead) (Nat.le_refl _) (by simp)
  | again _ here =>
      refine moved.openLong takes (reads.here.mono ahead) (Nat.le_refl _) fun run known => ?_
      have between := (reads.long _ before).2.2 run known
      exact absurd (between.1.trans_le between.2) (by omega)
  | starts _ behind _ =>
      obtain ⟨body, inside, -⟩ := reads.long _ before
      refine moved.openLong takes body (inside.trans ahead) fun run known => ?_
      obtain rfl := Option.some.inj known
      exact ⟨lt_of_le_of_ne inside behind, ahead⟩
  | goesOn _ _ run =>
      obtain ⟨body, inside, closing⟩ := reads.long _ before
      refine moved.openLong takes body (inside.trans ahead) fun run' known => ?_
      obtain rfl := Option.some.inj known
      exact (closing _ run).imp_right (·.trans ahead)

theorem onQuote {t : Token} (reads : Reads ctx p mark t.start.offset s) (takes : TakesText ctx s)
    (ahead : t.start.offset ≤ t.stop.offset) (quote : Quote) :
    Reads ctx p mark t.stop.offset (s.onQuote ctx t quote) := by
  have moved := reads.mono (Nat.le_refl mark) ahead
  refine onQuote_cases ?noted ?passed ?closed ?block
  case noted => exact fun long notes => reads.noteQuote takes ahead notes
  case passed => exact fun _ => moved
  case closed =>
    rintro long stop opened (rfl | ⟨run, known, rfl⟩)
    · exact moved.closeLongText ahead
    · exact moved.closeLongText (((reads.long long opened).2.2 run known).2.trans ahead)
  case block =>
    intro long run opened _ _ known far
    exact moved.closeCodeBlock opened ((reads.long long opened).2.2 run known).1 (by omega)

/-! ## Delimiters and words -/

theorem onDelimiter {t : Token} {justClosed : Bool} (reads : Reads ctx p mark t.start.offset s)
    (takes : TakesText ctx s) (ahead : t.start.offset ≤ t.stop.offset)
    (fits : ∀ escape ∈ s.escape, escape.2 = t.start.offset → s.longText = none →
      s.named = none → Fits p escape.1 justClosed s) (c : Char) :
    Reads ctx p mark t.stop.offset (s.onDelimiter ctx t c justClosed) := by
  have cleared : Reads ctx p mark t.start.offset { s with escape := none } :=
    reads.congr rfl rfl rfl rfl (by simp) rfl rfl
  have moved := cleared.mono (Nat.le_refl mark) ahead
  have takes' : TakesText ctx { s with escape := none } := ⟨takes.noLast, takes.single⟩
  refine onDelimiter_cases ?passed ?escaped ?text ?value ?quoted
  case passed => exact fun _ => moved
  case escaped =>
    intro start noLong escaped
    refine cleared.placeText takes.noLast noLong (fun noNamed => ?_) ahead _ _
    exact (fits _ escaped rfl noLong noNamed).congr rfl rfl rfl
  case text =>
    exact fun noLong _ => cleared.placeText takes.noLast noLong (fun _ => .behind cleared.here)
      ahead _ _
  case value =>
    exact fun noLong _ => moved.place takes' noLong _ (fun _ => cleared.here) (Nat.le_refl _)
  case quoted => exact fun quote _ => cleared.onQuote takes' ahead quote

theorem onWord {t : Token} (reads : Reads ctx p mark t.start.offset s) (takes : TakesText ctx s)
    (noLong : s.longText = none) (ahead : t.start.offset ≤ t.stop.offset) (justClosed : Bool) :
    Reads ctx p mark t.stop.offset (s.onWord ctx t justClosed) := by
  have moved := reads.mono (Nat.le_refl mark) ahead
  refine onWord_cases ?glued ?placed
  case glued => exact fun last filled noHeld _ => reads.append takes filled noHeld noLong ahead _
  case placed => exact moved.place takes noLong _ (fun _ => reads.here) (Nat.le_refl _)

end Reads

/-! ## Steps -/

/-- `Reads` at a place. A delimiter behind an escape may become text from where its
backslashes start. -/
structure ReadsAt (ctx : Context) (p : String → Prop) (c : Cursor) (s : State) : Prop where
  reads : Reads ctx p c.offset c.offset s
  fits : ∀ escape ∈ s.escape, escape.2 = c.offset → isVisible c.after = true →
    s.longText = none → s.named = none → Fits p escape.1 s.justClosed s

namespace ReadsAt

/-- Escapes that ended in front of a place do not count there. -/
theorem of_reads {c : Cursor} (reads : Reads ctx p mark c.offset s) (ahead : mark < c.offset) :
    ReadsAt ctx p c s where
  reads := reads.mono ahead.le (Nat.le_refl _)
  fits := fun escape member here => absurd (reads.escape escape member) (by omega)

/-- Text that is placed in front of a visible character is what a delimiter there is joined
with. -/
theorem fits_placeText {start : Cursor} {next : Option Char} (quiet : s.justClosed = false)
    (visible : isVisible next = true) (noNamed : s.named = none) (text : String) (stop : Nat)
    (justClosed : Bool) :
    Fits p start (s.placeText ctx text start stop next justClosed).justClosed
      (s.placeText ctx text start stop next justClosed) := by
  refine placeText_cases ?passed ?glued ?held ?placed
  case passed => exact fun opened => absurd noNamed opened
  case glued =>
    intro last filled _ _ _ before
    exact .glued quiet before (by simp [State.append, filled])
  case held =>
    exact fun _ _ _ => hold_cases (fun _ _ => .held (by simp)) fun _ => .held (by simp)
  case placed => exact fun _ hidden _ => by simp [visible] at hidden

theorem onBackslashes {t : Token} (reads : Reads ctx p mark t.start.offset s)
    (noLast : s.lastSlot = none) (quiet : s.justClosed = false) (before : mark ≤ t.start.offset)
    (ahead : t.start.offset < t.stop.offset) (count : Nat) (justClosed : Bool) :
    ReadsAt ctx p t.stop (s.onBackslashes ctx t count justClosed) := by
  have noted {escape : Option (Cursor × Nat)}
      (known : escape = s.escape ∨ escape = some (t.start, t.stop.offset)) :
      Reads ctx p t.stop.offset t.start.offset { s with escape := escape } ∧
        ∀ run ∈ escape, run.2 = t.stop.offset → run.1 = t.start := by
    rcases known with rfl | rfl
    · refine ⟨reads.mono (before.trans ahead.le) (Nat.le_refl _), fun run member here => ?_⟩
      exact absurd (reads.escape run member) (by omega)
    · refine ⟨reads.congr rfl rfl rfl rfl ?_ rfl rfl, ?_⟩
      · intro run member
        rw [← Option.some.inj member]
      · intro run member _
        rw [← Option.some.inj member]
  refine onBackslashes_cases ?passed ?placed
  case passed =>
    intro escape known _
    obtain ⟨reads', start⟩ := noted known
    refine ⟨reads'.mono (Nat.le_refl _) ahead.le, fun run member here _ _ _ => ?_⟩
    rw [start run member here]
    exact .behind reads'.here
  case placed =>
    intro escape text known noLong
    obtain ⟨reads', start⟩ := noted known
    refine ⟨reads'.placeText noLast noLong (fun _ => .behind reads'.here) ahead.le _ _, ?_⟩
    intro run member here visible _ noNamed
    rw [(puts_placeText ..).keeps.escape] at member
    rw [start run member here]
    refine fits_placeText (s := { s with escape := escape }) quiet visible ?_ _ _ _
    cases opened : s.named with
    | none => rfl
    | some named => simp [State.placeText, opened] at noNamed

theorem onOther {t : Token} {justClosed : Bool} (reads : Reads ctx p mark t.start.offset s)
    (quiet : s.justClosed = false) (before : mark ≤ t.start.offset)
    (ahead : t.start.offset < t.stop.offset)
    (fits : ∀ escape ∈ s.escape, escape.2 = t.start.offset → isVisible t.start.after = true →
      s.longText = none → s.named = none → Fits p escape.1 justClosed s)
    (delimiter : ∀ c, t.kind = .delimiter c → isVisible t.start.after = true) :
    ReadsAt ctx p t.stop (s.onOther ctx t justClosed) := by
  have moved := reads.mono (Nat.le_refl mark) ahead.le
  have later := before.trans_lt ahead
  refine onOther_cases ?line ?passed ?backslashes ?delimiter ?word
  case line =>
    intro named found
    obtain ⟨opened, takesOne⟩ := openSingle?_eq_some.1 found
    exact of_reads (moved.closeSingle opened takesOne _) later
  case passed => exact fun _ => of_reads moved later
  case backslashes =>
    exact fun count _ takes => onBackslashes reads takes.noLast quiet before ahead _ _
  case delimiter =>
    intro c kind takes
    refine of_reads (reads.onDelimiter takes ahead.le ?_ c) later
    exact fun escape member here => fits escape member here (delimiter c kind)
  case word => exact fun _ takes noLong => of_reads (reads.onWord takes noLong ahead.le _) later

theorem step {t : Token} {text rest : List Char} (outside : SingleOutside ctx p)
    (reads : ReadsAt ctx p t.start s)
    (token : TokenFront ctx.patterns.delimiters t.kind text rest)
    (split : t.start.rest = text ++ rest) (stop : t.stop = t.start.past text rest) :
    ReadsAt ctx p t.stop (s.step ctx t) := by
  have quiet : Reads ctx p t.start.offset t.start.offset { s with justClosed := false } :=
    reads.reads.congr rfl rfl rfl rfl reads.reads.escape rfl rfl
  have length : t.stop.offset = t.start.offset + byteLength text := by
    rw [stop, Cursor.past_offset]
  have positive := byteLength_pos token.ne_nil
  have ahead : t.start.offset < t.stop.offset := by omega
  refine step_cases ?marker ?other
  case marker =>
    intro escapes opening name marker noLong
    rw [marker] at token
    have inside := token.escapes_le
    exact of_reads (quiet.onMarker outside noLong (by omega) opening name s.justClosed) ahead
  case other =>
    intro _
    refine onOther quiet rfl (Nat.le_refl _) ahead ?_ ?_
    · intro escape member here visible noLong noNamed
      exact (reads.fits escape member here visible noLong noNamed).congr rfl rfl rfl
    · intro c delimiter
      rw [delimiter] at token
      cases token with
      | delimiter isDelimiter =>
          rw [Cursor.after, split]
          simp [isVisible, isGap_of_isDelimiterChar isDelimiter]

theorem skip {c : Cursor} (reads : ReadsAt ctx p c s) (x : Char) (rest : List Char) :
    ReadsAt ctx p (c.past [x] rest) s := by
  have positive := x.utf8Size_pos
  have ahead : c.offset < (c.past [x] rest).offset := by
    rw [Cursor.past_offset, byteLength_cons, byteLength_nil]
    omega
  exact of_reads (reads.reads.mono (Nat.le_refl _) ahead.le) ahead

end ReadsAt

/-! ## Runs -/

theorem Reads.closeAll (reads : Reads ctx p mark bound s) (inside : ctx.length ≤ bound) :
    Reads ctx p mark bound (s.closeAll ctx) :=
  ((reads.closeLastSlot inside []).closeNamed inside).closeLongText inside

theorem ReadsAt.sweep {c : Cursor} (outside : SingleOutside ctx p) (reads : ReadsAt ctx p c s) :
    ∃ bound, Reads ctx p bound bound (s.sweep ctx c) := by
  induction c, s using sweep_induction ctx with
  | finish c s ends =>
      refine ⟨c.offset, ?_⟩
      rcases ends with ends | stops
      · rw [sweep_end ends]
        exact reads.reads
      · rw [sweep_of_stops stops]
        exact reads.reads
  | skip c s x rest split _ none _ ih =>
      rw [sweep_skip split none]
      exact ih (reads.skip x rest)
  | token c s kind text rest split front found stops ih =>
      rw [sweep_token split found stops]
      exact ih (reads.step (t := .reading kind c text rest) outside front split rfl)

theorem ReadsAt.initial (ctx : Context) (p : String → Prop) :
    ReadsAt ctx p (Cursor.start ctx.content) (State.initial ctx) where
  reads := Reads.initial ctx p
  fits := by simp [State.initial]

theorem ReadsAt.fillReplied? {message : Option Message}
    (filled : (State.initial ctx).fillReplied? ctx message = some s) :
    ReadsAt ctx p (Cursor.start ctx.content) s := by
  obtain ⟨option, replied, slot, -, -, rfl⟩ := fillReplied?_eq_some filled
  have initial := ReadsAt.initial ctx p
  rw [take_frame]
  exact ⟨initial.reads.congr rfl rfl rfl rfl initial.reads.escape rfl rfl,
    by simp [State.initial]⟩

theorem run_ordered (outside : SingleOutside ctx p) (message : Option Message) :
    ∃ bound, Ordered p bound (run ctx message) := by
  have whole {s : State} (reads : ReadsAt ctx p (Cursor.start ctx.content) s) :
      ∃ bound, Ordered p bound ((s.sweep ctx (Cursor.start ctx.content)).closeAll ctx) := by
    obtain ⟨bound, reads⟩ := reads.sweep outside
    have later := reads.mono (Nat.le_refl _) (Nat.le_max_left bound ctx.length)
    exact ⟨_, (later.closeAll (Nat.le_max_right ..)).here⟩
  unfold run
  extract_lets s tokens
  split
  · rename_i s filled
    have reads : ReadsAt ctx p (Cursor.start ctx.content) s := .fillReplied? filled
    split
    · exact ⟨_, reads.reads.here⟩
    · exact whole reads
  · exact whole (.initial ctx p)

end State

end Parse

open Parse

theorem Table.parse_ordered {p : String → Prop} (table : Table) (config : Config)
    (patterns : Patterns) (content : String) (message : Option Message) {a b : String}
    {x y : Span}
    (outside : State.SingleOutside ⟨content.toList, table, config, patterns⟩ p)
    (spanA : (table.parse config patterns content message).spans.get? a = some x)
    (spanB : (table.parse config patterns content message).spans.get? b = some y)
    (insideA : p a) (insideB : p b) (different : a ≠ b) :
    x.stop ≤ y.start ∨ y.stop ≤ x.start := by
  unfold Table.parse at spanA spanB
  split at spanA
  · cases spanA
  · rename_i filled
    rw [if_neg filled] at spanB
    obtain ⟨bound, ordered⟩ := State.run_ordered outside message
    exact ordered.apart ⟨insideA, spanA⟩ ⟨insideB, spanB⟩ different

/-- Two options that do not take one value when they are named are never given the same text. -/
theorem Command.parse_spans_apart (command : Command) (shared : Config) (content : String)
    (message : Option Message) {a b : String} {x y : Span}
    (wholeA : ∀ o ∈ command.options, o.name = a →
      o.takesOneValue ((Table.ofCommand command).configFor shared).singleValue = false)
    (wholeB : ∀ o ∈ command.options, o.name = b →
      o.takesOneValue ((Table.ofCommand command).configFor shared).singleValue = false)
    (spanA : (command.parse shared content message).spans.get? a = some x)
    (spanB : (command.parse shared content message).spans.get? b = some y) (different : a ≠ b) :
    x.stop ≤ y.start ∨ y.stop ≤ x.start := by
  refine Table.parse_ordered (p := fun name => ∀ o ∈ command.options, o.name = name →
    o.takesOneValue ((Table.ofCommand command).configFor shared).singleValue = false)
    _ _ _ content message ?_ spanA spanB wholeA wholeB different
  intro key option known single whole
  have member := (Table.option?_eq_some known).1
  simp [whole option member rfl] at single

/-- The last slot ends in front of the flag. -/
theorem Command.parse_spans_apart_flag :
    ∃ x y, (Command.parse ⟨"go", [{ name := "x" }, { name := "n", flag := true }], none⟩ {}
        "foo --n w" none).spans.get? "x" = some x ∧
      (Command.parse ⟨"go", [{ name := "x" }, { name := "n", flag := true }], none⟩ {}
        "foo --n w" none).spans.get? "n" = some y ∧ (x.stop ≤ y.start ∨ y.stop ≤ x.start) := by
  refine ⟨⟨0, 4⟩, ⟨7, 9⟩, by decide +kernel, by decide +kernel, ?_⟩
  exact Command.parse_spans_apart
    ⟨"go", [{ name := "x" }, { name := "n", flag := true }], none⟩ {} "foo --n w" none
    (a := "x") (b := "n") (by decide +kernel) (by decide +kernel) (by decide +kernel)
    (by decide +kernel) (by decide)

/-- An option that takes one value may overlap: a word directly behind its marker is its value,
and is glued to the value in front of the marker too. -/
theorem Command.parse_spans_overlap :
    ¬ ∀ (command : Command) (shared : Config) (content : String) (message : Option Message)
      (a b : String) (x y : Span), command.defect? = none →
      (command.parse shared content message).spans.get? a = some x →
      (command.parse shared content message).spans.get? b = some y → a ≠ b →
      x.stop ≤ y.start ∨ y.stop ≤ x.start := by
  intro apart
  have overlap := apart
    ⟨"go", [{ name := "x" }, { name := "y" }, { name := "n", flag := true }], none⟩
    { singleValue := true } "foo --n=w" none "x" "n" ⟨0, 9⟩ ⟨8, 9⟩ (by decide +kernel)
    (by decide +kernel) (by decide +kernel) (by decide)
  exact absurd overlap (by decide)

end ChatArgs
