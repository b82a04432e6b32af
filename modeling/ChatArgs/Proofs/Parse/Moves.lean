import ChatArgs.Proofs.Parse.BlockLines
import ChatArgs.Proofs.Parse.Cases
import ChatArgs.Proofs.Parse.Placing
import Mathlib.Logic.Relation

/-!
# The changes of a state

All that a parse does to its state is made of a few changes, in three layers. Text is placed
(`Put`); a token that opens no option notes quotes and escapes too (`Write`); and a marker decides
the family of all markers and opens an option (`Move`). What every change of a layer keeps is kept
by every function of that layer, and what every `Move` keeps holds in the last state of a parse.
-/

namespace ChatArgs.Parse

open Text Relation

namespace State

variable {ctx : Context} {s s' : State} {t : Token}

/-! ## Changes -/

/-- A change that places text, or closes what takes it. -/
inductive Put (ctx : Context) : State → State → Prop
  | hold (s : State) (held : Option Held) (justClosed : Bool) :
      Put ctx s { s with held := held, justClosed := justClosed }
  | append {s : State} {last : String} (filled : s.lastFilled = some last) (text : String)
      (stop : Nat) : Put ctx s (s.append last text stop)
  | fillSlot (s : State) (value : String) (start : Cursor) (stop : Nat) (long : Bool) :
      Put ctx s (s.fillSlot ctx value start stop long)
  | fillNamed {s : State} {named : Named} (opened : s.named = some named) (value : String)
      (start stop : Nat) : Put ctx s (s.fillNamed ctx named value start stop)
  | closeLastSlot (s : State) (stop : Nat) (post : List Char) :
      Put ctx s (s.closeLastSlot ctx stop post)

/-- A change by a token that opens no option. -/
inductive Write (ctx : Context) : State → State → Prop
  | put {s s' : State} (put : Put ctx s s') : Write ctx s s'
  | note (s : State) (longText : Option LongText) (escape : Option (Cursor × Nat)) :
      Write ctx s { s with longText := longText, escape := escape }
  /-- A block without a language leaves a slot without a value. -/
  | take (asValue : ctx.config.languageAsValue = true) (s : State) (slot : Nat) :
      Write ctx s (s.take slot)

inductive Move (ctx : Context) (t : Token) : State → State → Prop
  | write {s s' : State} (write : Write ctx s s') : Move ctx t s s'
  | decide {s : State} {escapes : Nat} {opening : Opening} {name : String}
      (marker : t.kind = .marker escapes opening name) (oneFamily : ctx.config.oneFamily = true)
      (undecided : s.family = none) : Move ctx t s { s with family := some opening.family }
  | openNamed {s : State} {escapes : Nat} {opening : Opening} {name : String}
      {option : OptionDecl} (marker : t.kind = .marker escapes opening name)
      (declared : ctx.table.option? name = some option)
      (decided : ctx.config.oneFamily = true → s.family = some opening.family)
      (unescaped : ∀ count, opening = .hyphens count → escapes % 2 ≠ 1) (start : Cursor)
      (nameStart : Nat) :
      Move ctx t s { s with named := some ⟨option, start, nameStart, opening.family⟩ }

def Puts (ctx : Context) : State → State → Prop :=
  ReflTransGen (Put ctx)

def Writes (ctx : Context) : State → State → Prop :=
  ReflTransGen (Write ctx)

def Moves (ctx : Context) (t : Token) : State → State → Prop :=
  ReflTransGen (Move ctx t)

theorem Put.puts (put : Put ctx s s') : Puts ctx s s' :=
  .single put

theorem Put.writes (put : Put ctx s s') : Writes ctx s s' :=
  .single (.put put)

theorem Write.writes (write : Write ctx s s') : Writes ctx s s' :=
  .single write

theorem Puts.writes (puts : Puts ctx s s') : Writes ctx s s' :=
  ReflTransGen.mono (fun _ _ => .put) _ _ puts

theorem Writes.moves (writes : Writes ctx s s') : Moves ctx t s s' :=
  ReflTransGen.mono (fun _ _ => .write) _ _ writes

theorem Puts.trans {r : State} (first : Puts ctx r s) (second : Puts ctx s s') : Puts ctx r s' :=
  ReflTransGen.trans first second

theorem Writes.trans {r : State} (first : Writes ctx r s) (second : Writes ctx s s') :
    Writes ctx r s' :=
  ReflTransGen.trans first second

theorem Moves.trans {r : State} (first : Moves ctx t r s) (second : Moves ctx t s s') :
    Moves ctx t r s' :=
  ReflTransGen.trans first second

section

variable {p : State → Prop}

theorem invariant_of_changes {change : State → State → Prop} (changes : ReflTransGen change s s')
    (keep : ∀ {s s'}, change s s' → p s → p s') (start : p s) : p s' := by
  induction changes with
  | refl => exact start
  | tail _ last kept => exact keep last kept

theorem Puts.invariant (puts : Puts ctx s s') (keep : ∀ {s s'}, Put ctx s s' → p s → p s')
    (start : p s) : p s' :=
  invariant_of_changes puts keep start

theorem Writes.invariant (writes : Writes ctx s s') (keep : ∀ {s s'}, Write ctx s s' → p s → p s')
    (start : p s) : p s' :=
  invariant_of_changes writes keep start

theorem Moves.invariant (moves : Moves ctx t s s') (keep : ∀ {s s'}, Move ctx t s s' → p s → p s')
    (start : p s) : p s' :=
  invariant_of_changes moves keep start

end

/-! ## Placing text -/

theorem puts_fillSlot (s : State) (value : String) (start : Cursor) (stop : Nat) (long : Bool) :
    Puts ctx s (s.fillSlot ctx value start stop long) :=
  (Put.fillSlot s value start stop long).puts

theorem puts_place (s : State) (value : String) (start : Cursor) (stop : Nat) (long : Bool) :
    Puts ctx s (s.place ctx value start stop long) := by
  refine place_cases ?named ?apart ?slot
  case named =>
    intro named opened
    exact (Put.fillNamed (openSingle?_eq_some.1 opened).1 ..).puts
  case apart =>
    intro held _ _ _
    exact ((Put.hold s none s.justClosed).puts.trans (puts_fillSlot ..)).trans (puts_fillSlot ..)
  case slot => exact fun _ _ => puts_fillSlot ..

theorem puts_hold (s : State) (text : String) (start : Cursor) :
    Puts ctx s (s.hold text start) :=
  hold_cases (fun _ _ => (Put.hold s _ s.justClosed).puts)
    fun _ => (Put.hold s _ s.justClosed).puts

theorem puts_placeText (s : State) (text : String) (start : Cursor) (stop : Nat)
    (next : Option Char) (justClosed : Bool) :
    Puts ctx s (s.placeText ctx text start stop next justClosed) := by
  refine placeText_cases ?passed ?glued ?held ?placed
  case passed => exact fun _ => .refl
  case glued => exact fun last filled _ _ _ _ => (Put.append filled _ _).puts
  case held => exact fun _ _ _ => puts_hold ..
  case placed => exact fun _ _ _ => puts_place ..

theorem puts_flushHeld (s : State) (stop : Nat) : Puts ctx s (s.flushHeld ctx stop) :=
  flushHeld_cases (fun _ => .refl) fun _ _ =>
    (Put.hold s none s.justClosed).puts.trans (puts_place ..)

theorem puts_closeNamed (s : State) (stop : Nat) : Puts ctx s (s.closeNamed ctx stop) :=
  closeNamed_cases (fun _ => .refl) fun _ _ _ _ opened _ => (Put.fillNamed opened ..).puts

theorem puts_closeLastSlot (s : State) (stop : Nat) (post : List Char) :
    Puts ctx s (s.closeLastSlot ctx stop post) :=
  (Put.closeLastSlot s stop post).puts

theorem puts_literalMarker (s : State) (t : Token) (justClosed : Bool) :
    Puts ctx s (s.literalMarker ctx t justClosed) := by
  unfold literalMarker
  split
  · exact .refl
  · exact puts_placeText ..

theorem puts_onWord (s : State) (t : Token) (justClosed : Bool) :
    Puts ctx s (s.onWord ctx t justClosed) := by
  refine onWord_cases ?glued ?placed
  case glued => exact fun last filled _ _ => (Put.append filled _ _).puts
  case placed => exact puts_place ..

/-- In front of a marker text is placed and closed, and then the option is opened. -/
theorem exists_openNamed (s : State) (t : Token) (escapes : Nat) (family : Family)
    (option : OptionDecl) (justClosed : Bool) :
    ∃ closed, Puts ctx s closed ∧ s.openNamed ctx t escapes family option justClosed =
      { closed with
        named := some ⟨option, t.stop, t.start.offset + escapes, family⟩ } := by
  refine openNamed_cases (Puts ctx s) (Puts ctx s) .refl ?placed ?busy ?flushed ?opened
  case placed => exact fun _ _ => puts_placeText ..
  case busy => exact fun _ first _ => first
  case flushed => exact fun _ first _ _ => first.trans (puts_flushHeld ..)
  case opened =>
    exact fun _ _ _ second _ =>
      ⟨_, (second.trans (puts_closeNamed ..)).trans (puts_closeLastSlot ..), rfl⟩

/-! ## What placing text keeps -/

structure Keeps (s s' : State) : Prop where
  longText : s'.longText = s.longText
  escape : s'.escape = s.escape
  slots : s'.taken.length = s.taken.length

theorem Keeps.refl (s : State) : Keeps s s :=
  ⟨rfl, rfl, rfl⟩

theorem Keeps.trans {r : State} (first : Keeps r s) (second : Keeps s s') : Keeps r s' :=
  ⟨second.longText.trans first.longText, second.escape.trans first.escape,
    second.slots.trans first.slots⟩

theorem Keeps.take {r : State} (keeps : Keeps r s) (slot : Nat) : Keeps r (s.take slot) :=
  take_cases keeps fun _ => ⟨keeps.longText, keeps.escape, (List.length_set ..).trans keeps.slots⟩

theorem Keeps.markFilled {r : State} (keeps : Keeps r s) (option : OptionDecl) :
    Keeps r (s.markFilled ctx option) :=
  markFilled_cases keeps (fun _ _ => ⟨keeps.longText, keeps.escape, keeps.slots⟩)
    fun slot _ => keeps.take slot

theorem Put.keeps (put : Put ctx s s') : Keeps s s' := by
  cases put with
  | hold => exact ⟨rfl, rfl, rfl⟩
  | append => exact ⟨rfl, rfl, rfl⟩
  | fillSlot =>
      refine fillSlot_cases (.refl s) fun slot option value spanStart lastSlot _ _ _ _ => ?_
      apply Keeps.take
      exact ⟨rfl, rfl, rfl⟩
  | fillNamed =>
      apply Keeps.markFilled
      exact ⟨rfl, rfl, rfl⟩
  | closeLastSlot =>
      rw [closeLastSlot_frame]
      exact ⟨rfl, rfl, rfl⟩

theorem Puts.keeps (puts : Puts ctx s s') : Keeps s s' :=
  puts.invariant (fun put kept => kept.trans put.keeps) (.refl s)

theorem keeps_openNamed (s : State) (t : Token) (escapes : Nat) (family : Family)
    (option : OptionDecl) (justClosed : Bool) :
    Keeps s (s.openNamed ctx t escapes family option justClosed) := by
  obtain ⟨closed, puts, same⟩ := exists_openNamed s t escapes family option justClosed
  rw [same]
  exact puts.keeps.trans ⟨rfl, rfl, rfl⟩

theorem keeps_onMarker (s : State) (t : Token) (escapes : Nat) (opening : Opening) (name : String)
    (justClosed : Bool) : Keeps s (s.onMarker ctx t escapes opening name justClosed) := by
  have locked (family : Option Family) : Keeps s { s with family := family } := ⟨rfl, rfl, rfl⟩
  refine onMarker_cases ?passed ?placed ?opened
  case passed => exact fun family _ _ => locked family
  case placed => exact fun family _ _ _ => (locked family).trans (puts_placeText ..).keeps
  case opened => exact fun family _ _ _ _ _ => (locked family).trans (keeps_openNamed ..)

/-! ## Tokens that open no option -/

theorem writes_closeLongText (s : State) (stop : Nat) :
    Writes ctx s (s.closeLongText ctx stop) := by
  refine closeLongText_cases (fun _ => .refl) fun _ _ _ => ?_
  have noted : Writes ctx s { s with longText := none } := (Write.note s none s.escape).writes
  exact (noted.trans (Put.hold _ s.held true).writes).trans (puts_place ..).writes

theorem writes_placeLanguage (s : State) (language : List Char) (hasLanguage : Bool)
    (start : Cursor) (stop : Nat) :
    Writes ctx s (s.placeLanguage ctx language hasLanguage start stop) := by
  refine placeLanguage_cases ?passed ?placed ?taken
  case passed => exact .refl
  case placed => exact fun _ _ => (puts_place ..).writes
  case taken => exact fun slot asValue => (Write.take asValue s slot).writes

theorem writes_closeCodeBlock (s : State) (long : LongText) (closing : Cursor) :
    Writes ctx s (s.closeCodeBlock ctx long closing) := by
  rw [closeCodeBlock_eq]
  exact ((writes_placeLanguage ..).trans (Write.note _ _ _).writes).trans
    (writes_closeLongText ..)

theorem writes_onQuote (s : State) (t : Token) (quote : Quote) :
    Writes ctx s (s.onQuote ctx t quote) := by
  refine onQuote_cases ?noted ?passed ?closed ?block
  case noted => exact fun long _ => (Write.note s (some long) s.escape).writes
  case passed => exact fun _ => .refl
  case closed => exact fun _ _ _ _ => writes_closeLongText ..
  case block => exact fun _ _ _ _ _ _ _ => writes_closeCodeBlock ..

theorem writes_onDelimiter (s : State) (t : Token) (c : Char) (justClosed : Bool) :
    Writes ctx s (s.onDelimiter ctx t c justClosed) := by
  have cleared : Writes ctx s { s with escape := none } := (Write.note s s.longText none).writes
  refine onDelimiter_cases ?passed ?escaped ?text ?value ?quoted
  case passed => exact fun _ => cleared
  case escaped => exact fun _ _ _ => cleared.trans (puts_placeText ..).writes
  case text => exact fun _ _ => cleared.trans (puts_placeText ..).writes
  case value => exact fun _ _ => cleared.trans (puts_place ..).writes
  case quoted => exact fun _ _ => cleared.trans (writes_onQuote ..)

theorem writes_onBackslashes (s : State) (t : Token) (count : Nat) (justClosed : Bool) :
    Writes ctx s (s.onBackslashes ctx t count justClosed) := by
  have noted (escape : Option (Cursor × Nat)) : Writes ctx s { s with escape := escape } :=
    (Write.note s s.longText escape).writes
  refine onBackslashes_cases ?passed ?placed
  case passed => exact fun escape _ _ => noted escape
  case placed => exact fun escape _ _ _ => (noted escape).trans (puts_placeText ..).writes

theorem writes_onOther (s : State) (t : Token) (justClosed : Bool) :
    Writes ctx s (s.onOther ctx t justClosed) := by
  refine onOther_cases ?line ?passed ?backslashes ?delimiter ?word
  case line => exact fun _ _ => (puts_closeNamed ..).writes
  case passed => exact fun _ => .refl
  case backslashes => exact fun _ _ _ => writes_onBackslashes ..
  case delimiter => exact fun _ _ _ => writes_onDelimiter ..
  case word => exact fun _ _ _ => (puts_onWord ..).writes

theorem writes_closeAll (s : State) : Writes ctx s (s.closeAll ctx) :=
  ((puts_closeLastSlot s ctx.length []).trans (puts_closeNamed ..)).writes.trans
    (writes_closeLongText ..)

/-! ## What opens no option -/

structure OpensNothing (s s' : State) : Prop where
  family : s'.family = s.family
  named : ∀ named, s'.named = some named → s.named = some named
  slots : s'.taken.length = s.taken.length

namespace OpensNothing

theorem refl (s : State) : OpensNothing s s :=
  ⟨rfl, fun _ opened => opened, rfl⟩

theorem trans {r : State} (first : OpensNothing r s) (second : OpensNothing s s') :
    OpensNothing r s' :=
  ⟨second.family.trans first.family,
    fun named opened => first.named named (second.named named opened),
    second.slots.trans first.slots⟩

theorem noNamed (opens : OpensNothing s s') (noNamed : s.named = none) : s'.named = none := by
  refine Option.eq_none_iff_forall_ne_some.2 fun named opened => ?_
  have before := opens.named named opened
  rw [noNamed] at before
  contradiction

end OpensNothing

theorem Put.opensNothing (put : Put ctx s s') : OpensNothing s s' := by
  have slots := put.keeps.slots
  cases put with
  | hold => exact ⟨rfl, fun _ => id, slots⟩
  | append => exact ⟨rfl, fun _ => id, slots⟩
  | fillSlot =>
      rw [fillSlot_frame] at slots ⊢
      exact ⟨rfl, fun _ => id, slots⟩
  | fillNamed =>
      rw [State.fillNamed, markFilled_frame] at slots ⊢
      exact ⟨rfl, by simp [setValue], slots⟩
  | closeLastSlot =>
      rw [closeLastSlot_frame] at slots ⊢
      exact ⟨rfl, fun _ => id, slots⟩

theorem Write.opensNothing (write : Write ctx s s') : OpensNothing s s' := by
  cases write with
  | put put => exact put.opensNothing
  | note => exact ⟨rfl, fun _ => id, rfl⟩
  | take _ _ slot =>
      have slots := ((Keeps.refl s).take slot).slots
      rw [take_frame] at slots ⊢
      exact ⟨rfl, fun _ => id, slots⟩

theorem Puts.opensNothing (puts : Puts ctx s s') : OpensNothing s s' :=
  puts.invariant (fun put opens => opens.trans put.opensNothing) (.refl s)

theorem Writes.opensNothing (writes : Writes ctx s s') : OpensNothing s s' :=
  writes.invariant (fun write opens => opens.trans write.opensNothing) (.refl s)

/-! ## Tokens -/

theorem moves_onMarker {escapes : Nat} {opening : Opening} {name : String}
    (marker : t.kind = .marker escapes opening name) (s : State) (justClosed : Bool) :
    Moves ctx t s (s.onMarker ctx t escapes opening name justClosed) := by
  have decided {family : Option Family} (behind : FamilyBehind ctx opening s family) :
      Moves ctx t s { s with family := family } := by
    cases behind with
    | same => exact .refl
    | first oneFamily undecided => exact .single (.decide marker oneFamily undecided)
  refine onMarker_cases ?passed ?placed ?opened
  case passed => exact fun family behind _ => decided behind
  case placed =>
    exact fun family _ behind _ => (decided behind).trans (puts_placeText ..).writes.moves
  case opened =>
    intro family option behind declared locked unescaped
    obtain ⟨closed, puts, same⟩ :=
      exists_openNamed { s with family := family } t escapes opening.family option justClosed
    rw [same]
    exact ((decided behind).trans puts.writes.moves).tail (.openNamed marker declared
      (fun oneFamily => puts.opensNothing.family.trans (locked oneFamily)) unescaped _ _)

theorem moves_step (s : State) (t : Token) : Moves ctx t s (s.step ctx t) := by
  have quiet : Moves ctx t s { s with justClosed := false } :=
    (Put.hold s s.held false).writes.moves
  refine step_cases ?marker ?other
  case marker => exact fun _ _ _ marker _ => quiet.trans (moves_onMarker marker ..)
  case other => exact fun _ => quiet.trans (writes_onOther ..).moves

/-! ## Runs -/

section

variable {p : State → Prop}

theorem steps_of_moves {ts : List Token}
    (keep : ∀ t ∈ ts, ∀ {s s'}, Move ctx t s s' → p s → p s') (start : p s) :
    p (s.steps ctx ts) := by
  induction ts generalizing s with
  | nil => exact start
  | cons t ts ih =>
      rw [List.forall_mem_cons] at keep
      rw [steps]
      split
      · exact start
      · exact ih keep.2 ((moves_step s t).invariant keep.1 start)

/-- What the first state and every change keep holds where a parse ends. -/
theorem run_of_moves {message : Option Message} (initial : p (initial ctx))
    (replied : ∀ s, (State.initial ctx).fillReplied? ctx message = some s → p s)
    (write : ∀ {s s'}, Write ctx s s' → p s → p s')
    (keep : ∀ t ∈ tokens ctx.patterns.delimiters ctx.content, ∀ {s s'}, Move ctx t s s' →
      p s → p s') : p (run ctx message) := by
  have whole {s : State} (start : p s) :
      p ((s.steps ctx (tokens ctx.patterns.delimiters ctx.content)).closeAll ctx) :=
    (writes_closeAll _).invariant write (steps_of_moves keep start)
  unfold run
  extract_lets s tokens
  split
  · rename_i s filled
    split
    · exact replied s filled
    · exact whole (replied s filled)
  · exact whole initial

end

end State

end ChatArgs.Parse
