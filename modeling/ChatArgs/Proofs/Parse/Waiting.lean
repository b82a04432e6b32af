import ChatArgs.Proofs.Parse.Apart

/-!
# Text that waits

Text between words is held only while a visible character follows, which takes it along to a
slot. In a text without quotes and backslashes nothing else can stop it on its way, so where
such a text ends, text is held only if there is no slot for it.
-/

namespace ChatArgs.Parse

open Text

structure Unquoted (d : Delimiters) (cs : List Char) : Prop where
  backslash : '\\' ∉ cs
  quote : ∀ c ∈ cs, d.isQuoteChar c = false

theorem Unquoted.of_append {d : Delimiters} {front rest : List Char}
    (unquoted : Unquoted d (front ++ rest)) : Unquoted d front ∧ Unquoted d rest := by
  obtain ⟨backslash, quote⟩ := unquoted
  simp only [List.mem_append, not_or] at backslash
  exact ⟨⟨backslash.1, fun c member => quote c (List.mem_append_left rest member)⟩,
    ⟨backslash.2, fun c member => quote c (List.mem_append_right front member)⟩⟩

theorem Unquoted.tail {d : Delimiters} {x : Char} {rest : List Char}
    (unquoted : Unquoted d (x :: rest)) : Unquoted d rest :=
  ⟨fun member => unquoted.backslash (List.mem_cons_of_mem x member),
    fun c member => unquoted.quote c (List.mem_cons_of_mem x member)⟩

namespace State

variable {ctx : Context} {s : State}

/-- Text is held only for a visible character, if there is a slot for it and nothing else is
open. -/
def Waits (next : Option Char) (s : State) : Prop :=
  s.held ≠ none → isVisible next = true ∨ s.freeSlot? = none ∨ s.named ≠ none ∨ s.lastSlot ≠ none

theorem fillSlot_waits (slots : s.taken.length = ctx.table.slots.length) (next : Option Char)
    (value : String) (start : Cursor) (stop : Nat) (long : Bool) :
    Waits next (s.fillSlot ctx value start stop long) := by
  intro holds
  cases free : s.freeSlot? with
  | none =>
      have same : s.fillSlot ctx value start stop long = s := by simp [fillSlot, free]
      rw [same]
      exact .inr (.inl free)
  | some slot =>
      exfalso
      have bound : slot < ctx.table.slots.length := by
        rw [← slots]
        exact (List.findIdx?_eq_some_iff_getElem.1 free).1
      apply holds
      simp only [fillSlot, free, List.getElem?_eq_getElem bound]
      rw [take_frame]
      rfl

theorem place_waits (slots : s.taken.length = ctx.table.slots.length)
    (noSingle : s.openSingle? ctx = none) (next : Option Char) (value : String) (start : Cursor)
    (stop : Nat) : Waits next (s.place ctx value start stop false) := by
  refine place_cases ?named ?apart ?slot
  case named => simp [noSingle]
  case apart => simp
  case slot => exact fun _ _ => fillSlot_waits slots next value start stop false

theorem placeText_waits (slots : s.taken.length = ctx.table.slots.length)
    (noSingle : s.openSingle? ctx = none) (text : String) (start : Cursor) (stop : Nat)
    (next : Option Char) (justClosed : Bool) :
    Waits next (s.placeText ctx text start stop next justClosed) := by
  refine placeText_cases ?passed ?glued ?held ?placed
  case passed => exact fun opened _ => .inr (.inr (.inl opened))
  case glued => exact fun _ _ _ noHeld _ _ holds => absurd noHeld holds
  case held => exact fun _ visible _ _ => .inl visible
  case placed => exact fun _ _ _ => place_waits slots noSingle next _ _ _

/-! ## Tokens -/

section

variable (slots : s.taken.length = ctx.table.slots.length) (noSingle : s.openSingle? ctx = none)
include slots noSingle

theorem onMarker_waits (t : Token) (escapes : Nat) (opening : Opening) (name : String)
    (justClosed : Bool) :
    Waits t.stop.after (s.onMarker ctx t escapes opening name justClosed) := by
  refine onMarker_cases ?passed ?placed ?opened
  case passed => exact fun _ _ last _ => .inr (.inr (.inr last))
  case placed =>
    intro family text _ _
    exact placeText_waits (s := { s with family := family }) slots noSingle _ _ _ _ _
  case opened => exact fun _ _ _ _ _ _ _ => .inr (.inr (.inl (by simp [openNamed])))

theorem onWord_waits (t : Token) (justClosed : Bool) :
    Waits t.stop.after (s.onWord ctx t justClosed) := by
  refine onWord_cases ?glued ?placed
  case glued => exact fun _ _ noHeld _ holds => absurd noHeld holds
  case placed => exact place_waits slots noSingle _ _ _ _

end

theorem onDelimiter_eq {t : Token} {c : Char} (noEscape : s.escape = none)
    (noQuote : Quote.ofChar? c = none) (noLong : s.longText = none) (justClosed : Bool) :
    s.onDelimiter ctx t c justClosed =
      if s.delimiterIsValue ctx t then s.place ctx (String.ofList [c]) t.start t.stop.offset false
      else s.placeText ctx (String.ofList [c]) t.start t.stop.offset t.stop.after justClosed := by
  have cleared : ({ s with escape := none } : State) = s := by rw [← noEscape]
  simp only [onDelimiter, noEscape, Option.filter_none]
  rw [cleared, onBareDelimiter, noQuote]
  simp only [noLong, Option.isNone_none, if_true]

/-! ## Steps -/

/-- No quote and no escape is open, and `Waits`. -/
structure Settled (ctx : Context) (next : Option Char) (s : State) : Prop where
  longText : s.longText = none
  escape : s.escape = none
  slots : s.taken.length = ctx.table.slots.length
  waits : Waits next s

theorem Settled.of_keeps {s' : State} {next next' : Option Char} (settled : Settled ctx next s)
    (keeps : Keeps s s') (waits : Waits next' s') : Settled ctx next' s' :=
  ⟨keeps.longText.trans settled.longText, keeps.escape.trans settled.escape,
    keeps.slots.trans settled.slots, waits⟩

theorem Settled.quiet {next : Option Char} (settled : Settled ctx next s) :
    Settled ctx next { s with justClosed := false } :=
  ⟨settled.longText, settled.escape, settled.slots, settled.waits⟩

theorem Settled.of_gap {next : Option Char} (settled : Settled ctx next s)
    (gap : isVisible next = false) (next' : Option Char) : Settled ctx next' s :=
  settled.of_keeps (.refl s) fun holds => (settled.waits holds).imp_left (by simp [gap])

theorem Settled.onOther {t : Token} {text rest : List Char}
    (settled : Settled ctx t.start.after s) (noSingle : s.openSingle? ctx = none)
    (token : TokenFront ctx.patterns.delimiters t.kind text rest)
    (unquoted : Unquoted ctx.patterns.delimiters text) (split : t.start.rest = text ++ rest)
    (noMarker : ∀ escapes opening name, t.kind ≠ .marker escapes opening name)
    (justClosed : Bool) : Settled ctx t.stop.after (s.onOther ctx t justClosed) := by
  refine onOther_cases ?line ?passed ?backslashes ?delimiter ?word
  case line => exact fun named found => by simp [noSingle] at found
  case passed =>
    rintro (last | named | long | lineFeeds | ⟨escapes, opening, name, kind⟩)
    · exact settled.of_keeps (.refl s) fun _ => .inr (.inr (.inr last))
    · exact settled.of_keeps (.refl s) fun _ => .inr (.inr (.inl named))
    · exact absurd settled.longText long
    · rw [lineFeeds] at token
      apply settled.of_gap
      cases token with
      | @lineFeeds count _ positive _ =>
          obtain ⟨fewer, rfl⟩ : ∃ fewer, count = fewer + 1 := ⟨count - 1, by omega⟩
          rw [Cursor.after, split]
          rfl
    · exact absurd kind (noMarker _ _ _)
  case backslashes =>
    intro count kind _
    rw [kind] at token
    cases token with
    | backslashes positive _ _ _ =>
        exact absurd (List.mem_replicate.2 ⟨positive.ne', rfl⟩) unquoted.backslash
  case delimiter =>
    intro c kind _
    rw [kind] at token
    have noQuote : Quote.ofChar? c = none := by
      cases token with
      | delimiter isDelimiter =>
          exact ofChar?_eq_none_of_isDelimiterChar isDelimiter (unquoted.quote c List.mem_cons_self)
    rw [onDelimiter_eq settled.escape noQuote settled.longText]
    split
    · exact settled.of_keeps (puts_place ..).keeps
        (place_waits settled.slots noSingle _ _ _ _)
    · exact settled.of_keeps (puts_placeText ..).keeps
        (placeText_waits settled.slots noSingle _ _ _ _ _)
  case word =>
    exact fun _ _ _ => settled.of_keeps (puts_onWord ..).keeps
      (onWord_waits settled.slots noSingle t justClosed)

theorem Settled.step {t : Token} {text rest : List Char} (settled : Settled ctx t.start.after s)
    (noSingle : s.openSingle? ctx = none)
    (token : TokenFront ctx.patterns.delimiters t.kind text rest)
    (unquoted : Unquoted ctx.patterns.delimiters text) (split : t.start.rest = text ++ rest) :
    Settled ctx t.stop.after (s.step ctx t) := by
  have quiet := settled.quiet
  refine step_cases ?marker ?other
  case marker =>
    exact fun _ _ _ _ _ => quiet.of_keeps (keeps_onMarker ..)
      (onMarker_waits quiet.slots noSingle _ _ _ _ _)
  case other =>
    exact fun noMarker => quiet.onOther noSingle token unquoted split (noMarker settled.longText) _

/-! ## Runs -/

theorem Settled.initial (ctx : Context) (next : Option Char) :
    Settled ctx next (State.initial ctx) :=
  ⟨rfl, rfl, List.length_map .., fun holds => absurd rfl holds⟩

/-- Where no option takes one value, none is open that does. -/
theorem Reads.openSingle?_eq_none {mark bound : Nat}
    (reads : Reads ctx (fun _ => True) mark bound s) :
    s.openSingle? ctx = none := by
  unfold openSingle?
  cases reads.phase with
  | slots noNamed _ => simp [noNamed]
  | single _ _ outside _ _ => exact absurd trivial outside
  | whole opened whole _ _ _ _ _ _ => simp [opened, whole]
  | last _ _ _ noNamed _ _ => simp [noNamed]

theorem Settled.sweep {c : Cursor} (settled : Settled ctx c.after s)
    (reads : ReadsAt ctx (fun _ => True) c s) (outside : SingleOutside ctx fun _ => True)
    (unquoted : Unquoted ctx.patterns.delimiters c.rest)
    (goesOn : ctx.config.stopWhenFilled = false) : Settled ctx none (s.sweep ctx c) := by
  induction c, s using sweep_induction ctx with
  | finish c s ends =>
      rcases ends with ends | stops
      · rw [sweep_end ends]
        rwa [Cursor.after, ends] at settled
      · simp [State.stops, goesOn] at stops
  | skip c s x rest split gap none goes ih =>
      rw [sweep_skip split none]
      have hidden : isVisible c.after = false := by
        rw [Cursor.after, split]
        simp [isVisible, gap]
      rw [split] at unquoted
      exact ih (settled.of_gap hidden _) (reads.skip x rest) unquoted.tail
  | token c s kind text rest split front found goes ih =>
      rw [sweep_token split found goes]
      rw [split] at unquoted
      obtain ⟨inside, behind⟩ := unquoted.of_append
      have noSingle := reads.reads.openSingle?_eq_none
      exact ih (settled.step (t := .reading kind c text rest) noSingle front inside split)
        (reads.step (t := .reading kind c text rest) outside front split rfl) behind

end State

end ChatArgs.Parse
