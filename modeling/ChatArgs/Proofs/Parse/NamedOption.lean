import ChatArgs.Proofs.Parse.Cases
import ChatArgs.Proofs.Parse.Sweep

/-!
# Markers with hyphens

A marker is read as it is written, and opens its option: what was open before is closed in front
of it.
-/

namespace ChatArgs.Parse

open Text

def markerOf (name : String) : List Char :=
  '-' :: '-' :: name.toList

theorem nameAt?_identifier {name rest : List Char} (valid : IsIdentifier name)
    (stop : ∀ c ∈ rest.head?, isNamePart c = false) : nameAt? (name ++ rest) = some name := by
  obtain ⟨⟨c, head, start⟩, parts⟩ := valid
  have run : (name ++ rest).takeWhile isNamePart = name := takeWhile_append_stop parts stop
  cases name with
  | nil => simp at head
  | cons x name =>
      have same : x = c := Option.some.inj head
      rw [List.cons_append] at run ⊢
      rw [nameAt?, same, if_pos start, ← same, run]

def signLength (rest : List Char) : Nat :=
  if rest.head? = some '=' ∨ rest.head? = some ':' then 1 else 0

theorem hyphenName?_identifier {name rest : List Char} (valid : IsIdentifier name)
    (stop : ∀ c ∈ rest.head?, isNamePart c = false) (escapes hyphens : Nat) :
    hyphenName? escapes hyphens (name ++ rest) =
      some (.marker escapes (.hyphens hyphens) (String.ofList name),
        escapes + hyphens + name.length + signLength rest) := by
  rw [hyphenName?, nameAt?_identifier valid stop]
  cases rest with
  | nil => simp [signLength]
  | cons c rest => simp [signLength]

section

variable {d : Delimiters} {count : Nat} {name rest : List Char}
  (enabled : count = 1 ∧ d.hasSingleHyphen = true ∨ count = 2 ∧ d.hasDoubleHyphen = true)
  (valid : IsIdentifier name)
include enabled valid

theorem hyphenMarker?_identifier (escapes : Nat) :
    hyphenMarker? d escapes (List.replicate count '-' ++ (name ++ rest)) =
      hyphenName? escapes count (name ++ rest) := by
  obtain ⟨⟨c, head, start⟩, -⟩ := valid
  obtain ⟨more, rfl⟩ : ∃ more, name = c :: more := by
    cases name with
    | nil => simp at head
    | cons y more => exact ⟨more, by rw [Option.some.inj head]⟩
  have noHyphen : '-' ≠ c := by
    rintro rfl
    exact absurd start (by decide)
  have some : hyphenName? escapes count (c :: more ++ rest) ≠ none := by
    simp [hyphenName?, nameAt?, start]
  rcases enabled with ⟨rfl, single⟩ | ⟨rfl, double⟩
  · simp [hyphenMarker?, hyphensMarker?, single, List.replicate, noHyphen]
  · obtain ⟨found, read⟩ := Option.ne_none_iff_exists'.1 some
    simp only [List.cons_append] at read
    simp [hyphenMarker?, hyphensMarker?, double, List.replicate, read]

/-- The backslashes in front of a marker and the sign behind its name belong to it. -/
theorem tokenAt?_hyphens (stop : ∀ c ∈ rest.head?, isNamePart c = false) (escapes : Nat) :
    tokenAt? d (backslashes escapes ++ (List.replicate count '-' ++ (name ++ rest))) =
      some (.marker escapes (.hyphens count) (String.ofList name),
        escapes + count + name.length + signLength rest) := by
  generalize whole : backslashes escapes ++ (List.replicate count '-' ++ (name ++ rest)) = text
  have run : text.takeWhile (· == '\\') = backslashes escapes := by
    rw [← whole]
    apply takeWhile_append_stop
    · simp [backslashes]
    · rcases enabled with ⟨rfl, -⟩ | ⟨rfl, -⟩ <;> simp [List.replicate]
  have behind : text.drop escapes = List.replicate count '-' ++ (name ++ rest) := by
    rw [← whole]
    exact List.drop_left' (length_backslashes escapes)
  have marked : marker? d true text =
      some (.marker escapes (.hyphens count) (String.ofList name),
        escapes + count + name.length + signLength rest) := by
    simp only [marker?, run, length_backslashes, behind, hyphenMarker?_identifier enabled valid,
      hyphenName?_identifier valid stop]
  simp [tokenAt?, matchAt?, marked]

end

theorem tokenAt?_markerOf {d : Delimiters} {name : String} (enabled : d.hasDoubleHyphen = true)
    (valid : IsIdentifier name.toList) (rest : List Char) :
    tokenAt? d (markerOf name ++ ' ' :: rest) =
      some (.marker 0 (.hyphens 2) name, (markerOf name).length) := by
  have found := @tokenAt?_hyphens d 2 _ (' ' :: rest) (.inr ⟨rfl, enabled⟩) valid
    (by simp; decide) 0
  have size : (markerOf name).length = 2 + name.toList.length := by
    simp [markerOf]
    omega
  rw [size]
  simpa [markerOf, backslashes, List.replicate, signLength] using found

namespace State

variable {ctx : Context} {s : State}

def locked (ctx : Context) (s : State) : State :=
  if ctx.config.oneFamily then { s with family := some .hyphen } else s

def opened (ctx : Context) (option : OptionDecl) (start stop : Cursor) (s : State) : State :=
  { s.closeNamed ctx start.offset with named := some ⟨option, stop, start.offset, .hyphen⟩ }

/-! ## What closing an option leaves as it is -/

theorem closeNamed_frame (ctx : Context) (stop : Nat) (s : State) :
    s.closeNamed ctx stop =
      { s with
        values := (s.closeNamed ctx stop).values
        spans := (s.closeNamed ctx stop).spans
        taken := (s.closeNamed ctx stop).taken
        takenCount := (s.closeNamed ctx stop).takenCount
        filledFlags := (s.closeNamed ctx stop).filledFlags
        named := none
        lastFilled := (s.closeNamed ctx stop).lastFilled
        justClosed := (s.closeNamed ctx stop).justClosed } := by
  refine closeNamed_cases ?passed ?closed
  case passed =>
    intro none
    rw [← none]
  case closed =>
    intro named value start stop' _ _
    rw [fillNamed, markFilled_frame]
    rfl

/-! ## Opening an option -/

theorem openNamed_eq {option : OptionDecl} (noHeld : s.held = none) (noLast : s.lastSlot = none)
    (t : Token) (justClosed : Bool) :
    s.openNamed ctx t 0 .hyphen option justClosed = s.opened ctx option t.start t.stop := by
  have noLast' : (s.closeNamed ctx t.start.offset).lastSlot = none := by
    rw [closeNamed_frame]
    exact noLast
  have flushed : s.flushHeld ctx t.start.offset = s := by simp [flushHeld, noHeld]
  simp [openNamed, backslashes, flushed, closeLastSlot, noLast', opened]

/-- A marker of a declared option opens it, unless markers are written with colons here. -/
theorem onMarker_eq_openNamed {name : String} {option : OptionDecl}
    (family : s.family ≠ some .colon) (declared : ctx.table.option? name = some option) (t : Token)
    (justClosed : Bool) :
    s.onMarker ctx t 0 (.hyphens 2) name justClosed =
      (s.locked ctx).openNamed ctx t 0 .hyphen option justClosed := by
  have opens (s' : State) : s'.declaredMarker ctx t 0 (.hyphens 2) option name justClosed =
      s'.openNamed ctx t 0 .hyphen option justClosed := rfl
  rw [onMarker, declared, locked]
  cases lock : ctx.config.oneFamily with
  | false => simp only [opens, Bool.false_eq_true, if_false]
  | true =>
      simp only [opens, if_true]
      cases known : s.family with
      | none => rfl
      | some other =>
          have hyphen : other = .hyphen := by
            cases other with
            | hyphen => rfl
            | colon => exact absurd known family
          subst hyphen
          have same : ({ s with family := some .hyphen } : State) = s := by rw [← known]
          rw [same]
          rfl

theorem step_eq_onMarker (noLong : s.longText = none) (escapes : Nat) (opening : Opening)
    (name : String) (c : Cursor) (text rest : List Char) :
    s.step ctx (.reading (.marker escapes opening name) c text rest) =
      ({ s with justClosed := false } : State).onMarker ctx
        (.reading (.marker escapes opening name) c text rest) escapes opening name
        s.justClosed := by
  rw [step, noLong]
  rfl

theorem step_marker {name : String} {option : OptionDecl} (noLong : s.longText = none)
    (noHeld : s.held = none) (noLast : s.lastSlot = none) (family : s.family ≠ some .colon)
    (declared : ctx.table.option? name = some option) (c : Cursor) (text rest : List Char) :
    s.step ctx (.reading (.marker 0 (.hyphens 2) name) c text rest) =
      (({ s with justClosed := false } : State).locked ctx).opened ctx option c
        (c.past text rest) := by
  rw [step_eq_onMarker noLong,
    onMarker_eq_openNamed (s := { s with justClosed := false }) family declared]
  apply openNamed_eq
  · unfold locked
    split <;> exact noHeld
  · unfold locked
    split <;> exact noLast

theorem sweep_marker {c : Cursor} {name : String} {option : OptionDecl} {rest : List Char}
    (noLong : s.longText = none) (noHeld : s.held = none) (noLast : s.lastSlot = none)
    (family : s.family ≠ some .colon) (declared : ctx.table.option? name = some option)
    (enabled : ctx.patterns.delimiters.hasDoubleHyphen = true) (valid : IsIdentifier name.toList)
    (goes : s.stops ctx = false) (split : c.rest = markerOf name ++ ' ' :: rest) :
    s.sweep ctx c =
      ((({ s with justClosed := false } : State).locked ctx).opened ctx option c
        (c.past (markerOf name) (' ' :: rest))).sweep ctx
        (c.past (markerOf name) (' ' :: rest)) := by
  have found := tokenAt?_markerOf enabled valid rest
  rw [← split] at found
  rw [sweep_token split found goes, step_marker noLong noHeld noLast family declared]

end State

end ChatArgs.Parse
