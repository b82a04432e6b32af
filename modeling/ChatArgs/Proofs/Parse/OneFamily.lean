import ChatArgs.Proofs.Parse.Moves
import ChatArgs.Proofs.Parse.Transitions

/-!
# One family of markers

If the configuration says so, the first marker of a declared option decides the family of all
markers that open options. The decision stays as it is until the text ends, and every option is
opened by a marker of that family, so no two options of a parse are opened by markers of two.
-/

namespace ChatArgs

namespace Parse

open Text

namespace State

variable {ctx : Context} {s s' : State}

/-! ## The family that is decided -/

/-- A family that is decided stays so, and an option is opened only by a marker of that family. -/
structure Locks (t : Token) (s s' : State) : Prop where
  family : ∀ family, s.family = some family → s'.family = some family
  named : ∀ named, s'.named = some named →
    s.named = some named ∨ s'.family = some named.family ∧ t.family? = some named.family

namespace Locks

variable {t : Token}

theorem refl (t : Token) (s : State) : Locks t s s :=
  ⟨fun _ decided => decided, fun _ opened => .inl opened⟩

theorem trans {r : State} (first : Locks t r s) (second : Locks t s s') : Locks t r s' where
  family _ decided := second.family _ (first.family _ decided)
  named named opened := by
    rcases second.named named opened with before | behind
    · exact (first.named named before).imp_right fun decided =>
        ⟨second.family _ decided.1, decided.2⟩
    · exact .inr behind

/-- The first marker of a declared option decides the family, and later ones have to be of it. -/
theorem of_move (oneFamily : ctx.config.oneFamily = true) (move : Move ctx t s s') :
    Locks t s s' := by
  cases move with
  | write write =>
      have opens := write.opensNothing
      exact ⟨fun _ decided => opens.family.trans decided,
        fun named opened => .inl (opens.named named opened)⟩
  | decide marker _ undecided => exact ⟨by simp [undecided], fun named opened => .inl opened⟩
  | openNamed marker _ decided =>
      refine ⟨fun _ decided => decided, fun named opened => .inr ?_⟩
      obtain rfl := Option.some.inj opened
      exact ⟨decided oneFamily, by rw [Token.family?, marker]⟩

theorem step (oneFamily : ctx.config.oneFamily = true) (s : State) (t : Token) :
    Locks t s (s.step ctx t) :=
  (moves_step s t).invariant (fun move locks => locks.trans (of_move oneFamily move)) (.refl t s)

end Locks

/-! ## Every option that is opened -/

/-- Behind a family that is decided only markers of that family open options. -/
theorem family_of_opens (oneFamily : ctx.config.oneFamily = true) {family : Family}
    (decided : s.family = some family) (ts : List Token) :
    ∀ tr ∈ s.transitions ctx ts, ∀ named, tr.Opens named →
      tr.token.family? = some family ∧ named.family = family := by
  intro tr member named opens
  obtain ⟨-, decided, after⟩ := forall_transitions (p := fun s => s.family = some family) decided
    (fun t _ s decided => (Locks.step oneFamily s t).family family decided) tr member
  have locks := Locks.step oneFamily tr.before tr.token
  rw [← after] at locks
  obtain ⟨decided', marker⟩ := (locks.named named opens.1).resolve_left opens.2
  obtain rfl : named.family = family :=
    Option.some.inj (decided'.symm.trans (locks.family family decided))
  exact ⟨marker, rfl⟩

/-- The marker that opens the first option decides the family for all of them. -/
theorem exists_family_of_opens (oneFamily : ctx.config.oneFamily = true) (s : State)
    (ts : List Token) :
    ∃ family, ∀ tr ∈ s.transitions ctx ts, ∀ named, tr.Opens named →
      tr.token.family? = some family ∧ named.family = family := by
  induction ts generalizing s with
  | nil => exact ⟨.hyphen, by simp [transitions]⟩
  | cons t ts ih =>
      have locks := Locks.step oneFamily s t
      rw [transitions]
      split
      · exact ⟨.hyphen, by simp⟩
      -- The family is decided by the first marker that opens an option, or by an earlier one.
      · by_cases first : ∃ named, (Transition.mk s t (s.step ctx t)).Opens named
        · obtain ⟨named, opens⟩ := first
          obtain ⟨decided, marker⟩ := (locks.named named opens.1).resolve_left opens.2
          refine ⟨named.family, List.forall_mem_cons.2 ⟨?_, family_of_opens oneFamily decided ts⟩⟩
          intro other opens'
          obtain rfl := Option.some.inj (opens.1.symm.trans opens'.1)
          exact ⟨marker, rfl⟩
        · obtain ⟨family, later⟩ := ih (s.step ctx t)
          exact ⟨family, List.forall_mem_cons.2
            ⟨fun named opens => absurd ⟨named, opens⟩ first, later⟩⟩

end State

end Parse

open Parse

namespace Command

/-- All options that are opened during a parse are opened by markers of the same family, if the
configuration asks for it. -/
theorem parse_oneFamily {command : Command} {shared : Config}
    (oneFamily : ((Table.ofCommand command).configFor shared).oneFamily = true) (content : String)
    (message : Option Message) :
    ∃ family, ∀ tr ∈ command.transitions shared content message, ∀ named, tr.Opens named →
      tr.token.family? = some family ∧ named.family = family := by
  unfold transitions
  extract_lets table config
  split
  · exact ⟨.hyphen, by simp⟩
  · unfold State.runTransitions
    split
    · exact ⟨.hyphen, by simp⟩
    · exact State.exists_family_of_opens oneFamily _ _

/-- Markers with colons open two options; the marker with hyphens between them opens none. -/
theorem parse_oneFamily_colons :
    let steps := Command.transitions ⟨"say", [{ name := "a" }, { name := "b" }], none⟩
      { oneFamily := true } "a: x --b y b: z" none
    steps.map (·.after.named.map (·.option.name)) =
        [some "a", some "a", some "a", some "a", some "b", some "b"] ∧
      ∃ family, ∀ tr ∈ steps, ∀ named, tr.Opens named →
        tr.token.family? = some family ∧ named.family = family :=
  ⟨by decide +kernel, parse_oneFamily rfl _ none⟩

end Command

end ChatArgs
