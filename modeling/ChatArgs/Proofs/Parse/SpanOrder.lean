import ChatArgs.Proofs.Parse.NamedOption

/-!
# Spans in order

A parse finds values from the left to the right. `Ordered p bound s` says that the spans of the
options in `p` do not overlap, that they end at `bound` or in front of it, and that the option
filled last has the rightmost one, so that it can be extended. A span that starts behind all
others keeps the order.
-/

namespace ChatArgs.Parse

open Text

namespace State

variable {p : String → Prop} {s s' : State} {bound start stop : Nat} {name : String}

def Spanned (p : String → Prop) (s : State) (name : String) (span : Span) : Prop :=
  p name ∧ s.spans.get? name = some span

structure Ordered (p : String → Prop) (bound : Nat) (s : State) : Prop where
  apart : ∀ {a b : String} {x y : Span}, Spanned p s a x → Spanned p s b y → a ≠ b →
    x.stop ≤ y.start ∨ y.stop ≤ x.start
  behind : ∀ {a : String} {x : Span}, Spanned p s a x → x.stop ≤ bound
  last : ∀ {a b : String} {x y : Span}, s.lastFilled = some b → Spanned p s a x →
    Spanned p s b y → a ≠ b → x.stop ≤ y.start

theorem Spanned.of_insert {span x : Span} {a : String}
    (spans : ∀ other, s'.spans.get? other = if name = other then some span else s.spans.get? other)
    (found : Spanned p s' a x) : a = name ∧ x = span ∨ a ≠ name ∧ Spanned p s a x := by
  obtain ⟨inside, found⟩ := found
  rw [spans] at found
  split at found
  · rename_i same
    exact .inl ⟨same.symm, (Option.some.inj found).symm⟩
  · rename_i other
    exact .inr ⟨fun same => other same.symm, inside, found⟩

namespace Ordered

theorem initial (p : String → Prop) (bound : Nat) (ctx : Context) :
    Ordered p bound (initial ctx) := by
  have none {a : String} {x : Span} : ¬ Spanned p (State.initial ctx) a x := by
    rintro ⟨-, found⟩
    cases found
  exact ⟨fun found => absurd found none, fun found => absurd found none,
    fun _ found => absurd found none⟩

theorem mono (ordered : Ordered p bound s) (le : bound ≤ stop) : Ordered p stop s :=
  ⟨ordered.apart, fun found => (ordered.behind found).trans le, ordered.last⟩

/-- Only the spans and the option filled last count. -/
theorem congr (ordered : Ordered p bound s)
    (spans : ∀ other, s'.spans.get? other = s.spans.get? other)
    (last : s'.lastFilled = s.lastFilled) : Ordered p bound s' := by
  have same {a : String} {x : Span} (found : Spanned p s' a x) : Spanned p s a x := by
    rwa [Spanned, spans] at found
  refine ⟨fun x y => ordered.apart (same x) (same y), fun x => ordered.behind (same x), ?_⟩
  intro a b x y filled
  rw [last] at filled
  exact fun x y => ordered.last filled (same x) (same y)

/-- An option of `p` may be given a span behind all others, and any other option any span. -/
theorem give {span : Span} (ordered : Ordered p bound s)
    (others : p name → ∀ {a : String} {x : Span}, Spanned p s a x → a ≠ name →
      x.stop ≤ span.start)
    (spans : ∀ other, s'.spans.get? other = if name = other then some span else s.spans.get? other)
    (last : s'.lastFilled = some name) (inside : p name → span.stop ≤ bound) :
    Ordered p bound s' := by
  refine ⟨?_, ?_, ?_⟩
  · intro a b x y foundA foundB different
    rcases foundA.of_insert spans with ⟨rfl, rfl⟩ | ⟨otherA, oldA⟩
    · rcases foundB.of_insert spans with ⟨rfl, rfl⟩ | ⟨otherB, oldB⟩
      · exact absurd rfl different
      · exact .inr (others foundA.1 oldB otherB)
    · rcases foundB.of_insert spans with ⟨rfl, rfl⟩ | ⟨otherB, oldB⟩
      · exact .inl (others foundB.1 oldA otherA)
      · exact ordered.apart oldA oldB different
  · intro a x found
    rcases found.of_insert spans with ⟨rfl, rfl⟩ | ⟨other, old⟩
    · exact inside found.1
    · exact ordered.behind old
  · intro a b x y filled foundA foundB different
    rw [last] at filled
    obtain rfl := Option.some.inj filled
    rcases foundB.of_insert spans with ⟨-, rfl⟩ | ⟨otherB, -⟩
    · rcases foundA.of_insert spans with ⟨same, -⟩ | ⟨-, oldA⟩
      · exact absurd same different
      · exact others foundB.1 oldA different
    · exact absurd rfl otherB

theorem fill (ordered : Ordered p bound s) (behind : Ordered p start s)
    (spans : s'.spans = s.spans.insert name ⟨start, stop⟩) (last : s'.lastFilled = some name)
    (inside : stop ≤ bound) : Ordered p bound s' := by
  have given (other : String) : s'.spans.get? other =
      if name = other then some ⟨start, stop⟩ else s.spans.get? other := by
    rw [spans, Entries.get?_insert]
  exact ordered.give (fun _ _ _ old _ => behind.behind old) given last fun _ => inside

theorem fillOther {span : Span} (ordered : Ordered p bound s) (outside : ¬ p name)
    (spans : s'.spans = s.spans.insert name span) (last : s'.lastFilled = some name) :
    Ordered p bound s' := by
  have given (other : String) : s'.spans.get? other =
      if name = other then some span else s.spans.get? other := by
    rw [spans, Entries.get?_insert]
  exact ordered.give (fun inside => absurd inside outside) given last
    fun inside => absurd inside outside

theorem extend {stop' : Nat} (ordered : Ordered p bound s) (last : s.lastFilled = some name)
    (old : s.spans.get? name = some ⟨start, stop'⟩)
    (spans : ∀ other, s'.spans.get? other =
      if name = other then some ⟨start, stop⟩ else s.spans.get? other)
    (last' : s'.lastFilled = some name) (inside : stop ≤ bound) : Ordered p bound s' := by
  refine ordered.give ?_ spans last' fun _ => inside
  intro member a x found other
  exact ordered.last (y := ⟨start, stop'⟩) last found ⟨member, old⟩ other

theorem append (ordered : Ordered p bound s) (last : s.lastFilled = some name)
    (later : bound ≤ stop) (text : String) : Ordered p stop (s.append name text stop) := by
  have ordered := ordered.mono later
  cases old : s.spans.get? name with
  | none =>
      refine ordered.congr ?_ rfl
      intro other
      rw [State.append, Entries.get?_modify]
      split
      · rename_i same
        rw [← same, old]
        rfl
      · rfl
  | some span =>
      refine ordered.extend last old ?_ last (Nat.le_refl stop)
      intro other
      rw [State.append, Entries.get?_modify]
      split
      · rename_i same
        rw [← same, old]
        rfl
      · rfl

end Ordered

end State

end ChatArgs.Parse
