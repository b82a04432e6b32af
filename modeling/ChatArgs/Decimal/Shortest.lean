/-! # The shortest decimal of a binary fraction

A finite positive double is `m * 2^q`. The reals that round to it form an interval
around it, with the ends included exactly when `m` is even. `shortest` is the
decimal `digits * 10^exponent` with the fewest digits in that interval, and of
those the one nearest to the value: for one digit, two digits and so on it tests
the two neighbours of the value on the decimal grid with that many digits. Where
both are equally near, the caller's `Tie` decides. All arithmetic is exact, on
natural numbers.
-/

namespace ChatArgs.Decimal

/-- A positive value `mantissa * 2^exponent`; `narrowBelow` says that the next smaller
double lies at half the distance of the next larger one. -/
structure Binary where
  mantissa : Nat
  exponent : Int
  narrowBelow : Bool
deriving Repr, DecidableEq

/-- The value `digits * 10^exponent`. -/
structure Expansion where
  digits : Nat
  exponent : Int
deriving Repr, DecidableEq

/-- Which of two equally near neighbours on a grid is taken. -/
inductive Tie where
  /-- The one with the even last digit. -/
  | toEven
  /-- The larger one. -/
  | up
deriving Repr, DecidableEq

/-- Of two equally near neighbours the upper one is taken. -/
def Tie.takesUpper (tie : Tie) (lower : Nat) : Bool :=
  match tie with
  | .toEven => lower % 2 == 1
  | .up => true

/-- The value and the distances to the two ends of its rounding interval, as
numerators over one denominator. -/
structure Scaled where
  value : Nat
  below : Nat
  above : Nat
  denominator : Nat
  /-- The ends of the interval belong to it. -/
  closed : Bool
deriving Repr

/-- All quantities in quarters of the last place of the mantissa. -/
def Binary.scaled (b : Binary) : Scaled :=
  let up := Nat.pow 2 b.exponent.toNat
  let down := Nat.pow 2 (-b.exponent).toNat
  { value := 4 * b.mantissa * up
    below := (if b.narrowBelow then 1 else 2) * up
    above := 2 * up
    denominator := 4 * down
    closed := b.mantissa % 2 == 0 }

/-- The decimal `digits * 10^exponent` rounds to the value. -/
def Scaled.accepts (s : Scaled) (digits : Nat) (exponent : Int) : Bool :=
  let up := Nat.pow 10 exponent.toNat
  let down := Nat.pow 10 (-exponent).toNat
  let point := digits * up * s.denominator
  let low := (s.value - s.below) * down
  let high := (s.value + s.above) * down
  if s.closed then low ≤ point && point ≤ high else low < point && point < high

/-- The largest multiple of `10^exponent` that is not above the value. -/
def Scaled.gridFloor (s : Scaled) (exponent : Int) : Nat :=
  let up := Nat.pow 10 exponent.toNat
  let down := Nat.pow 10 (-exponent).toNat
  s.value * down / (up * s.denominator)

/-- The upper neighbour on the grid is nearer than the lower one, or wins the tie. -/
def Scaled.upperNearer (s : Scaled) (tie : Tie) (lower : Nat) (exponent : Int) : Bool :=
  let up := Nat.pow 10 exponent.toNat
  let down := Nat.pow 10 (-exponent).toNat
  let twice := 2 * s.value * down
  let middle := (2 * lower + 1) * up * s.denominator
  if twice == middle then tie.takesUpper lower else middle < twice

/-- The neighbour of the value on one grid that rounds to it: the nearer if both do. -/
def Scaled.onGrid? (s : Scaled) (tie : Tie) (exponent : Int) : Option Expansion :=
  let lower := s.gridFloor exponent
  let lowerOk := lower != 0 && s.accepts lower exponent
  let upperOk := s.accepts (lower + 1) exponent
  if lowerOk && upperOk then
    some ⟨if s.upperNearer tie lower exponent then lower + 1 else lower, exponent⟩
  else if lowerOk then some ⟨lower, exponent⟩
  else if upperOk then some ⟨lower + 1, exponent⟩
  else none

/-- Tries finer and finer grids. -/
def Scaled.search (s : Scaled) (tie : Tie) : Nat → Int → Expansion
  | 0, exponent => ⟨s.gridFloor exponent, exponent⟩
  | fuel + 1, exponent =>
      match s.onGrid? tie exponent with
      | some found => found
      | none => s.search tie fuel (exponent - 1)

/-- Worker: zeros at the end of the digits move into the exponent. -/
def Expansion.strippedAux : Nat → Expansion → Expansion
  | 0, d => d
  | fuel + 1, d =>
      if d.digits != 0 && d.digits % 10 == 0 then
        strippedAux fuel ⟨d.digits / 10, d.exponent + 1⟩
      else d

/-- The same value without zeros at the end of the digits. -/
def Expansion.stripped (d : Expansion) : Expansion :=
  strippedAux d.digits.log2.succ d

/-- A power of ten that is not below the value: its exponent. -/
def Scaled.magnitude (s : Scaled) : Int :=
  let bits : Int := Int.ofNat s.value.log2 - Int.ofNat s.denominator.log2 + 1
  bits * 30103 / 100000 + 1

/-- The shortest decimal that rounds to a positive value. Eighteen digits are enough
for every double; the first grids, coarser than the value, cost nothing. -/
def Binary.shortest (b : Binary) (tie : Tie) : Expansion :=
  let s := b.scaled
  (s.search tie 24 s.magnitude).stripped

end ChatArgs.Decimal
