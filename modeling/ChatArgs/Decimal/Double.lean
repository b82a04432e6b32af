import ChatArgs.Decimal.Shortest

/-! # Doubles taken apart

The 64 bits of a double are a sign, an exponent and a fraction. `Double.ofBits` turns
them into one of four kinds of number.
-/

namespace ChatArgs.Decimal

/-- What a double is. -/
inductive Double where
  | nan
  | infinite (negative : Bool)
  | zero (negative : Bool)
  | finite (negative : Bool) (magnitude : Binary)
deriving Repr, DecidableEq

def Double.ofBits (bits : Nat) : Double :=
  let negative := bits / Nat.pow 2 63 % 2 == 1
  let field := bits / Nat.pow 2 52 % Nat.pow 2 11
  let fraction := bits % Nat.pow 2 52
  if field == 2047 then
    if fraction == 0 then .infinite negative else .nan
  else if field == 0 then
    if fraction == 0 then .zero negative
    else .finite negative ⟨fraction, -1074, false⟩
  else
    .finite negative
      ⟨Nat.pow 2 52 + fraction, Int.ofNat field - 1075, fraction == 0 && field != 1⟩

def Double.ofFloat (x : Float) : Double :=
  .ofBits x.toBits.toNat

/-- A finite number without a fractional part. -/
def Double.isIntegral : Double → Bool
  | .zero _ => true
  | .finite _ m => m.mantissa % Nat.pow 2 (-m.exponent).toNat == 0
  | _ => false

end ChatArgs.Decimal
