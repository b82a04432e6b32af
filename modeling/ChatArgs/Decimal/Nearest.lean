/-! # The double nearest to a fraction

The positive doubles in increasing order have the codes 0, 1, 2 and so on: a double
`m * 2^q` whose lowest place is `2^q` has the code `(q + 1074) * 2^52 + m`, where `m`
has 53 bits, or fewer when `q` is -1074. So rounding a fraction means to find the place
and to divide; a quotient that is rounded up to the next power of two has the right
code by itself. All arithmetic is exact, on natural numbers.
-/

namespace ChatArgs.Decimal

/-- A quotient rounded to the nearest whole number; a half goes to the even neighbour. -/
def roundQuotient (numerator denominator : Nat) : Nat :=
  let quotient := numerator / denominator
  let twice := 2 * (numerator % denominator)
  if twice < denominator then quotient
  else if denominator < twice then quotient + 1
  else quotient + quotient % 2

/-- A fraction times a power of two, as numerator and denominator. -/
def shiftFraction (numerator denominator : Nat) (places : Int) : Nat × Nat :=
  (numerator * Nat.pow 2 places.toNat, denominator * Nat.pow 2 (-places).toNat)

/-- The exponent of the highest power of two that is not above a positive fraction. -/
def fractionLog2 (numerator denominator : Nat) : Int :=
  let guess : Int := Int.ofNat numerator.log2 - Int.ofNat denominator.log2
  let (n, d) := shiftFraction numerator denominator (-guess)
  if n < d then guess - 1 else guess

/-- The code of infinity: all codes below it belong to finite doubles. -/
def infinityCode : Nat := 2047 * Nat.pow 2 52

/-- The code of the double nearest to a fraction. -/
def nearestCode (numerator denominator : Nat) : Nat :=
  if numerator == 0 then 0
  else
    let place := max (fractionLog2 numerator denominator - 52) (-1074)
    let (n, d) := shiftFraction numerator denominator (-place)
    min infinityCode ((place + 1074).toNat * Nat.pow 2 52 + roundQuotient n d)

/-- The double nearest to `digits * 10^exponent`. Exponents far outside the range of
doubles are not carried out. -/
def nearestFloat (digits : Nat) (exponent : Int) : Float :=
  let size : Int := (Nat.toDigits 10 digits).length
  let code :=
    if digits == 0 || size + exponent < -330 then 0
    else if 310 < size + exponent then infinityCode
    else nearestCode (digits * Nat.pow 10 exponent.toNat) (Nat.pow 10 (-exponent).toNat)
  Float.ofBits (UInt64.ofNat code)

end ChatArgs.Decimal
