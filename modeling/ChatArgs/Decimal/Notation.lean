import ChatArgs.Decimal.Double

/-! # Written forms of doubles

A number is written with its shortest digits. A `NumberStyle` holds the decisions
that two written forms make differently: which of two equally near shortest decimals
is written, which exponents are written positionally, whether a whole number keeps a
fractional digit, and how infinities and the value that is no number are spelled.
-/

namespace ChatArgs.Decimal

/-- The decisions of a written form. -/
structure NumberStyle where
  /-- Which of two equally near shortest decimals is written. -/
  tie : Tie
  /-- The decimal point stands behind digit number `point`; positional when it lies
  in this range. -/
  positional : Int → Bool
  /-- Whole numbers end in `.0`. -/
  keepsPoint : Bool
  nan : String
  infinity : String
  negativeInfinity : String

/-- Numbers in data: plain between 1e-5 and 1e16, with at least one fractional digit;
a tie goes to the even digit. -/
def dataStyle : NumberStyle where
  tie := .toEven
  positional := fun point => -5 < point && point ≤ 16
  keepsPoint := true
  nan := "null"
  infinity := "null"
  negativeInfinity := "null"

/-- Numbers shown to people: always plain, whole numbers without a point; a tie goes
away from zero. -/
def displayStyle : NumberStyle where
  tie := .up
  positional := fun _ => true
  keepsPoint := false
  nan := "NaN"
  infinity := "inf"
  negativeInfinity := "-inf"

def zeros (count : Nat) : String :=
  String.ofList (List.replicate count '0')

/-- Digits with the decimal point behind digit number `point`. -/
def writePositional (digits : List Char) (point : Int) (keepsPoint : Bool) : String :=
  let count : Int := digits.length
  if point ≤ 0 then "0." ++ zeros (-point).toNat ++ String.ofList digits
  else if count ≤ point then
    String.ofList digits ++ zeros (point - count).toNat ++ (if keepsPoint then ".0" else "")
  else
    String.ofList (digits.take point.toNat) ++ "." ++ String.ofList (digits.drop point.toNat)

/-- One digit, the other digits behind a point, and a signed exponent. -/
def writeScientific (digits : List Char) (point : Int) : String :=
  let exponent := point - 1
  let mantissa := match digits with
    | [] => "0"
    | [d] => String.ofList [d]
    | d :: ds => String.ofList (d :: '.' :: ds)
  mantissa ++ "e" ++ (if exponent < 0 then "-" else "+") ++ toString exponent.natAbs

def NumberStyle.writeExpansion (style : NumberStyle) (d : Expansion) : String :=
  let digits := Nat.toDigits 10 d.digits
  let point : Int := digits.length + d.exponent
  if style.positional point then writePositional digits point style.keepsPoint
  else writeScientific digits point

def NumberStyle.write (style : NumberStyle) : Double → String
  | .nan => style.nan
  | .infinite negative => if negative then style.negativeInfinity else style.infinity
  | .zero negative =>
      (if negative then "-0" else "0") ++ (if style.keepsPoint then ".0" else "")
  | .finite negative magnitude =>
      (if negative then "-" else "") ++ style.writeExpansion (magnitude.shortest style.tie)

end ChatArgs.Decimal
