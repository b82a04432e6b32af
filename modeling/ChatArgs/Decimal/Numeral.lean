import ChatArgs.Decimal.Nearest

/-! # Numbers as they are written

A `Numeral` is a number in the notation of data files: an optional minus sign, a
whole part without leading zeros, and optional fraction and exponent. `scan` takes
one off the front of a text. `read` gives its value: whole numbers of 64 bits stay
exact, all others become doubles by scaling the leading digits that fit into 64
bits by one power of ten.
-/

namespace ChatArgs.Decimal

structure Exponent where
  negative : Bool
  digits : List Char
deriving Repr, DecidableEq

structure Numeral where
  negative : Bool
  whole : List Char
  fraction : List Char
  exponent : Option Exponent
deriving Repr, DecidableEq

inductive Number where
  /-- A whole number that is not negative. -/
  | natural (n : Nat)
  /-- A negative whole number, by its magnitude. -/
  | negative (magnitude : Nat)
  | float (x : Float)
deriving Repr

def digitValue (c : Char) : Nat :=
  c.toNat - 48

def spanDigits (cs : List Char) : List Char × List Char :=
  cs.span Char.isDigit

def ofDigits (ds : List Char) : Nat :=
  ds.foldl (fun n d => 10 * n + digitValue d) 0

namespace Numeral

/-- The whole part: a zero alone, or digits without a leading zero. -/
def scanWhole : List Char → Option (List Char × List Char)
  | [] => none
  | c :: rest =>
      if c == '0' then
        match rest with
        | d :: _ => if d.isDigit then none else some ([c], rest)
        | [] => some ([c], rest)
      else if c.isDigit then some (spanDigits (c :: rest))
      else none

/-- The fraction, if a point follows; a point without digits is a mistake. -/
def scanFraction : List Char → Option (List Char × List Char)
  | '.' :: rest =>
      match spanDigits rest with
      | ([], _) => none
      | found => some found
  | rest => some ([], rest)

/-- The exponent, if its letter follows; a letter without digits is a mistake. -/
def scanExponent : List Char → Option (Option Exponent × List Char)
  | [] => some (none, [])
  | c :: rest =>
      if c == 'e' || c == 'E' then
        let (negative, rest) := match rest with
          | '+' :: more => (false, more)
          | '-' :: more => (true, more)
          | more => (false, more)
        match spanDigits rest with
        | ([], _) => none
        | (digits, rest) => some (some ⟨negative, digits⟩, rest)
      else some (none, c :: rest)

/-- Takes a numeral off the front of a text. -/
def scan (cs : List Char) : Option (Numeral × List Char) :=
  let (negative, cs) := match cs with
    | '-' :: rest => (true, rest)
    | rest => (false, rest)
  match scanWhole cs with
  | none => none
  | some (whole, cs) =>
      match scanFraction cs with
      | none => none
      | some (fraction, cs) =>
          match scanExponent cs with
          | none => none
          | some (exponent, cs) => some (⟨negative, whole, fraction, exponent⟩, cs)

end Numeral

/-- The digits that fit into 64 bits in front, continued from `significand`, and those
that do not. -/
def fitDigits (significand : Nat) : List Char → Nat × List Char
  | [] => (significand, [])
  | d :: ds =>
      let next := 10 * significand + digitValue d
      if next < Nat.pow 2 64 then fitDigits next ds else (significand, d :: ds)

def powerOfTen (exponent : Nat) : Float :=
  nearestFloat 1 exponent

/-- Scales by a power of ten in steps that doubles can hold; `none` when the result is
too large. -/
def scaleFloat : Nat → Float → Int → Option Float
  | 0, _, _ => none
  | fuel + 1, x, exponent =>
      if exponent.natAbs ≤ 308 then
        if 0 ≤ exponent then
          let y := x * powerOfTen exponent.natAbs
          if y.isInf then none else some y
        else some (x / powerOfTen exponent.natAbs)
      else if x == 0 then some x
      else if 0 ≤ exponent then none
      else scaleFloat fuel (x / powerOfTen 308) (exponent + 308)

namespace Numeral

/-- The value as a double. The exponent letter may carry any number of digits; beyond
32 bits only its sign matters. -/
def scaled? (n : Numeral) : Option Float :=
  let (leading, wholeRest) := fitDigits 0 n.whole
  let (significand, fractionRest) := fitDigits leading n.fraction
  let places : Int := wholeRest.length - (n.fraction.length - fractionRest.length : Nat)
  match n.exponent with
  | none => scaleFloat 8 (Float.ofNat significand) places
  | some e =>
      let shift := ofDigits e.digits
      if shift < Nat.pow 2 31 then
        let shift : Int := if e.negative then -shift else shift
        scaleFloat 8 (Float.ofNat significand) (places + shift)
      else if significand != 0 && !e.negative then none
      else some 0

/-- The value of a numeral; `none` when it is too large for a double. -/
def read (n : Numeral) : Option Number :=
  let isWhole := n.fraction.isEmpty && n.exponent.isNone
  let magnitude := ofDigits n.whole
  if isWhole && !n.negative && magnitude < Nat.pow 2 64 then some (.natural magnitude)
  else if isWhole && n.negative && magnitude != 0 && magnitude ≤ Nat.pow 2 63 then
    some (.negative magnitude)
  else n.scaled?.map fun x => .float (if n.negative then -x else x)

end Numeral

def Number.toFloat : Number → Float
  | .natural n => Float.ofNat n
  | .negative magnitude => 0 - Float.ofNat magnitude
  | .float x => x

end ChatArgs.Decimal
