import ChatArgs.Decimal.Numeral
import ChatArgs.Document.Basic

/-! # Unquoted scalars

An unquoted scalar may be null, a truth value, a number or a text. The rules are
those of the core schema: `true`, `True` and `TRUE` are truth values and `yes` is
not; whole numbers may be hexadecimal, octal or binary; digits behind a leading
zero are a text; infinities and the value that is no number start with a point.
A tag says outright what a scalar is.
-/

namespace ChatArgs.Document

open Decimal

inductive ScalarValue where
  | null
  | bool (b : Bool)
  | number (n : Number)
  | text (s : String)
deriving Repr

namespace Plain

def isNullWord (s : String) : Bool :=
  s == "~" || s == "null" || s == "Null" || s == "NULL"

def bool? (s : String) : Option Bool :=
  if s == "true" || s == "True" || s == "TRUE" then some true
  else if s == "false" || s == "False" || s == "FALSE" then some false
  else none

def digit? (c : Char) : Option Nat :=
  if '0' ≤ c && c ≤ '9' then some (c.toNat - 48)
  else if 'a' ≤ c && c ≤ 'f' then some (c.toNat - 87)
  else if 'A' ≤ c && c ≤ 'F' then some (c.toNat - 55)
  else none

def continueNat? (base : Nat) (n : Nat) : List Char → Option Nat
  | [] => some n
  | c :: cs =>
      match digit? c with
      | some d => if d < base then continueNat? base (n * base + d) cs else none
      | none => none

/-- The number that digits spell; there is at least one. -/
def nat? (base : Nat) : List Char → Option Nat
  | [] => none
  | cs => continueNat? base 0 cs

def unsigned : List Char → List Char
  | '+' :: cs => cs
  | '-' :: cs => cs
  | cs => cs

/-- Digits behind a leading zero: a text. -/
def isPaddedDigits (cs : List Char) : Bool :=
  match unsigned cs with
  | '0' :: d :: ds => (d :: ds).all Char.isDigit
  | _ => false

def magnitude? : List Char → Option Nat
  | '0' :: 'x' :: cs => nat? 16 cs
  | '0' :: 'o' :: cs => nat? 8 cs
  | '0' :: 'b' :: cs => nat? 2 cs
  | cs => nat? 10 cs

/-- A whole number with an optional sign: whether it is negative, and its magnitude. -/
def integer? (cs : List Char) : Option (Bool × Nat) :=
  if isPaddedDigits cs then none
  else match cs with
    | '-' :: rest => (magnitude? rest).map (true, ·)
    | '+' :: rest => (magnitude? rest).map (false, ·)
    | rest => (magnitude? rest).map (false, ·)

def exponent? : List Char → Option Int
  | [] => some 0
  | c :: cs =>
      if c == 'e' || c == 'E' then
        let digits := unsigned cs
        if digits.isEmpty || !digits.all Char.isDigit then none
        else
          let n : Int := ofDigits digits
          some (if cs.head? == some '-' then -n else n)
      else none

/-- A decimal with an optional sign, nearest double; `none` for what is no decimal or
too large. -/
def decimal? (cs : List Char) : Option Float :=
  let negative := cs.head? == some '-'
  let (whole, rest) := spanDigits (unsigned cs)
  let (fraction, rest) := match rest with
    | '.' :: more => spanDigits more
    | more => ([], more)
  if whole.isEmpty && fraction.isEmpty then none
  else match exponent? rest with
    | none => none
    | some e =>
        let x := nearestFloat (ofDigits (whole ++ fraction)) (e - fraction.length)
        if x.isInf then none else some (if negative then -x else x)

def float? (s : String) : Option Float :=
  let positive := match s.toList with
    | '+' :: rest => String.ofList rest
    | _ => s
  if positive == ".inf" || positive == ".Inf" || positive == ".INF" then some (1 / 0)
  else if s == "-.inf" || s == "-.Inf" || s == "-.INF" then some (-1 / 0)
  else if s == ".nan" || s == ".NaN" || s == ".NAN" then some (0 / 0)
  else match s.toList with
    | '+' :: '+' :: _ => none
    | '+' :: '-' :: _ => none
    | cs => decimal? cs

/-- A whole number of 128 bits. It is usable when it has 64 bits. -/
def whole? (s : String) : Option (Option Number) :=
  match integer? s.toList with
  | some (false, n) =>
      if n < Nat.pow 2 64 then some (some (.natural n))
      else if n < Nat.pow 2 128 then some none
      else none
  | some (true, n) =>
      if n ≤ Nat.pow 2 63 then some (some (.negative n))
      else if n ≤ Nat.pow 2 127 then some none
      else none
  | none => none

/-- A number that is not whole, or else a text. -/
def fractional (s : String) : ScalarValue :=
  if isPaddedDigits s.toList then .text s
  else match float? s with
    | some x => .number (.float x)
    | none => .text s

/-- What an unquoted scalar is when nobody says what it should be; `none` for a whole
number that is too wide. -/
def resolve (s : String) : Option ScalarValue :=
  if s.isEmpty || isNullWord s then some .null
  else match bool? s with
    | some b => some (.bool b)
    | none =>
        match whole? s with
        | some found => found.map .number
        | none => some (fractional s)

/-- What a scalar is whose tag says what it should be; `none` when it is not that. The
tag of an application means nothing here, one that spells no characters is passed over,
and any other tag means a text. -/
def resolveTagged (tag : Tag) (isPlain : Bool) (s : String) : Option ScalarValue :=
  match tag with
  | .null => if isNullWord s then some .null else none
  | .bool => (bool? s).map .bool
  | .int => (whole? s).join.map .number
  | .float => (float? s).map fun x => .number (.float x)
  | .word _ => none
  | .garbled => if isPlain then resolve s else some (.text s)
  | .foreign => some (.text s)

end Plain

end ChatArgs.Document
