import ChatArgs.Decimal.Numeral
import ChatArgs.Document.Basic

/-! # Reading JSON

A recursive reader over the characters of a text. It accepts the JSON standard and
nothing else: no comments, no byte-order mark, no text behind the value. The fuel
counts calls; each call either takes a character or is followed by one that does,
so twice the length of the text is enough.

An escape may spell half of a surrogate pair. Such a text is read as `illFormed`:
it is an error only for somebody who asks for its characters.
-/

namespace ChatArgs.Document

namespace Json

open Decimal (Numeral)

def isWhite (c : Char) : Bool :=
  c == ' ' || c == '\n' || c == '\t' || c == '\r'

def skipWhite (cs : List Char) : List Char :=
  cs.dropWhile isWhite

def hexValue? (c : Char) : Option Nat :=
  if '0' ≤ c && c ≤ '9' then some (c.toNat - 48)
  else if 'a' ≤ c && c ≤ 'f' then some (c.toNat - 87)
  else if 'A' ≤ c && c ≤ 'F' then some (c.toNat - 55)
  else none

def hexFour? (a b c d : Char) : Option Nat :=
  match hexValue? a, hexValue? b, hexValue? c, hexValue? d with
  | some a, some b, some c, some d => some (((a * 16 + b) * 16 + c) * 16 + d)
  | _, _, _, _ => none

def escaped? (c : Char) : Option Char :=
  if c == '"' then some '"'
  else if c == '\\' then some '\\'
  else if c == '/' then some '/'
  else if c == 'b' then some '\x08'
  else if c == 'f' then some '\x0c'
  else if c == 'n' then some '\n'
  else if c == 'r' then some '\r'
  else if c == 't' then some '\t'
  else none

/-- Reads the inside of a text up to its closing quote, as code points and halves of
surrogate pairs, in reverse order. -/
def scanText (reversed : List Nat) : List Char → Option (List Nat × List Char)
  | [] => none
  | '"' :: rest => some (reversed, rest)
  | '\\' :: 'u' :: a :: b :: c :: d :: rest =>
      match hexFour? a b c d with
      | some unit => scanText (unit :: reversed) rest
      | none => none
  | '\\' :: e :: rest =>
      match escaped? e with
      | some c => scanText (c.toNat :: reversed) rest
      | none => none
  | c :: rest =>
      if c.toNat < 0x20 || c == '\\' then none else scanText (c.toNat :: reversed) rest

/-- The unit is the first half of a surrogate pair. -/
def isHighHalf (unit : Nat) : Bool :=
  0xD800 ≤ unit && unit < 0xDC00

def isLowHalf (unit : Nat) : Bool :=
  0xDC00 ≤ unit && unit < 0xE000

/-- Joins halves of pairs, from the back to the front; `none` when a half stands alone. -/
def joinHalves (found : List Char) : List Nat → Option (List Char)
  | [] => some found
  | unit :: rest =>
      if isLowHalf unit then
        match rest with
        | high :: rest =>
            if isHighHalf high then
              joinHalves
                (Char.ofNat (0x10000 + (high - 0xD800) * 0x400 + (unit - 0xDC00)) :: found) rest
            else none
        | [] => none
      else if isHighHalf unit then none
      else joinHalves (Char.ofNat unit :: found) rest

def textOf (reversed : List Nat) : Document :=
  match joinHalves [] reversed with
  | some cs => .text (String.ofList cs)
  | none => .illFormed

def readText (cs : List Char) : Option (Document × List Char) :=
  match scanText [] cs with
  | some (reversed, rest) => some (textOf reversed, rest)
  | none => none

def isNumeralChar (c : Char) : Bool :=
  c.isDigit || c == '-' || c == '+' || c == '.' || c == 'e' || c == 'E'

/-- Reads a number; its document keeps it as it is written. -/
def readNumber (cs : List Char) : Option (Document × List Char) :=
  let source := cs.takeWhile isNumeralChar
  match Numeral.scan source with
  | some (_, []) => some (.number (String.ofList source), cs.dropWhile isNumeralChar)
  | _ => none

def expect (word : List Char) (value : Document) (cs : List Char) :
    Option (Document × List Char) :=
  if word.isPrefixOf cs then some (value, cs.drop word.length) else none

mutual

/-- Reads a value at the front, behind leading blanks. -/
def readValue : Nat → List Char → Option (Document × List Char)
  | 0, _ => none
  | fuel + 1, cs =>
      match skipWhite cs with
      | [] => none
      | '"' :: rest => readText rest
      | '[' :: rest =>
          match skipWhite rest with
          | ']' :: rest => some (.list [], rest)
          | rest => (readItems fuel rest).map fun found => (.list found.1, found.2)
      | '\x7b' :: rest =>
          match skipWhite rest with
          | '\x7d' :: rest => some (.record [], rest)
          | rest => (readFields fuel rest).map fun found => (.record found.1, found.2)
      | 'n' :: rest => expect ['u', 'l', 'l'] .null rest
      | 't' :: rest => expect ['r', 'u', 'e'] (.bool true) rest
      | 'f' :: rest => expect ['a', 'l', 's', 'e'] (.bool false) rest
      | cs => readNumber cs

/-- Reads items up to the closing bracket; there is at least one. -/
def readItems : Nat → List Char → Option (List Document × List Char)
  | 0, _ => none
  | fuel + 1, cs =>
      match readValue fuel cs with
      | none => none
      | some (item, rest) =>
          match skipWhite rest with
          | ']' :: rest => some ([item], rest)
          | ',' :: rest => (readItems fuel rest).map fun found => (item :: found.1, found.2)
          | _ => none

/-- Reads fields up to the closing brace; there is at least one. -/
def readFields : Nat → List Char → Option (List (Document × Document) × List Char)
  | 0, _ => none
  | fuel + 1, cs =>
      match skipWhite cs with
      | '"' :: rest =>
          match readText rest with
          | none => none
          | some (key, rest) =>
              match skipWhite rest with
              | ':' :: rest =>
                  match readValue fuel rest with
                  | none => none
                  | some (value, rest) =>
                      match skipWhite rest with
                      | '\x7d' :: rest => some ([(key, value)], rest)
                      | ',' :: rest =>
                          (readFields fuel rest).map fun found =>
                            ((key, value) :: found.1, found.2)
                      | _ => none
              | _ => none
      | _ => none

end

end Json

/-- Reads a JSON text; `none` when it is not one value and nothing else. -/
def ofJson? (s : String) : Option Document :=
  let cs := s.toList
  match Json.readValue (2 * cs.length + 2) cs with
  | some (value, rest) => if (Json.skipWhite rest).isEmpty then some value else none
  | none => none

end ChatArgs.Document
