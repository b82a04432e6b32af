import ChatArgs.Text.GraphemeExtend
import ChatArgs.Text.Printable

/-! # Quoted display of a text

A text is shown in double quotes. Quotes, backslashes and the usual control
characters are escaped by a backslash; grapheme extenders and characters that are
not printable are shown by their code point in hexadecimal; all else is shown as
it is.
-/

namespace ChatArgs.Text

def hexDigit (n : Nat) : Char :=
  if n < 10 then Char.ofNat (n + 48) else Char.ofNat (n + 87)

/-- Worker: digits in front of those already found, until nothing is left. -/
def hexDigitsAux : Nat → Nat → List Char → List Char
  | 0, _, found => found
  | fuel + 1, n, found =>
      let found := hexDigit (n % 16) :: found
      if n < 16 then found else hexDigitsAux fuel (n / 16) found

def hexDigits (n : Nat) : List Char :=
  hexDigitsAux (n + 1) n []

/-- How one character is shown between double quotes. -/
def quotedChar (c : Char) : List Char :=
  if c == '\x00' then ['\\', '0']
  else if c == '\t' then ['\\', 't']
  else if c == '\r' then ['\\', 'r']
  else if c == '\n' then ['\\', 'n']
  else if c == '"' then ['\\', '"']
  else if c == '\\' then ['\\', '\\']
  else if isGraphemeExtend c || !isPrintable c then
    ['\\', 'u', '\x7b'] ++ hexDigits c.toNat ++ ['\x7d']
  else [c]

def quoted (s : String) : String :=
  String.ofList ('"' :: s.toList.flatMap quotedChar ++ ['"'])

end ChatArgs.Text
