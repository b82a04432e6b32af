import ChatArgs.Text.Cased
import ChatArgs.Text.CaseIgnorable
import ChatArgs.Text.LowercaseMap

/-! # Lower-case forms of texts

Names are compared without regard to case by their lower-case forms. The form of
a text is that of its characters, with two exceptions of the Unicode standard:
the dotted capital I keeps its dot as a combining mark, and a capital sigma at
the end of a word becomes the final sigma.
-/

namespace ChatArgs.Text

def meetsCased (cs : List Char) : Bool :=
  match cs.dropWhile isCaseIgnorable with
  | [] => false
  | c :: _ => isCased c

/-- The lower-case form of a capital sigma: final when a letter stands in front of
it and none behind it. -/
def lowercaseSigma (reversedFront back : List Char) : Char :=
  if meetsCased reversedFront && !meetsCased back then 'ς' else 'σ'

/-- The lower-case form of one character between a front part (reversed) and a back part. -/
def lowercaseAt (reversedFront : List Char) (c : Char) (back : List Char) : List Char :=
  if c.toNat < 0x80 then [if 'A' ≤ c && c ≤ 'Z' then Char.ofNat (c.toNat + 32) else c]
  else if c == 'Σ' then [lowercaseSigma reversedFront back]
  else if c == 'İ' then ['i', '\u0307']
  else [simpleLowercase c]

def lowercaseFrom (reversedFront : List Char) : List Char → List Char
  | [] => []
  | c :: cs => lowercaseAt reversedFront c cs ++ lowercaseFrom (c :: reversedFront) cs

def lowercase (s : String) : String :=
  String.ofList (lowercaseFrom [] s.toList)

end ChatArgs.Text
