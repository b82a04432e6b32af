/-! # Blank characters and trimming

`isBlank` is the Unicode property `White_Space`, 25 characters in ten ranges.
Words are separated by blank characters and by the delete character; trimming
and escape classes look at blank characters only.
-/

namespace ChatArgs.Text

/-- The Unicode property `White_Space`. -/
def isBlank (c : Char) : Bool :=
  let n := c.toNat
  (9 ≤ n && n ≤ 13) || n == 0x20 || n == 0x85 || n == 0xA0 || n == 0x1680 ||
    (0x2000 ≤ n && n ≤ 0x200A) || n == 0x2028 || n == 0x2029 || n == 0x202F ||
    n == 0x205F || n == 0x3000

/-- A character that separates words: blank, or the delete character. -/
def isGap (c : Char) : Bool :=
  isBlank c || c == '\x7F'

def trimStart (cs : List Char) : List Char :=
  cs.dropWhile isBlank

def trimEnd (cs : List Char) : List Char :=
  (cs.reverse.dropWhile isBlank).reverse

def trim (cs : List Char) : List Char :=
  trimEnd (trimStart cs)

def trimmed (s : String) : String :=
  String.ofList (trim s.toList)

def isBlankText (s : String) : Bool :=
  s.toList.all isBlank

@[simp] theorem trimEnd_nil : trimEnd [] = [] := rfl

end ChatArgs.Text
