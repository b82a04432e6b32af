/-! # Places in a YAML text

YAML is a notation of lines and columns. A `Place` is the text that is still to be
read, with the line and column where it starts. Line breaks are line feed, carriage
return, both in a row, and three more characters of Unicode.
-/

namespace ChatArgs.Document.Yaml

structure Place where
  rest : List Char
  /-- Number of characters that are still to be read. -/
  left : Nat
  line : Nat := 0
  column : Nat := 0
deriving Repr

def isBlank (c : Char) : Bool :=
  c == ' ' || c == '\t'

def isBreak (c : Char) : Bool :=
  c == '\n' || c == '\r' || c == '\u0085' || c == '\u2028' || c == '\u2029'

def isBlankOrEnd : Option Char → Bool
  | none => true
  | some c => isBlank c || isBreak c

def isBreakOrEnd : Option Char → Bool
  | none => true
  | some c => isBreak c

/-- A character that the notation allows; other control characters are mistakes. -/
def isAllowed (c : Char) : Bool :=
  let n := c.toNat
  n == 0x09 || n == 0x0A || n == 0x0D || (0x20 ≤ n && n ≤ 0x7E) || n == 0x85 ||
    (0xA0 ≤ n && n ≤ 0xFFFD) || 0x10000 ≤ n

namespace Place

def start (text : List Char) : Place :=
  { rest := text, left := text.length }

def head? (p : Place) : Option Char :=
  p.rest.head?

/-- The character `count` behind the place. -/
def peek? (p : Place) (count : Nat) : Option Char :=
  p.rest[count]?

def skip (p : Place) : Place :=
  match p.rest with
  | [] => p
  | _ :: rest => { p with rest := rest, left := p.left - 1, column := p.column + 1 }

def skipMany (p : Place) : Nat → Place
  | 0 => p
  | count + 1 => p.skip.skipMany count

/-- Over a line break; answers the break as a scalar keeps it. -/
def skipBreak (p : Place) : List Char × Place :=
  match p.rest with
  | '\r' :: '\n' :: rest => (['\n'], ⟨rest, p.left - 2, p.line + 1, 0⟩)
  | c :: rest =>
      (if c == '\u2028' || c == '\u2029' then [c] else ['\n'],
        ⟨rest, p.left - 1, p.line + 1, 0⟩)
  | [] => ([], p)

/-- Over the characters at the front that satisfy a test, none of them a break. -/
def skipWhile (p : Place) (test : Char → Bool) : Place :=
  let count := (p.rest.takeWhile test).length
  { p with
    rest := p.rest.dropWhile test, left := p.left - count, column := p.column + count }

def skipLine (p : Place) : Place :=
  p.skipWhile fun c => !isBreak c

/-- The place is at the front of a line that starts with a document marker. -/
def atMarker (p : Place) (c : Char) : Bool :=
  p.column == 0 && [c, c, c].isPrefixOf p.rest && isBlankOrEnd (p.peek? 3)

/-- The place is at a line that ends a document. -/
def atDocumentEdge (p : Place) : Bool :=
  p.atMarker '-' || p.atMarker '.'

end Place

end ChatArgs.Document.Yaml
