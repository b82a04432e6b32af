import ChatArgs.Document.Plain
import ChatArgs.Document.Yaml.Place

/-! # YAML scalars

The three ways to write a scalar: without quotes, in quotes, and as a block of lines.
Line breaks inside the first two are folded: a single one is a space, and of several
the first one is dropped. Each reader answers the characters and the place behind.
-/

namespace ChatArgs.Document.Yaml

inductive ScalarStyle where
  | plain
  /-- In quotes, or as a block of lines that is folded. -/
  | quoted
  /-- As a block of lines that is not folded. -/
  | literal
deriving Repr, DecidableEq

/-! ## Blanks and line breaks inside a scalar -/

/-- The blanks and line breaks between two parts of a scalar. -/
structure Gap where
  blanks : List Char := []
  /-- The first line break as a scalar keeps it. -/
  leading : List Char := []
  /-- The further line breaks. -/
  trailing : List Char := []
  broken : Bool := false
deriving Repr

/-- A folded line break and the ones behind it. -/
def fold (leading trailing : List Char) : List Char :=
  if leading == ['\n'] then
    if trailing.isEmpty then [' '] else trailing
  else leading ++ trailing

/-- What stands for the gap in the scalar. -/
def Gap.folded (g : Gap) : List Char :=
  if g.broken then fold g.leading g.trailing else g.blanks

/-- Reads blanks and line breaks. Behind a line break, a tab in front of column `limit`
is a mistake. -/
def readGap (limit : Nat) : Nat → Gap → Place → Option (Gap × Place)
  | 0, g, p => some (g, p)
  | fuel + 1, g, p =>
      match p.head? with
      | none => some (g, p)
      | some c =>
          if isBlank c then
            if g.broken then
              if c == '\t' && p.column < limit then none else readGap limit fuel g p.skip
            else readGap limit fuel { g with blanks := g.blanks ++ [c] } p.skip
          else if isBreak c then
            let (kept, p) := p.skipBreak
            if g.broken then readGap limit fuel { g with trailing := g.trailing ++ kept } p
            else readGap limit fuel { leading := kept, broken := true } p
          else some (g, p)

/-! ## Scalars without quotes -/

/-- A bracket or comma that ends a plain scalar between brackets. -/
def isFlowEnd (c : Char) : Bool :=
  c == ',' || c == '[' || c == ']' || c == '\x7b' || c == '\x7d'

/-- The end of a scalar without quotes, from its characters in reverse order. -/
def plainEnd (reversed : List Char) (gap : Gap) (p : Place) :
    Option (List Char × Bool × Place) :=
  some (reversed.reverse, gap.broken, p)

/-- Worker of `readPlain`. `fresh` says that a gap or nothing stands directly in front. -/
def readPlainFrom (flow : Bool) (indent : Nat) : Nat → Bool → List Char → Gap → Place →
    Option (List Char × Bool × Place)
  | 0, _, _, _, _ => none
  | fuel + 1, fresh, reversed, gap, p =>
      match p.head? with
      | none => plainEnd reversed gap p
      | some c =>
          if fresh && (p.atDocumentEdge || c == '#') then plainEnd reversed gap p
          else if isBlank c || isBreak c then
            match readGap indent p.left {} p with
            | none => none
            | some (gap, p) =>
                if !flow && p.column < indent then plainEnd reversed gap p
                else readPlainFrom flow indent fuel true reversed gap p
          else
            let next := p.peek? 1
            let nextEnds := match next with
              | some n => isFlowEnd n || n == '?'
              | none => false
            if flow && c == ':' && nextEnds then none
            else if c == ':' && isBlankOrEnd next then plainEnd reversed gap p
            else if flow && isFlowEnd c then plainEnd reversed gap p
            else
              readPlainFrom flow indent fuel false (c :: (gap.folded.reverse ++ reversed)) {}
                p.skip

/-- Reads a scalar without quotes. Its further lines are indented by `indent` columns at
least. Answers also whether it ends behind a line break. -/
def readPlain (flow : Bool) (indent : Nat) (p : Place) : Option (List Char × Bool × Place) :=
  readPlainFrom flow indent (p.left + 1) true [] {} p

/-! ## Scalars in quotes -/

def escapes : List (Char × Char) :=
  [('0', '\x00'), ('a', '\x07'), ('b', '\x08'), ('t', '\t'), ('\t', '\t'), ('n', '\n'),
    ('v', '\x0b'), ('f', '\x0c'), ('r', '\r'), ('e', '\x1b'), (' ', ' '), ('"', '"'),
    ('/', '/'), ('\\', '\\'), ('N', '\u0085'), ('_', '\u00a0'), ('L', '\u2028'),
    ('P', '\u2029')]

/-- The number of hexadecimal digits behind the letter of an escape. -/
def escapeDigits : List (Char × Nat) :=
  [('x', 2), ('u', 4), ('U', 8)]

/-- The character that an escape stands for, and the number of characters that it takes
behind the backslash. -/
def escape? : List Char → Option (Char × Nat)
  | [] => none
  | letter :: rest =>
      match List.lookup letter escapes with
      | some c => some (c, 1)
      | none =>
          match List.lookup letter escapeDigits with
          | none => none
          | some count =>
              if rest.length < count then none
              else match Plain.nat? 16 (rest.take count) with
                | none => none
                | some code =>
                    if (0xD800 ≤ code && code ≤ 0xDFFF) || 0x10FFFF < code then none
                    else some (Char.ofNat code, count + 1)

def readQuotedFrom (single : Bool) : Nat → List Char → Place → Option (List Char × Place)
  | 0, _, _ => none
  | fuel + 1, reversed, p =>
      if p.atDocumentEdge then none
      else match p.rest with
        | [] => none
        | c :: rest =>
            if isBlank c || isBreak c then
              match readGap 0 p.left {} p with
              | none => none
              | some (gap, p) => readQuotedFrom single fuel (gap.folded.reverse ++ reversed) p
            else if single && c == '\'' && rest.head? == some '\'' then
              readQuotedFrom single fuel ('\'' :: reversed) (p.skipMany 2)
            else if c == (if single then '\'' else '"') then some (reversed.reverse, p.skip)
            else if !single && c == '\\' then
              match rest with
              | [] => none
              | next :: _ =>
                  if isBreak next then
                    let (_, behind) := p.skip.skipBreak
                    match readGap 0 behind.left { broken := true } behind with
                    | none => none
                    | some (gap, p) =>
                        readQuotedFrom single fuel (gap.folded.reverse ++ reversed) p
                  else match escape? rest with
                    | none => none
                    | some (e, count) =>
                        readQuotedFrom single fuel (e :: reversed) (p.skipMany (count + 1))
            else readQuotedFrom single fuel (c :: reversed) p.skip

def readQuoted (single : Bool) (p : Place) : Option (List Char × Place) :=
  readQuotedFrom single (p.left + 1) [] p.skip

/-! ## Blocks of lines -/

/-- What becomes of the line breaks at the end of a block. -/
inductive Chomp where
  /-- The first one stays. -/
  | clip
  /-- None stays. -/
  | strip
  /-- All stay. -/
  | keep
deriving Repr, DecidableEq

/-- The head of a block: what to do with its end, and its indentation if it is given. -/
structure BlockHead where
  chomp : Chomp := .clip
  indent : Option Nat := none
deriving Repr

/-- A mark at the head of a block: what to do with its end. -/
def chompMark? (c : Char) : Option Chomp :=
  if c == '+' then some .keep else if c == '-' then some .strip else none

/-- Reads the marks behind the letter of a block, in either order. -/
def readBlockMarks : Nat → BlockHead → Place → Option (BlockHead × Place)
  | 0, head, p => some (head, p)
  | fuel + 1, head, p =>
      match p.head? with
      | none => some (head, p)
      | some c =>
          if c.isDigit && head.indent.isNone then
            if c == '0' then none
            else readBlockMarks fuel { head with indent := some (c.toNat - 48) } p.skip
          else match chompMark? c with
            | some chomp =>
                if head.chomp == .clip then
                  readBlockMarks fuel { head with chomp := chomp } p.skip
                else some (head, p)
            | none => some (head, p)

/-- Reads empty lines and the indentation of the line behind them. Without a known
indentation all leading spaces are read, and the largest column is answered too. -/
def readBlockBreaks (indent : Option Nat) : Nat → Nat → List Char → Place →
    Option (List Char × Nat × Place)
  | 0, _, _, _ => none
  | fuel + 1, largest, breaks, p =>
      let inside (p : Place) : Bool := match indent with
        | none => true
        | some n => p.column < n
      match p.head? with
      | none => some (breaks, max largest p.column, p)
      | some c =>
          if c == ' ' && inside p then readBlockBreaks indent fuel largest breaks p.skip
          else
            let largest := max largest p.column
            if c == '\t' && inside p then none
            else if isBreak c then
              let (kept, p) := p.skipBreak
              readBlockBreaks indent fuel largest (breaks ++ kept) p
            else some (breaks, largest, p)

/-- Reads the lines of a block; the text so far is reversed. `leading` is the break behind
the line in front, and `breaks` are the empty lines behind it; `afterBlank` says that the
line in front starts with a blank, so that it is not folded. -/
def readBlockLines (literal : Bool) (indent : Nat) : Nat → Bool → List Char → List Char →
    List Char → Place → Option (List Char × List Char × List Char × Place)
  | 0, _, _, _, _, _ => none
  | fuel + 1, afterBlank, reversed, leading, breaks, p =>
      match p.head? with
      | none => some (reversed.reverse, leading, breaks, p)
      | some c =>
          if p.column != indent then some (reversed.reverse, leading, breaks, p)
          else
            let startsBlank := isBlank c
            let joined :=
              if !literal && leading == ['\n'] && !afterBlank && !startsBlank then
                if breaks.isEmpty then [' '] else breaks
              else leading ++ breaks
            let line := p.rest.takeWhile fun c => !isBreak c
            let (kept, behind) := p.skipLine.skipBreak
            match readBlockBreaks (some indent) (behind.left + 1) 0 [] behind with
            | none => none
            | some (breaks, _, p) =>
                readBlockLines literal indent fuel startsBlank
                  (line.reverse ++ (joined.reverse ++ reversed)) kept breaks p

/-- Reads a block of lines, from its letter on, inside a collection that is indented to
column `outer`; `none` stands for no collection. -/
def readBlock (literal : Bool) (outer : Option Nat) (p : Place) :
    Option (List Char × Place) := do
  let (head, p) ← readBlockMarks 2 {} p.skip
  let p := p.skipWhile isBlank
  let p := if p.head? == some '#' then p.skipLine else p
  if !isBreakOrEnd p.head? then none
  else
    let p := p.skipBreak.2
    let given := head.indent.map fun n => outer.getD 0 + n
    let (breaks, largest, p) ← readBlockBreaks given (p.left + 1) 0 [] p
    let least := match outer with
      | some n => n + 1
      | none => 1
    let indent := given.getD (max largest least)
    let (lines, leading, breaks, p) ←
      readBlockLines literal indent (p.left + 1) false [] [] breaks p
    let lines := if head.chomp == .strip then lines else lines ++ leading
    some (if head.chomp == .keep then lines ++ breaks else lines, p)

end ChatArgs.Document.Yaml
