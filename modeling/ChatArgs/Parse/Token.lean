import ChatArgs.Options.Basic
import ChatArgs.Text.Blank
import ChatArgs.Text.Cursor

/-! # Tokens

A text is cut into markers of named options, single delimiter characters, words,
runs of backslashes and runs of line feeds; blanks and the delete character between
them are skipped. At each place the kinds are tried in this order, and the first
that fits is taken. A marker with a colon that looks like the scheme of a web
address is none.

Every token takes at least one character, so the tokens of a text are found in as
many rounds as it has characters.
-/

namespace ChatArgs.Parse

open Text

/-- How a marker is written around its name. -/
inductive Opening where
  | hyphens (count : Nat)
  | colon
deriving Repr, DecidableEq

def Opening.family : Opening → Family
  | .hyphens _ => .hyphen
  | .colon => .colon

inductive TokenKind where
  /-- A marker, with the number of backslashes in front of it. -/
  | marker (escapes : Nat) (opening : Opening) (name : String)
  | delimiter (c : Char)
  | word
  | backslashes (count : Nat)
  | lineFeeds
deriving Repr, DecidableEq

/-- A token and the places around it. -/
structure Token where
  kind : TokenKind
  start : Cursor
  stop : Cursor
deriving Repr, DecidableEq

def Token.text (t : Token) : List Char :=
  t.start.textTo t.stop.offset

/-- A letter or underscore of ASCII. -/
def isNameStart (c : Char) : Bool :=
  ('a' ≤ c && c ≤ 'z') || ('A' ≤ c && c ≤ 'Z') || c == '_'

/-- A letter, underscore or digit of ASCII. -/
def isNamePart (c : Char) : Bool :=
  isNameStart c || ('0' ≤ c && c ≤ '9')

def nameAt? (cs : List Char) : Option (List Char) :=
  match cs with
  | [] => none
  | c :: _ => if isNameStart c then some (cs.takeWhile isNamePart) else none

/-- A kind of token and the number of characters that it takes. -/
abbrev Match := TokenKind × Nat

/-- Behind hyphens: a name and, if it follows, a sign of equality or a colon. -/
def hyphenName? (escapes hyphens : Nat) (cs : List Char) : Option Match :=
  match nameAt? cs with
  | none => none
  | some name =>
      let sign := match (cs.drop name.length).head? with
        | some c => if c == '=' || c == ':' then 1 else 0
        | none => 0
      some (.marker escapes (.hyphens hyphens) (String.ofList name),
        escapes + hyphens + name.length + sign)

/-- A marker with just so many hyphens, if this style is switched on. -/
def hyphensMarker? (enabled : Bool) (hyphens escapes : Nat) (cs : List Char) : Option Match :=
  if enabled && (List.replicate hyphens '-').isPrefixOf cs then
    hyphenName? escapes hyphens (cs.drop hyphens)
  else none

/-- A marker with hyphens: two if they can be taken, else one. -/
def hyphenMarker? (d : Delimiters) (escapes : Nat) (cs : List Char) : Option Match :=
  (hyphensMarker? d.hasDoubleHyphen 2 escapes cs).or
    (hyphensMarker? d.hasSingleHyphen 1 escapes cs)

/-- A marker with a colon behind its name. -/
def colonMarker? (escapes : Nat) (cs : List Char) : Option Match :=
  let name := cs.takeWhile isNamePart
  if name.isEmpty then none
  else if (cs.drop name.length).head? == some ':' then
    some (.marker escapes .colon (String.ofList name), escapes + name.length + 1)
  else none

/-- A marker, with the backslashes in front of it. -/
def marker? (d : Delimiters) (colons : Bool) (cs : List Char) : Option Match :=
  let escapes := (cs.takeWhile (· == '\\')).length
  let rest := cs.drop escapes
  match hyphenMarker? d escapes rest with
  | some found => some found
  | none => if colons && d.hasColon then colonMarker? escapes rest else none

/-- The character is a delimiter of its own. -/
def isDelimiterChar (d : Delimiters) (c : Char) : Bool :=
  d.isQuoteChar c || (d.hasHyphen && c == '-') || (d.hasColon && c == ':')

/-- The character can stand in a word: visible, no quote, and no backslash unless
nothing can be escaped. -/
def isWordChar (d : Delimiters) (c : Char) : Bool :=
  !isGap c && !d.isQuoteChar c && !(d.isActive && c == '\\')

/-- The token at the front of a text, where markers with a colon may be left out. -/
def matchAt? (d : Delimiters) (colons : Bool) (cs : List Char) : Option Match :=
  match marker? d colons cs with
  | some found => some found
  | none =>
      match cs with
      | [] => none
      | c :: _ =>
          if isDelimiterChar d c then some (.delimiter c, 1)
          else if isWordChar d c then some (.word, (cs.takeWhile (isWordChar d)).length)
          else if c == '\\' then
            let count := (cs.takeWhile (· == '\\')).length
            some (.backslashes count, count)
          else if c == '\n' then some (.lineFeeds, (cs.takeWhile (· == '\n')).length)
          else none

/-- Two slashes and a visible character: what follows the scheme of a web address. -/
def isAddressRest : List Char → Bool
  | '/' :: '/' :: c :: _ => !isGap c
  | _ => false

/-- The token at the front of a text. -/
def tokenAt? (d : Delimiters) (cs : List Char) : Option Match :=
  match matchAt? d true cs with
  | some (.marker escapes .colon name, size) =>
      if isAddressRest (cs.drop size) then matchAt? d false cs
      else some (.marker escapes .colon name, size)
  | found => found

/-- Worker of `tokens`: each round takes a token or skips a character. -/
def tokensFrom (d : Delimiters) : Nat → Cursor → List Token
  | 0, _ => []
  | fuel + 1, c =>
      match c.rest with
      | [] => []
      | _ :: _ =>
          match tokenAt? d c.rest with
          | some (kind, size) => ⟨kind, c, c.forward size⟩ :: tokensFrom d fuel (c.forward size)
          | none => tokensFrom d fuel c.next

def tokens (d : Delimiters) (text : List Char) : List Token :=
  tokensFrom d text.length (Cursor.start text)

end ChatArgs.Parse
