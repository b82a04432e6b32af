import ChatArgs.Options.Basic
import ChatArgs.Text.Blank

/-! # Backslash escapes

A run of backslashes means something only in front of a special character: a
delimiter, a blank, or the end of the text. There half of the run is kept, rounded
down; everywhere else a run is plain text. Which delimiters are special depends on
where a text stands; an `EscapeSet` names them.
-/

namespace ChatArgs

namespace Parse

open Text

/-- The delimiters that a backslash escapes. Blanks are always escaped. -/
structure EscapeSet where
  quotes : List Quote := []
  hyphen : Bool := false
  colon : Bool := false
  slash : Bool := false
deriving Repr, DecidableEq

namespace EscapeSet

def isDelimiter (e : EscapeSet) (c : Char) : Bool :=
  e.quotes.any (·.char == c) || (e.hyphen && c == '-') || (e.colon && c == ':') ||
    (e.slash && c == '/')

/-- A run of backslashes in front of the character is an escape. -/
def contains (e : EscapeSet) (c : Char) : Bool :=
  e.isDelimiter c || isBlank c

end EscapeSet

def backslashes (count : Nat) : List Char :=
  List.replicate count '\\'

/-- Worker of `unescape`: `run` backslashes stand directly in front. -/
def unescapeFrom (e : EscapeSet) (run : Nat) : List Char → List Char
  | [] => backslashes (run / 2)
  | c :: cs =>
      if c = '\\' then unescapeFrom e (run + 1) cs
      else if e.contains c then backslashes (run / 2) ++ c :: unescapeFrom e 0 cs
      else backslashes run ++ c :: unescapeFrom e 0 cs

/-- Halves every run of backslashes that stands in front of a member of the set or at
the end. -/
def unescape (e : EscapeSet) (cs : List Char) : List Char :=
  unescapeFrom e 0 cs

/-- `unescape` where a set may be missing: then nothing is an escape. -/
def unescapeWith (e : Option EscapeSet) (cs : List Char) : List Char :=
  match e with
  | some e => unescape e cs
  | none => cs

end Parse

namespace Delimiters

open Parse

/-- The escaped delimiters besides quotes, when only markers of `lock` can still open
options. -/
def escapedMarkers (d : Delimiters) (lock : Option Family) : EscapeSet :=
  match lock with
  | none => { hyphen := d.hasHyphen, colon := d.hasColon }
  | some .hyphen => { hyphen := d.hasHyphen }
  | some .colon => { colon := d.hasColon }

/-- What is escaped in plain text. -/
def textEscapes (d : Delimiters) (lock : Option Family) : Option EscapeSet :=
  if d.isActive then some { d.escapedMarkers lock with quotes := d.quotes } else none

/-- What is escaped in plain text where quotes are switched off. -/
def unquotedEscapes (d : Delimiters) (lock : Option Family) : Option EscapeSet :=
  if d.isActive then some (d.escapedMarkers lock) else none

/-- What is escaped in the value behind a marker. A colon marker may also be kept apart
from a slash. -/
def markerEscapes (d : Delimiters) (lock : Option Family) : Family → Option EscapeSet
  | .hyphen => if d.hasMarkers then some (d.escapedMarkers lock) else none
  | .colon => if d.hasColon then some { d.escapedMarkers lock with slash := true } else none

def quoteEscapes (d : Delimiters) (q : Quote) : Option EscapeSet :=
  if d.hasQuote q then some { quotes := [q] } else none

/-- A run of backslashes in front of this character, or of the end, is an escape in
plain text. -/
def escapesNext (d : Delimiters) (lock : Option Family) (next : Option Char) : Bool :=
  match d.textEscapes lock with
  | none => false
  | some e =>
      match next with
      | none => true
      | some c => e.contains c

end Delimiters

end ChatArgs
