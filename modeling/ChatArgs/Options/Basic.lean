/-! # Parser settings, as given and as resolved

`Options` is what a user writes: every field may be left out, and the two nested
features may be switched off outright. `Config` is what a parse works with: every
field is decided. The delimiters of both are quotes and marker styles.
-/

namespace ChatArgs

inductive Quote where
  | double
  | single
  | backtick
deriving Repr, DecidableEq

namespace Quote

def all : List Quote := [.double, .single, .backtick]

def char : Quote → Char
  | .double => '"'
  | .single => '\''
  | .backtick => '`'

def ofChar? (c : Char) : Option Quote :=
  all.find? (·.char == c)

@[simp] theorem ofChar?_char (q : Quote) : ofChar? q.char = some q := by
  cases q <;> decide

theorem char_of_ofChar? {c : Char} {q : Quote} (h : ofChar? c = some q) : q.char = c := by
  have found := List.find?_some h
  simpa using found

end Quote

/-- A way to mark a named option: `-name`, `--name` or `name:`. -/
inductive MarkerStyle where
  | hyphen
  | doubleHyphen
  | colon
deriving Repr, DecidableEq

namespace MarkerStyle

def all : List MarkerStyle := [.hyphen, .doubleHyphen, .colon]

end MarkerStyle

/-- The two families of markers: one written with hyphens, one with a colon. -/
inductive Family where
  | hyphen
  | colon
deriving Repr, DecidableEq

/-- The delimiters that are switched on. -/
structure Delimiters where
  quotes : List Quote := Quote.all
  markers : List MarkerStyle := MarkerStyle.all
deriving Repr, DecidableEq

namespace Delimiters

def hasQuote (d : Delimiters) (q : Quote) : Bool :=
  d.quotes.contains q

def hasSingleHyphen (d : Delimiters) : Bool :=
  d.markers.contains .hyphen

def hasDoubleHyphen (d : Delimiters) : Bool :=
  d.markers.contains .doubleHyphen

def hasHyphen (d : Delimiters) : Bool :=
  d.hasSingleHyphen || d.hasDoubleHyphen

def hasColon (d : Delimiters) : Bool :=
  d.markers.contains .colon

def hasMarkers (d : Delimiters) : Bool :=
  d.hasHyphen || d.hasColon

/-- Some delimiter is switched on, so that the backslash escapes something. -/
def isActive (d : Delimiters) : Bool :=
  !d.quotes.isEmpty || d.hasMarkers

def isQuoteChar (d : Delimiters) (c : Char) : Bool :=
  d.quotes.any (·.char == c)

end Delimiters

/-- How quotes in the last slot are switched off. -/
structure PlainLast where
  /-- Code blocks are still read as long texts. -/
  keepCodeBlocks : Bool := false
deriving Repr, DecidableEq

/-- How values are replaced by the names of choices. -/
structure ChoiceMatching where
  /-- A value may also be the value of a choice. -/
  byValue : Bool := true
deriving Repr, DecidableEq

/-- How the author of the message replied to fills a leading user option. -/
structure ReplyFilling where
  /-- The author has to be mentioned, unless it is the sender. -/
  requirePing : Bool := false
deriving Repr, DecidableEq

/-- Settings with every field decided. -/
structure Config where
  delimiters : Delimiters := {}
  /-- The parse ends as soon as every option has a value. -/
  stopWhenFilled : Bool := false
  /-- The first marker that opens an option decides the family of all. -/
  oneFamily : Bool := false
  /-- Quotes in the last slot are plain text. -/
  plainLast : Option PlainLast := none
  /-- Values are matched against the choices of their option. -/
  choices : Option ChoiceMatching := some {}
  /-- The author of the message replied to fills a leading user option. -/
  replyFilling : Option ReplyFilling := none
  /-- The language line of a code block is a value of its own. -/
  languageAsValue : Bool := false
  /-- A named option takes one value, not all text up to the next marker. -/
  singleValue : Bool := false
  /-- Results are meant to be logged; a parse does not depend on it. -/
  logResult : Bool := false
deriving Repr, DecidableEq

/-- A nested feature as a user gives it: left out, switched off, or with settings. -/
inductive Setting (α : Type) where
  | unset
  | off
  | on (value : α)
deriving Repr, DecidableEq

namespace Setting

variable {α : Type}

/-- The settings of a feature that is given and not switched off. -/
def value? : Setting α → Option α
  | .on value => some value
  | _ => none

/-- A feature that is given: switched off, or with settings. -/
def ofOption : Option α → Setting α
  | some value => .on value
  | none => .off

end Setting

/-- The delimiters that a user gives. -/
structure DelimiterOptions where
  quotes : Option (List Quote) := none
  markers : Option (List MarkerStyle) := none
deriving Repr, DecidableEq

/-- The last-slot setting that a user gives: a plain choice, or details. -/
inductive PlainLastOption where
  | enabled (value : Bool)
  | detailed (keepCodeBlocks : Option Bool)
deriving Repr, DecidableEq

/-- Settings as a user gives them. -/
structure Options where
  delimiters : Option DelimiterOptions := none
  stopWhenFilled : Option Bool := none
  oneFamily : Option Bool := none
  plainLast : Option PlainLastOption := none
  /-- Whether a value may also be the value of a choice. -/
  choices : Setting (Option Bool) := .unset
  /-- Whether the author replied to has to be mentioned. -/
  replyFilling : Setting (Option Bool) := .unset
  languageAsValue : Option Bool := none
  singleValue : Option Bool := none
  logResult : Option Bool := none
deriving Repr, DecidableEq

namespace Options

/-- Settings for commands that take source code: stop at the last value, and read
quotes in it as plain text unless they open a code block. -/
def forCode : Options :=
  { stopWhenFilled := some true, plainLast := some (.detailed (some true)) }

end Options

end ChatArgs
