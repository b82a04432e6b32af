/-! # Documents

A `Document` is what a data file says before anybody asks for types: a tree of
lists and records over scalars. Both notations are read into it. Some forms need a
word. A `plain` scalar is an unquoted one whose type depends on what is asked for, a
`literal` one is a text that is written as a block of lines, and an `illFormed` one
is a quoted text whose escapes spell no characters: it can be skipped over, but not
used. A node may have a tag, and it may be an alias of a node that is written
elsewhere. A record keeps its fields in order and with repetitions, and its keys are
documents themselves.
-/

namespace ChatArgs

namespace Document

/-- What a tag says about its node. -/
inductive Tag where
  | null
  | bool
  | int
  | float
  /-- A tag of an application, by its word. -/
  | word (w : String)
  /-- A tag of an application that spells no characters. -/
  | garbled
  | foreign
deriving Repr, DecidableEq

end Document

/-- A data file as a tree. -/
inductive Document where
  | null
  | bool (b : Bool)
  /-- A number as it is written. -/
  | number (source : String)
  | text (s : String)
  | illFormed
  /-- An unquoted scalar as it is written. -/
  | plain (source : String)
  /-- A text that is written as a block of lines. -/
  | literal (s : String)
  | list (items : List Document)
  | record (fields : List (Document × Document))
  /-- A node with a tag. The node has no other tag and is no alias. -/
  | tagged (tag : Document.Tag) (node : Document)
  /-- Another node in this place. The node is no alias. -/
  | alias (node : Document)
deriving Repr

namespace Document

/-- The node that an alias stands for; any other document stands for itself. -/
def followed : Document → Document
  | .alias node => node
  | d => d

/-- The node without its tag. -/
def untagged : Document → Document
  | .tagged _ node => node
  | d => d

/-- The node that a document stands for, without its tag. -/
def node (d : Document) : Document :=
  d.followed.untagged

/-- A record from fields whose keys are texts. -/
def ofFields (fields : List (String × Document)) : Document :=
  .record (fields.map fun field => (.text field.1, field.2))

mutual

def depth : Document → Nat
  | .list items => depthOfItems items + 1
  | .record fields => depthOfFields fields + 1
  | .tagged _ node => node.depth
  | .alias node => node.depth
  | _ => 0
termination_by structural d => d

def depthOfItems : List Document → Nat
  | [] => 0
  | d :: ds => max d.depth (depthOfItems ds)
termination_by structural ds => ds

def depthOfFields : List (Document × Document) → Nat
  | [] => 0
  | (key, d) :: fs => max (max key.depth d.depth) (depthOfFields fs)
termination_by structural fs => fs

end

end Document

end ChatArgs
