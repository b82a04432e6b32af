import ChatArgs.Document.Basic
import ChatArgs.Document.Yaml.Scalar

/-! # YAML nodes

A node of a YAML text, with its anchors and aliases. An anchor has a serial number, in
the order in which the nodes start. An alias has the number of its anchor's name; which
node that is shows only at the end of the text. So an alias may stand for a node that
starts further on or for one that it is itself a part of, and `toDocument` puts the
nodes in for their aliases over and over again, `aliasDepth` times.
-/

namespace ChatArgs.Document.Yaml

inductive Node where
  | scalar (source : String) (style : ScalarStyle)
  /-- Stands for the node that its number belongs to. -/
  | alias (number : Nat)
  | list (items : List Node)
  | record (fields : List (Node × Node))
  | tagged (tag : Tag) (node : Node)
  /-- A node that an alias may stand for, with the serial number of its anchor. -/
  | anchored (serial : Nat) (node : Node)
deriving Repr

namespace Node

mutual

def size : Node → Nat
  | .scalar _ _ => 1
  | .alias _ => 1
  | .list items => sizeOfItems items + 2
  | .record fields => sizeOfFields fields + 2
  | .tagged _ node => node.size
  | .anchored _ node => node.size
termination_by structural n => n

def sizeOfItems : List Node → Nat
  | [] => 0
  | n :: ns => n.size + sizeOfItems ns
termination_by structural ns => ns

def sizeOfFields : List (Node × Node) → Nat
  | [] => 0
  | (key, n) :: fs => key.size + n.size + sizeOfFields fs
termination_by structural fs => fs

end

def ofScalar (source : String) : ScalarStyle → Document
  | .plain => .plain source
  | .quoted => .text source
  | .literal => .literal source

mutual

/-- The document of a node, when `target` knows the documents of the aliases. Beside it
the documents of anchored nodes are collected by their serial numbers. -/
def expand (target : Nat → Document) (found : Array Document) :
    Node → Document × Array Document
  | .scalar source style => (ofScalar source style, found)
  | .alias n => (.alias (target n), found)
  | .list items =>
      let (ds, found) := expandItems target found items
      (.list ds, found)
  | .record fields =>
      let (fs, found) := expandFields target found fields
      (.record fs, found)
  | .tagged tag node =>
      let (d, found) := expand target found node
      (.tagged tag d, found)
  | .anchored serial node =>
      let (d, found) := expand target found node
      (d, found.setIfInBounds serial d)
termination_by structural n => n

def expandItems (target : Nat → Document) (found : Array Document) :
    List Node → List Document × Array Document
  | [] => ([], found)
  | n :: ns =>
      let (d, found) := expand target found n
      let (ds, found) := expandItems target found ns
      (d :: ds, found)
termination_by structural ns => ns

def expandFields (target : Nat → Document) (found : Array Document) :
    List (Node × Node) → List (Document × Document) × Array Document
  | [] => ([], found)
  | (key, n) :: fs =>
      let (k, found) := expand target found key
      let (d, found) := expand target found n
      let (ds, found) := expandFields target found fs
      ((k, d) :: ds, found)
termination_by structural fs => fs

end

end Node

/-- A text as a node, with its anchors. -/
structure Source where
  node : Node
  /-- Number of anchors. -/
  anchors : Nat
  /-- For every number of an alias the serial number of the anchor that it belongs to. -/
  owners : Array Nat
deriving Repr

namespace Source

/-- How deeply aliases are put in for one another. Every alias inside of the node of
another one is inside of a list or record too, and deeper nesting is refused by
everybody who looks at it. -/
def aliasDepth : Nat := 136

/-- The document of an alias, by the documents of anchored nodes. -/
def target (source : Source) (found : Array Document) (n : Nat) : Document :=
  match source.owners[n]? with
  | some serial => found[serial]?.getD .illFormed
  | none => .illFormed

/-- One round: the document and its anchored nodes, by the anchored nodes of the round
in front. -/
def round (source : Source) (found : Array Document) : Document × Array Document :=
  source.node.expand (source.target found) (Array.replicate source.anchors .illFormed)

def rounds (source : Source) : Nat → Array Document → Array Document
  | 0, found => found
  | count + 1, found => source.rounds count (source.round found).2

/-- The document, with the nodes in place of their aliases. -/
def toDocument (source : Source) : Document :=
  let depth := if source.anchors == 0 then 0 else aliasDepth
  (source.round (source.rounds depth #[])).1

end Source

end ChatArgs.Document.Yaml
