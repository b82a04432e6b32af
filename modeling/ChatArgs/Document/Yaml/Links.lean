import ChatArgs.Document.Decoder
import ChatArgs.Document.Yaml.Reader

/-! # Following aliases

A few aliases of aliases can stand for a document of any size. So whoever reads a YAML
text follows at most a hundred aliases for each of its nodes. Only what is read counts,
and that depends on what is asked for: a `Shape` says which fields are looked at, and
`links` goes over them and counts down.
-/

namespace ChatArgs.Document

inductive Shape where
  | scalar
  | any
  | list (item : Shape)
  /-- The keys, and the values of these fields. -/
  | record (fields : List (String × Shape))
deriving Repr

namespace Shape

/-- What is looked at in the items of a list. -/
def item? : Shape → Option Shape
  | .any => some .any
  | .list item => some item
  | _ => none

def key? : Shape → Option Shape
  | .any => some .any
  | .record _ => some .scalar
  | _ => none

def value? (shape : Shape) (key : Document) : Option Shape :=
  match shape with
  | .any => some .any
  | .record fields => key.asText?.bind fun name => List.lookup name fields
  | _ => none

end Shape

mutual

/-- How many of `left` links are left behind the document; `none` when they are not
enough. -/
def links (shape : Shape) (left : Nat) : Document → Option Nat
  | .alias node => if left == 0 then none else links shape (left - 1) node
  | .tagged _ node => links shape left node
  | .list items =>
      match shape.item? with
      | some item => linksOfItems item left items
      | none => some left
  | .record fields =>
      match shape.key? with
      | some key => linksOfFields shape key left fields
      | none => some left
  | _ => some left
termination_by structural d => d

def linksOfItems (item : Shape) (left : Nat) : List Document → Option Nat
  | [] => some left
  | d :: ds =>
      match links item left d with
      | some left => linksOfItems item left ds
      | none => none
termination_by structural ds => ds

def linksOfFields (shape keyShape : Shape) (left : Nat) :
    List (Document × Document) → Option Nat
  | [] => some left
  | (key, d) :: fs =>
      match links keyShape left key with
      | none => none
      | some left =>
          match shape.value? key with
          | none => linksOfFields shape keyShape left fs
          | some value =>
              match links value left d with
              | some left => linksOfFields shape keyShape left fs
              | none => none
termination_by structural fs => fs

end

/-- Reads a YAML text for somebody who looks at these parts; `none` when it is not one
document or needs too many aliases followed. -/
def ofYaml? (shape : Shape) (s : String) : Option Document := do
  let source ← Yaml.readSource? s
  let d := source.toDocument
  let _ ← links shape (100 * source.node.size) d
  pure d

end ChatArgs.Document
