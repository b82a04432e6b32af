import ChatArgs.Document.Yaml.Node
import ChatArgs.Document.Yaml.Token
import ChatArgs.Entries

/-! # Reading YAML

The tokens of a text are put together to one node. An anchor's name has a number: when a
name is written, it gets the number of names that are known by then. So a name that is
written again moves on to a new number, which it may come to share with the next name;
of the anchors that share a number the last one keeps it. More than one document is a
mistake; no document at all is an empty scalar.
-/

namespace ChatArgs.Document

namespace Yaml

/-- The tokens that are still to be read, and what was declared so far. -/
structure Feed where
  tokens : List Token
  /-- The numbers of the names of anchors. -/
  names : Entries Nat := {}
  /-- Number of anchors. -/
  anchors : Nat := 0
  /-- For every number the serial number of the last anchor that got it. -/
  owners : Array Nat := #[]
  /-- Handles of tags that the document declares, with what they stand for. -/
  handles : List (String × List UInt8) := []

/-- Another anchor with a name. -/
def Feed.anchor (f : Feed) (name : String) : Feed :=
  let n := f.names.size
  { f with
    names := f.names.insert name n
    anchors := f.anchors + 1
    owners :=
      if n < f.owners.size then f.owners.setIfInBounds n f.anchors
      else f.owners.push f.anchors }

/-- A step of the reader, which may fail. -/
abbrev Reading := StateT Feed Option

def peek : Reading Token := do
  match (← get).tokens with
  | t :: _ => pure t
  | [] => pure .streamEnd

def drop : Reading Unit :=
  modify fun f => { f with tokens := f.tokens.tail }

def fail {α : Type} : Reading α :=
  fun _ => none

def emptyNode : Node := .scalar "" .plain

/-! ## Tags and anchors -/

/-- The octets in front of the tags of the core schema. -/
def coreOctets : List UInt8 :=
  "tag:yaml.org,2002:".toUTF8.toList

/-- The octets of the tags that have a meaning here. -/
def coreTags : List (List UInt8 × Tag) :=
  [("null", .null), ("bool", .bool), ("int", .int), ("float", .float)].map fun entry =>
    (coreOctets ++ entry.1.toUTF8.toList, entry.2)

/-- What the octets of a tag say. -/
def tagOf (octets : List UInt8) : Tag :=
  match octets with
  | 0x21 :: word =>
      match String.fromUTF8? ⟨word.toArray⟩ with
      | some w => .word w
      | none => .garbled
  | _ => (List.lookup octets coreTags).getD .foreign

def standardHandles : List (String × List UInt8) :=
  [("!", "!".toUTF8.toList), ("!!", coreOctets)]

/-- What a tag says; `none` when its handle is not known. -/
def TagSource.resolve? (handles : List (String × List UInt8)) (source : TagSource) :
    Option Tag :=
  if source.handle.isEmpty then some (tagOf source.suffix)
  else
    (List.lookup source.handle (handles ++ standardHandles)).map fun expansion =>
      tagOf (expansion ++ source.suffix)

/-- The properties in front of a node: an anchor and a tag in either order. -/
structure Properties where
  anchor : Option String := none
  tag : Option Tag := none

def readProperties : Nat → Properties → Reading Properties
  | 0, props => pure props
  | fuel + 1, props => do
      match ← peek with
      | .anchor name =>
          if props.anchor.isNone then
            drop
            readProperties fuel { props with anchor := some name }
          else pure props
      | .tag source =>
          if props.tag.isNone then
            drop
            match source.resolve? (← get).handles with
            | some tag => readProperties fuel { props with tag := some tag }
            | none => fail
          else pure props
      | _ => pure props

def Properties.isPresent (props : Properties) : Bool :=
  props.anchor.isSome || props.tag.isSome

/-- Reads a node behind its properties: its anchor counts from its start on. -/
def withProperties (props : Properties) (content : Reading Node) : Reading Node := do
  let serial := (← get).anchors
  match props.anchor with
  | some name => modify fun f => f.anchor name
  | none => pure ()
  let node ← content
  let node := match props.tag with
    | some tag => .tagged tag node
    | none => node
  pure (if props.anchor.isSome then .anchored serial node else node)

/-! ## Nodes -/

mutual

/-- Reads a node. `block` allows block collections, and `loose` items without an
indentation of their own. -/
def readNode : Nat → Bool → Bool → Reading Node
  | 0, _, _ => fail
  | fuel + 1, block, loose => do
      match ← peek with
      | .alias name =>
          drop
          match (← get).names.get? name with
          | some n => pure (.alias n)
          | none => fail
      | _ =>
          let props ← readProperties 2 {}
          withProperties props (readContent fuel block loose props.isPresent)

/-- Reads a node without its properties. Behind properties it may be left out. -/
def readContent : Nat → Bool → Bool → Bool → Reading Node
  | 0, _, _, _ => fail
  | fuel + 1, block, loose, optional => do
      match ← peek with
      | .blockEntry =>
          if loose then Node.list <$> readLooseItems fuel
          else if optional then pure emptyNode
          else fail
      | .scalar source style =>
          drop
          pure (.scalar source style)
      | .flowSequenceStart =>
          drop
          Node.list <$> readFlowItems fuel true
      | .flowMappingStart =>
          drop
          Node.record <$> readFlowFields fuel true
      | .blockSequenceStart =>
          if block then
            drop
            Node.list <$> readBlockItems fuel
          else if optional then pure emptyNode
          else fail
      | .blockMappingStart =>
          if block then
            drop
            Node.record <$> readBlockFields fuel
          else if optional then pure emptyNode
          else fail
      | _ => if optional then pure emptyNode else fail

def readBlockItems : Nat → Reading (List Node)
  | 0 => fail
  | fuel + 1 => do
      match ← peek with
      | .blockEntry =>
          drop
          let t ← peek
          let item ←
            if t == .blockEntry || t == .blockEnd then pure emptyNode
            else readNode fuel true false
          (item :: ·) <$> readBlockItems fuel
      | .blockEnd =>
          drop
          pure []
      | _ => fail

/-- Reads items that have no indentation of their own. -/
def readLooseItems : Nat → Reading (List Node)
  | 0 => fail
  | fuel + 1 => do
      match ← peek with
      | .blockEntry =>
          drop
          let t ← peek
          let item ←
            if t == .blockEntry || t == .key || t == .value || t == .blockEnd then
              pure emptyNode
            else readNode fuel true false
          (item :: ·) <$> readLooseItems fuel
      | _ => pure []

def readBlockFields : Nat → Reading (List (Node × Node))
  | 0 => fail
  | fuel + 1 => do
      match ← peek with
      | .key =>
          drop
          let t ← peek
          let key ←
            if t == .key || t == .value || t == .blockEnd then pure emptyNode
            else readNode fuel true true
          let value ←
            if (← peek) == .value then
              drop
              let t ← peek
              if t == .key || t == .value || t == .blockEnd then pure emptyNode
              else readNode fuel true true
            else pure emptyNode
          ((key, value) :: ·) <$> readBlockFields fuel
      | .blockEnd =>
          drop
          pure []
      | _ => fail

def readFlowItems : Nat → Bool → Reading (List Node)
  | 0, _ => fail
  | fuel + 1, first => do
      if (← peek) == .flowSequenceEnd then
        drop
        pure []
      else
        if !first then
          if (← peek) == .flowEntry then drop else fail
        match ← peek with
        | .flowSequenceEnd =>
            drop
            pure []
        | .key =>
            drop
            let t ← peek
            let key ←
              if t == .value || t == .flowEntry || t == .flowSequenceEnd then
                drop
                pure emptyNode
              else readNode fuel false false
            let value ←
              if (← peek) == .value then
                drop
                let t ← peek
                if t == .flowEntry || t == .flowSequenceEnd then pure emptyNode
                else readNode fuel false false
              else pure emptyNode
            (.record [(key, value)] :: ·) <$> readFlowItems fuel false
        | _ =>
            let item ← readNode fuel false false
            (item :: ·) <$> readFlowItems fuel false

def readFlowFields : Nat → Bool → Reading (List (Node × Node))
  | 0, _ => fail
  | fuel + 1, first => do
      if (← peek) == .flowMappingEnd then
        drop
        pure []
      else
        if !first then
          if (← peek) == .flowEntry then drop else fail
        match ← peek with
        | .flowMappingEnd =>
            drop
            pure []
        | .key =>
            drop
            let t ← peek
            let key ←
              if t == .value || t == .flowEntry || t == .flowMappingEnd then pure emptyNode
              else readNode fuel false false
            let value ←
              if (← peek) == .value then
                drop
                let t ← peek
                if t == .flowEntry || t == .flowMappingEnd then pure emptyNode
                else readNode fuel false false
              else pure emptyNode
            ((key, value) :: ·) <$> readFlowFields fuel false
        | _ =>
            let key ← readNode fuel false false
            ((key, emptyNode) :: ·) <$> readFlowFields fuel false

end

/-- Reads the directives in front of a document; answers whether there are any. -/
def readDirectives : Nat → Bool → Bool → Reading Bool
  | 0, _, found => pure found
  | fuel + 1, versioned, found => do
      match ← peek with
      | .versionDirective major minor =>
          if versioned || major != 1 || (minor != 1 && minor != 2) then fail
          else
            drop
            readDirectives fuel true true
      | .tagDirective handle expansion =>
          if (List.lookup handle (← get).handles).isSome then fail
          else
            modify fun f => { f with handles := (handle, expansion) :: f.handles }
            drop
            readDirectives fuel versioned true
      | _ => pure found

def dropEnds : Nat → Reading Unit
  | 0 => pure ()
  | fuel + 1 => do
      if (← peek) == .documentEnd then
        drop
        dropEnds fuel

def readDocument (fuel : Nat) : Reading Node := do
  if (← peek) == .streamEnd then pure emptyNode
  else
    let directed ← readDirectives fuel false false
    if (← peek) == .documentStart then
      drop
      match ← peek with
      | .versionDirective _ _ => pure emptyNode
      | .tagDirective _ _ => pure emptyNode
      | .documentStart => pure emptyNode
      | .documentEnd => pure emptyNode
      | .streamEnd => pure emptyNode
      | _ => readNode fuel true false
    else if directed then fail
    else readNode fuel true false

/-- Reads one document and nothing else. -/
def readStream (fuel : Nat) : Reading Node := do
  let d ← readDocument fuel
  dropEnds fuel
  if (← peek) == .streamEnd then pure d else fail

/-- Reads a YAML text; `none` when it is not one document. -/
def readSource? (s : String) : Option Source := do
  let tokens ← tokens? s.toList
  let (node, feed) ← (readStream (4 * tokens.length + 8)).run { tokens }
  pure ⟨node, feed.anchors, feed.owners⟩

end Yaml

end ChatArgs.Document
