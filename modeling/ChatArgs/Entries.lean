/-! # Named entries

A finite map from names to values, kept as a list of pairs. Inserting a name that
is there replaces its value and keeps its place; a new name goes to the back.
The lemmas say what `insert` and `modify` do to the look-up `get?`.
-/

namespace ChatArgs

/-- A finite map from names to values. -/
structure Entries (α : Type) where
  toList : List (String × α) := []
deriving Repr

namespace Entries

variable {α : Type}

def empty : Entries α := ⟨[]⟩

/-- The value of a name in a list of pairs: the first pair decides. -/
def find (name : String) : List (String × α) → Option α
  | [] => none
  | entry :: rest => if entry.1 = name then some entry.2 else find name rest

def put (name : String) (value : α) : List (String × α) → List (String × α)
  | [] => [(name, value)]
  | entry :: rest =>
      if entry.1 = name then (name, value) :: rest else entry :: put name value rest

def change (name : String) (f : α → α) : List (String × α) → List (String × α)
  | [] => []
  | entry :: rest =>
      if entry.1 = name then (entry.1, f entry.2) :: rest else entry :: change name f rest

def get? (m : Entries α) (name : String) : Option α :=
  find name m.toList

def insert (m : Entries α) (name : String) (value : α) : Entries α :=
  ⟨put name value m.toList⟩

def modify (m : Entries α) (name : String) (f : α → α) : Entries α :=
  ⟨change name f m.toList⟩

def keys (m : Entries α) : List String :=
  m.toList.map (·.1)

def size (m : Entries α) : Nat :=
  m.toList.length

def isEmpty (m : Entries α) : Bool :=
  m.toList.isEmpty

/-- The pairs inserted one after the other, so that the last value of a name stays. -/
def ofList (pairs : List (String × α)) : Entries α :=
  pairs.foldl (fun m pair => m.insert pair.1 pair.2) empty

/-- Two maps with the same names and the same value for each; order does not count. -/
def agrees [BEq α] (m n : Entries α) : Bool :=
  m.size == n.size && m.toList.all fun entry =>
    match n.get? entry.1 with
    | some value => value == entry.2
    | none => false

@[simp] theorem get?_empty (name : String) : (empty : Entries α).get? name = none := rfl

theorem find_put (name other : String) (value : α) (l : List (String × α)) :
    find other (put name value l) = if name = other then some value else find other l := by
  induction l with
  | nil => simp [put, find]
  | cons entry rest ih =>
      by_cases h : entry.1 = name
      · by_cases k : name = other <;> simp [put, find, h, k]
      · by_cases k : name = other
        · subst k
          simp [put, find, h, ih]
        · simp [put, find, h, ih, k]

theorem find_change (name other : String) (f : α → α) (l : List (String × α)) :
    find other (change name f l) =
      if name = other then (find other l).map f else find other l := by
  induction l with
  | nil => simp [change, find]
  | cons entry rest ih =>
      by_cases h : entry.1 = name
      · by_cases k : name = other <;> simp [change, find, h, k]
      · by_cases k : name = other
        · subst k
          simp [change, find, h, ih]
        · simp [change, find, h, ih, k]

theorem get?_insert (m : Entries α) (name other : String) (value : α) :
    (m.insert name value).get? other = if name = other then some value else m.get? other :=
  find_put name other value m.toList

theorem get?_modify (m : Entries α) (name other : String) (f : α → α) :
    (m.modify name f).get? other =
      if name = other then (m.get? other).map f else m.get? other :=
  find_change name other f m.toList

theorem mem_keys_put (name other : String) (value : α) (l : List (String × α)) :
    other ∈ (put name value l).map (·.1) ↔ other = name ∨ other ∈ l.map (·.1) := by
  induction l with
  | nil => simp [put]
  | cons entry rest ih =>
      by_cases h : entry.1 = name
      · simp [put, h]
      · simp only [put, h, if_false, List.map_cons, List.mem_cons, ih]
        constructor
        · rintro (h | h | h) <;> simp [h]
        · rintro (h | h | h) <;> simp [h]

theorem mem_keys_insert (m : Entries α) (name other : String) (value : α) :
    other ∈ (m.insert name value).keys ↔ other = name ∨ other ∈ m.keys :=
  mem_keys_put name other value m.toList

theorem keys_change (name : String) (f : α → α) (l : List (String × α)) :
    (change name f l).map (·.1) = l.map (·.1) := by
  induction l with
  | nil => rfl
  | cons entry rest ih =>
      by_cases h : entry.1 = name <;> simp [change, h, ih]

@[simp] theorem keys_modify (m : Entries α) (name : String) (f : α → α) :
    (m.modify name f).keys = m.keys :=
  keys_change name f m.toList

theorem find_isSome_iff (name : String) (l : List (String × α)) :
    (find name l).isSome = true ↔ name ∈ l.map (·.1) := by
  induction l with
  | nil => simp [find]
  | cons entry rest ih =>
      by_cases h : entry.1 = name
      · simp [find, h]
      · have back : ¬ name = entry.1 := fun e => h e.symm
        simp [find, h, back, ih]

theorem get?_isSome_iff (m : Entries α) (name : String) :
    (m.get? name).isSome = true ↔ name ∈ m.keys :=
  find_isSome_iff name m.toList

end Entries

end ChatArgs
