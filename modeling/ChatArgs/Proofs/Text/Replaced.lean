import ChatArgs.Proofs.Text.Boundaries

/-!
# A text with other characters

`Cursor.map r c` is the place `c` where each character of the text is replaced by `r`. Where the
new characters take as many bytes as the old ones, all offsets stay, and a slice is replaced as
the text is.
-/

namespace ChatArgs

/-! ## Strings -/

theorem map_ofList (r : Char → Char) (cs : List Char) :
    (String.ofList cs).map r = String.ofList (cs.map r) := by
  rw [← String.toList_inj]
  simp

theorem map_append (r : Char → Char) (a b : String) :
    (a ++ b).map r = a.map r ++ b.map r := by
  rw [← String.toList_inj]
  simp

theorem map_empty (r : Char → Char) : "".map r = "" := by
  rw [← String.toList_inj]
  simp

theorem map_eq_self {r : Char → Char} {cs : List Char} (fixed : ∀ c ∈ cs, r c = c) :
    cs.map r = cs := by
  rw [List.map_congr_left fixed, List.map_id']

namespace Text

variable {r : Char → Char}

theorem takeWhile_map {p : Char → Bool} (same : ∀ c, p (r c) = p c) (cs : List Char) :
    (cs.map r).takeWhile p = (cs.takeWhile p).map r := by
  rw [List.takeWhile_map, show p ∘ r = p from funext same]

theorem dropWhile_map {p : Char → Bool} (same : ∀ c, p (r c) = p c) (cs : List Char) :
    (cs.map r).dropWhile p = (cs.dropWhile p).map r := by
  rw [List.dropWhile_map, show p ∘ r = p from funext same]

theorem isPrefixOf_map {front : List Char} (same : ∀ x ∈ front, ∀ c, (r c == x) = (c == x))
    (cs : List Char) : front.isPrefixOf (cs.map r) = front.isPrefixOf cs := by
  induction front generalizing cs with
  | nil => simp
  | cons x front ih =>
      cases cs with
      | nil => rfl
      | cons c cs =>
          have first : (x == r c) = (x == c) := by
            rw [Bool.beq_comm (a := x), Bool.beq_comm (a := x)]
            exact same x List.mem_cons_self c
          rw [List.map_cons, List.isPrefixOf, List.isPrefixOf, first,
            ih fun y member => same y (List.mem_cons_of_mem x member)]

theorem trim_map (same : ∀ c, isBlank (r c) = isBlank c) (cs : List Char) :
    trim (cs.map r) = (trim cs).map r := by
  unfold trim trimEnd trimStart
  rw [dropWhile_map same, ← List.map_reverse, dropWhile_map same, ← List.map_reverse]

theorem all_map {p : Char → Bool} (same : ∀ c, p (r c) = p c) (cs : List Char) :
    (cs.map r).all p = cs.all p := by
  rw [List.all_map, show p ∘ r = p from funext same]

theorem map_beq_some {x : Char} (same : ∀ c, (r c == x) = (c == x)) (next : Option Char) :
    (next.map r == some x) = (next == some x) := by
  cases next with
  | none => rfl
  | some c =>
      rw [Option.map_some, Option.some_beq_some, Option.some_beq_some]
      exact same c

/-! ## Places -/

namespace Cursor

def map (r : Char → Char) (c : Cursor) : Cursor :=
  ⟨c.offset, c.before.map r, c.rest.map r⟩

section

variable (r : Char → Char) (c : Cursor)

@[simp] theorem map_offset : (c.map r).offset = c.offset := rfl

@[simp] theorem map_rest : (c.map r).rest = c.rest.map r := rfl

@[simp] theorem map_after : (c.map r).after = c.after.map r := List.head?_map

theorem map_id : c.map id = c := by
  simp [map]

end

variable (size : ∀ c, (r c).utf8Size = c.utf8Size)
include size

theorem byteLength_map (cs : List Char) : byteLength (cs.map r) = byteLength cs := by
  induction cs with
  | nil => rfl
  | cons c cs ih => rw [List.map_cons, byteLength_cons, byteLength_cons, size, ih]

theorem takeBytes_map (bytes : Nat) (cs : List Char) :
    takeBytes bytes (cs.map r) = (takeBytes bytes cs).map r := by
  induction cs generalizing bytes with
  | nil => rfl
  | cons c cs ih =>
      rw [List.map_cons, takeBytes, takeBytes, size]
      split
      · rw [ih, List.map_cons]
      · rfl

theorem next_map (c : Cursor) : (c.map r).next = c.next.map r := by
  unfold next
  rw [map_rest]
  cases c.rest with
  | nil => rfl
  | cons x rest => simp [map, size]

theorem forward_map (c : Cursor) (count : Nat) :
    (c.map r).forward count = (c.forward count).map r := by
  induction count generalizing c with
  | zero => rfl
  | succ count ih => rw [forward, forward, next_map size, ih]

theorem textTo_map (c : Cursor) (stop : Nat) : (c.map r).textTo stop = (c.textTo stop).map r :=
  takeBytes_map size _ c.rest

theorem past_map (c : Cursor) (front rest : List Char) :
    (c.map r).past (front.map r) (rest.map r) = (c.past front rest).map r := by
  simp only [past, map, byteLength_map size, List.getLast?_map, Cursor.mk.injEq, true_and, and_true]
  cases front.getLast? <;> rfl

end Cursor

end Text

end ChatArgs
