/-! # Places in a text

A text is a list of characters, and every offset that the library answers is a
byte offset into its UTF-8 form. A `Cursor` is a place between two characters:
it knows its byte offset, the character in front of it and the text behind it,
so that looking around costs nothing and a slice costs its own length.

`Cursor.In text c` says that `c` is a place of `text`; moving keeps it.
-/

namespace ChatArgs.Text

/-- Length of the UTF-8 form in bytes. -/
def byteLength : List Char → Nat
  | [] => 0
  | c :: cs => c.utf8Size + byteLength cs

/-- The longest front part of the text that fits into `bytes` bytes. -/
def takeBytes : Nat → List Char → List Char
  | _, [] => []
  | bytes, c :: cs =>
      if c.utf8Size ≤ bytes then c :: takeBytes (bytes - c.utf8Size) cs else []

/-- A place between two characters of a text. -/
structure Cursor where
  /-- Bytes of the text in front of the place. -/
  offset : Nat
  /-- The character in front of the place, if there is one. -/
  before : Option Char
  /-- The text behind the place. -/
  rest : List Char
deriving Repr, DecidableEq

namespace Cursor

def start (text : List Char) : Cursor :=
  ⟨0, none, text⟩

/-- One character forward; the end of the text stays where it is. -/
def next (c : Cursor) : Cursor :=
  match c.rest with
  | [] => c
  | head :: tail => ⟨c.offset + head.utf8Size, some head, tail⟩

def forward (c : Cursor) : Nat → Cursor
  | 0 => c
  | count + 1 => c.next.forward count

def after (c : Cursor) : Option Char :=
  c.rest.head?

/-- The text from the place up to a byte offset; nothing when the offset is not
behind the place. -/
def textTo (c : Cursor) (stop : Nat) : List Char :=
  takeBytes (stop - c.offset) c.rest

/-- The place lies in the text: the text splits there. -/
def In (text : List Char) (c : Cursor) : Prop :=
  ∃ front, text = front ++ c.rest ∧ c.offset = byteLength front ∧ c.before = front.getLast?

end Cursor

@[simp] theorem byteLength_nil : byteLength [] = 0 := rfl

@[simp] theorem byteLength_cons (c : Char) (cs : List Char) :
    byteLength (c :: cs) = c.utf8Size + byteLength cs := rfl

@[simp] theorem byteLength_append (xs ys : List Char) :
    byteLength (xs ++ ys) = byteLength xs + byteLength ys := by
  induction xs with
  | nil => simp
  | cons c cs ih => simp [ih, Nat.add_assoc]

/-- A front part is recovered from its byte length. -/
@[simp] theorem takeBytes_byteLength (xs ys : List Char) :
    takeBytes (byteLength xs) (xs ++ ys) = xs := by
  induction xs with
  | nil =>
      cases ys with
      | nil => rfl
      | cons c cs =>
          have positive := c.utf8Size_pos
          simp only [byteLength_nil, List.nil_append, takeBytes]
          rw [if_neg (by omega)]
  | cons c cs ih => simp [takeBytes, ih]

namespace Cursor

theorem start_in (text : List Char) : (start text).In text :=
  ⟨[], by simp [start]⟩

theorem next_in {text : List Char} {c : Cursor} (h : c.In text) : c.next.In text := by
  obtain ⟨front, split, offset, before⟩ := h
  cases hr : c.rest with
  | nil =>
      have same : c.next = c := by simp [next, hr]
      rw [same]
      exact ⟨front, split, offset, before⟩
  | cons head tail =>
      refine ⟨front ++ [head], ?_, ?_, ?_⟩
      · simp [next, hr, split]
      · simp [next, hr, offset]
      · simp [next, hr]

theorem forward_in {text : List Char} {c : Cursor} (h : c.In text) (count : Nat) :
    (c.forward count).In text := by
  induction count generalizing c with
  | zero => exact h
  | succ count ih => exact ih (next_in h)

end Cursor

end ChatArgs.Text
