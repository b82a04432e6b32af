import ChatArgs.Proofs.Text.Places

/-!
# A text with another behind it

`Cursor.extend tail c` is the place `c` where `tail` stands behind the text. Slices up to the
end of the text are the same there.
-/

namespace ChatArgs.Text

theorem takeBytes_append {bytes : Nat} {cs : List Char} (inside : bytes ≤ byteLength cs)
    (tail : List Char) : takeBytes bytes (cs ++ tail) = takeBytes bytes cs := by
  induction cs generalizing bytes with
  | nil =>
      have none : bytes = 0 := Nat.le_zero.1 inside
      subst none
      cases tail with
      | nil => rfl
      | cons x tail =>
          have positive := x.utf8Size_pos
          simp only [List.nil_append, takeBytes]
          rw [if_neg (by omega)]
  | cons c cs ih =>
      rw [byteLength_cons] at inside
      simp only [List.cons_append, takeBytes]
      split
      · rw [ih (by omega)]
      · rfl

namespace Cursor

variable {text tail : List Char} {c : Cursor} {stop : Nat}

def extend (tail : List Char) (c : Cursor) : Cursor :=
  { c with rest := c.rest ++ tail }

@[simp] theorem extend_offset (tail : List Char) (c : Cursor) :
    (c.extend tail).offset = c.offset := rfl

theorem next_extend {x : Char} (there : c.after = some x) :
    (c.extend tail).next = c.next.extend tail := by
  obtain ⟨rest, split⟩ := List.head?_eq_some_iff.1 there
  simp [next, extend, split]

theorem forward_extend {count : Nat} (inside : count ≤ c.rest.length) :
    (c.extend tail).forward count = (c.forward count).extend tail := by
  induction count generalizing c with
  | zero => rfl
  | succ count ih =>
      cases split : c.rest with
      | nil => simp [split] at inside
      | cons x rest =>
          have there : c.after = some x := by simp [after, split]
          rw [forward, forward, next_extend there]
          apply ih
          rw [next_eq_past split, past_rest]
          rw [split, List.length_cons] at inside
          omega

theorem textTo_extend (inside : stop ≤ c.offset + byteLength c.rest) :
    (c.extend tail).textTo stop = c.textTo stop := by
  apply takeBytes_append
  change stop - c.offset ≤ byteLength c.rest
  omega

/-- The slice up to the place behind the blank that follows the text. -/
theorem In.textTo_blank (place : c.In text) (blank : tail.head? = some ' ') :
    (c.extend tail).textTo (byteLength text + 1) = c.rest ++ [' '] := by
  obtain ⟨tail', rfl⟩ := List.head?_eq_some_iff.1 blank
  have split : (c.extend (' ' :: tail')).rest = (c.rest ++ [' ']) ++ tail' := by simp [extend]
  have stop : byteLength text + 1 =
      (c.extend (' ' :: tail')).offset + byteLength (c.rest ++ [' ']) := by
    have size : byteLength [' '] = 1 := by decide
    rw [byteLength_append, size, extend_offset, ← place.offset_add, Nat.add_assoc]
  rw [stop]
  exact textTo_eq_front split

end Cursor

end ChatArgs.Text
