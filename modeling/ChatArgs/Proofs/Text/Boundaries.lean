import ChatArgs.Args
import ChatArgs.Proofs.Text.Places

/-!
# Boundaries of a text

A byte offset is a boundary of a text if it lies between two characters or at an end: there a
string can be cut. Places of a text stand at boundaries, and between two boundaries in order
stands a slice.
-/

namespace ChatArgs

namespace Text

variable {text : List Char} {c c' : Cursor} {start stop : Nat}

/-- The offset lies between two characters of the text, or at one of its ends. -/
def IsBoundary (text : List Char) (offset : Nat) : Prop :=
  ∃ front rest, text = front ++ rest ∧ byteLength front = offset

theorem isBoundary_length (text : List Char) : IsBoundary text (byteLength text) :=
  ⟨text, [], (List.append_nil text).symm, rfl⟩

theorem IsBoundary.le_length (boundary : IsBoundary text start) : start ≤ byteLength text := by
  obtain ⟨front, rest, rfl, rfl⟩ := boundary
  rw [byteLength_append]
  exact Nat.le_add_right ..

theorem IsBoundary.exists_between (first : IsBoundary text start) (second : IsBoundary text stop)
    (ordered : start ≤ stop) :
    ∃ front slice rest, text = front ++ (slice ++ rest) ∧ byteLength front = start ∧
      start + byteLength slice = stop := by
  obtain ⟨front, rest, rfl, rfl⟩ := first
  obtain ⟨front', rest', split, rfl⟩ := second
  rcases List.append_eq_append_iff.1 split with ⟨slice, rfl, rfl⟩ | ⟨more, rfl, rfl⟩
  · exact ⟨front, slice, rest', rfl, rfl, (byteLength_append front slice).symm⟩
  · have none : more = [] := by
      by_contra filled
      have positive := byteLength_pos filled
      rw [byteLength_append] at ordered
      omega
    subst none
    exact ⟨front', [], rest, by simp, by simp, by simp⟩

/-! ## Strings -/

theorem utf8ByteSize_ofList (cs : List Char) :
    (String.ofList cs).utf8ByteSize = byteLength cs := by
  induction cs with
  | nil => rfl
  | cons c cs ih =>
      have split : String.ofList (c :: cs) = String.singleton c ++ String.ofList cs := by
        rw [← String.toList_inj]
        simp
      rw [split, String.utf8ByteSize_append, ih, String.utf8ByteSize_singleton, byteLength_cons]

theorem byteLength_toList (s : String) : byteLength s.toList = s.utf8ByteSize := by
  rw [← utf8ByteSize_ofList, String.ofList_toList]

/-- Boundaries are the positions where a string can be cut. -/
theorem IsBoundary.isValid {s : String} (boundary : IsBoundary s.toList start) :
    String.Pos.Raw.IsValid s ⟨start⟩ := by
  obtain ⟨front, rest, split, rfl⟩ := boundary
  refine String.Pos.Raw.isValid_iff_exists_append.2 ⟨.ofList front, .ofList rest, ?_, ?_⟩
  · rw [← String.ofList_append, ← split, String.ofList_toList]
  · rw [← utf8ByteSize_ofList]
    rfl

/-! ## Places -/

namespace Cursor

theorem In.isBoundary (place : c.In text) : IsBoundary text c.offset := by
  obtain ⟨front, split, offset, -⟩ := place
  exact ⟨front, c.rest, split, offset.symm⟩

theorem In.isBoundary_before (place : c.In text) {x : Char} (there : c.before = some x) :
    IsBoundary text (c.offset - x.utf8Size) ∧ x.utf8Size ≤ c.offset := by
  obtain ⟨front, split, offset, before⟩ := place
  obtain ⟨front', rfl⟩ := List.getLast?_eq_some_iff.1 (before.symm.trans there)
  have size : c.offset = byteLength front' + x.utf8Size := by simp [offset]
  refine ⟨⟨front', x :: c.rest, by simp [split], by omega⟩, by omega⟩

/-- A place that is not in front of another is behind the text between them. -/
theorem In.exists_past (place : c.In text) (place' : c'.In text) (ordered : c.offset ≤ c'.offset) :
    ∃ slice, c.rest = slice ++ c'.rest ∧ c' = c.past slice c'.rest := by
  obtain ⟨front, split, offset, before⟩ := place
  obtain ⟨front', split', offset', before'⟩ := place'
  obtain ⟨slice, all, rest⟩ : ∃ slice, front' = front ++ slice ∧ c.rest = slice ++ c'.rest := by
    rcases List.append_eq_append_iff.1 (split.symm.trans split') with between | ⟨more, all, rest⟩
    · exact between
    · have none : more = [] := by
        by_contra filled
        have positive := byteLength_pos filled
        rw [all, byteLength_append] at offset
        omega
      exact ⟨[], by simp [all, none], by simp [rest, none]⟩
  refine ⟨slice, rest, ?_⟩
  have offset'' : c'.offset = c.offset + byteLength slice := by
    rw [offset', all, byteLength_append, offset]
  have before'' : c'.before = slice.getLast?.or c.before := by
    rw [before', all, List.getLast?_append, before]
  rw [Cursor.past, ← offset'', ← before'']

theorem In.rest_congr (place : c.In text) (place' : c'.In text) (same : c.offset = c'.offset) :
    c.rest = c'.rest := by
  obtain ⟨slice, rest, behind⟩ := place.exists_past place' same.le
  have none : slice = [] := by
    by_contra filled
    have positive := byteLength_pos filled
    rw [behind, past_offset] at same
    omega
  rw [rest, none, List.nil_append]

end Cursor

end Text

open Text

/-! ## Slices -/

theorem dropBytes?_byteLength (front rest : List Char) :
    sliceBytes?.dropBytes? (byteLength front) (front ++ rest) = some rest := by
  induction front with
  | nil => cases rest <;> rfl
  | cons c front ih =>
      have positive := c.utf8Size_pos
      obtain ⟨bytes, size⟩ : ∃ bytes, c.utf8Size + byteLength front = bytes + 1 :=
        ⟨c.utf8Size + byteLength front - 1, by omega⟩
      rw [byteLength_cons, size, List.cons_append, sliceBytes?.dropBytes?]
      · rw [if_pos (by omega), ← size, Nat.add_sub_cancel_left, ih]
      · omega

theorem takeBytes?_byteLength (front rest : List Char) :
    sliceBytes?.takeBytes? (byteLength front) (front ++ rest) = some front := by
  induction front with
  | nil => cases rest <;> rfl
  | cons c front ih =>
      have positive := c.utf8Size_pos
      obtain ⟨bytes, size⟩ : ∃ bytes, c.utf8Size + byteLength front = bytes + 1 :=
        ⟨c.utf8Size + byteLength front - 1, by omega⟩
      rw [byteLength_cons, size, List.cons_append, sliceBytes?.takeBytes?]
      · rw [if_pos (by omega), ← size, Nat.add_sub_cancel_left, ih]
        rfl
      · omega

/-- Between two boundaries in order there is a slice. -/
theorem sliceBytes?_isSome {text : List Char} {start stop : Nat} (first : IsBoundary text start)
    (second : IsBoundary text stop) (ordered : start ≤ stop) :
    (sliceBytes? text start stop).isSome = true := by
  obtain ⟨front, slice, rest, rfl, rfl, rfl⟩ := first.exists_between second ordered
  rw [sliceBytes?, if_neg (by omega), dropBytes?_byteLength]
  simp only [Nat.add_sub_cancel_left, takeBytes?_byteLength, Option.isSome_some]

end ChatArgs
