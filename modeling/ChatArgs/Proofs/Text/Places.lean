import ChatArgs.Text.Blank
import ChatArgs.Text.Cursor
import Mathlib.Data.List.TakeWhile

/-!
# Moving over a text

`Cursor.past c front rest` is the place behind `front` and in front of `rest`, for a place
`c` behind which `front ++ rest` stands. A slice up to there is `front`.
-/

namespace ChatArgs.Text

/-! ## Cursors -/

namespace Cursor

/-- The place behind `front`, where `rest` follows. -/
def past (c : Cursor) (front rest : List Char) : Cursor :=
  ⟨c.offset + byteLength front, front.getLast?.or c.before, rest⟩

section

variable (c : Cursor) (front rest : List Char)

@[simp] theorem past_offset : (c.past front rest).offset = c.offset + byteLength front := rfl

@[simp] theorem past_rest : (c.past front rest).rest = rest := rfl

@[simp] theorem past_after : (c.past front rest).after = rest.head? := rfl

@[simp] theorem past_nil : c.past [] c.rest = c := rfl

theorem past_past (more rest' : List Char) :
    (c.past front rest).past more rest' = c.past (front ++ more) rest' := by
  simp only [past, byteLength_append, List.getLast?_append, Cursor.mk.injEq, and_true]
  constructor
  · omega
  · cases more.getLast? <;> rfl

end

variable {c : Cursor} {front rest text : List Char}

theorem past_nil_of_rest (h : c.rest = rest) : c.past [] rest = c := by
  rw [← h, past_nil]

theorem next_eq_past {x : Char} (h : c.rest = x :: rest) : c.next = c.past [x] rest := by
  simp [next, h, past]

theorem forward_eq_past (h : c.rest = front ++ rest) :
    c.forward front.length = c.past front rest := by
  induction front generalizing c with
  | nil =>
      have same : c.rest = rest := h
      rw [← same]
      rfl
  | cons x front ih =>
      have step : c.next = c.past [x] (front ++ rest) := next_eq_past h
      have there : c.next.forward front.length = (c.past [x] (front ++ rest)).past front rest := by
        rw [step]
        exact ih rfl
      rw [List.length_cons, forward, there, past_past]
      rfl

theorem forward_rest_congr {c c' : Cursor} (same : c.rest = c'.rest) (count : Nat) :
    (c.forward count).rest = (c'.forward count).rest := by
  induction count generalizing c c' with
  | zero => exact same
  | succ count ih =>
      apply ih
      unfold next
      rw [same]
      split
      · exact same
      · rfl

theorem past_total (split : c.rest = front ++ rest) :
    (c.past front rest).offset + byteLength (c.past front rest).rest =
      c.offset + byteLength c.rest := by
  rw [past_offset, past_rest, split, byteLength_append]
  omega

theorem exists_before (c : Cursor) (filled : front ≠ []) (rest : List Char) :
    ∃ last ∈ front, (c.past front rest).before = some last := by
  refine ⟨front.getLast filled, List.getLast_mem filled, ?_⟩
  simp [past, List.getLast?_eq_some_getLast filled]

theorem textTo_eq_front (h : c.rest = front ++ rest) :
    c.textTo (c.offset + byteLength front) = front := by
  simp [textTo, h]

theorem textTo_eq_rest : c.textTo (c.offset + byteLength c.rest) = c.rest :=
  textTo_eq_front (List.append_nil c.rest).symm

theorem le_next_offset (c : Cursor) : c.offset ≤ c.next.offset := by
  unfold next
  split
  · exact Nat.le_refl _
  · exact Nat.le_add_right ..

theorem le_forward_offset (c : Cursor) (count : Nat) : c.offset ≤ (c.forward count).offset := by
  induction count generalizing c with
  | zero => exact Nat.le_refl _
  | succ count ih => exact c.le_next_offset.trans (ih c.next)

/-- Moving inside a slice does not leave it. -/
theorem forward_offset_le {c : Cursor} {stop count : Nat} (ahead : c.offset ≤ stop)
    (inside : count ≤ (c.textTo stop).length) : (c.forward count).offset ≤ stop := by
  induction count generalizing c with
  | zero => exact ahead
  | succ count ih =>
      cases all : c.rest with
      | nil => simp [textTo, all, takeBytes] at inside
      | cons x rest =>
          have next : c.next = ⟨c.offset + x.utf8Size, some x, rest⟩ := by simp [Cursor.next, all]
          rw [textTo, all, takeBytes] at inside
          split at inside
          · rw [forward, next]
            apply ih
            · dsimp only
              omega
            · rw [textTo, Nat.sub_add_eq]
              exact Nat.le_of_succ_le_succ inside
          · simp at inside

theorem In.offset_add (place : c.In text) : c.offset + byteLength c.rest = byteLength text := by
  obtain ⟨front, split, offset, -⟩ := place
  rw [split, byteLength_append, offset]

theorem In.offset_le (place : c.In text) : c.offset ≤ byteLength text := by
  have total := place.offset_add
  omega

theorem In.past (place : c.In text) (split : c.rest = front ++ rest) :
    (c.past front rest).In text := by
  rw [← forward_eq_past split]
  exact forward_in place _

theorem In.notMem (place : c.In text) {x : Char} (outside : x ∉ text) : x ∉ c.rest := by
  obtain ⟨front, split, -, -⟩ := place
  rw [split, List.mem_append, not_or] at outside
  exact outside.2

theorem In.textTo_end (place : c.In text) : c.textTo (byteLength text) = c.rest := by
  rw [← place.offset_add]
  exact textTo_eq_rest

theorem length_textTo_le (c : Cursor) (stop : Nat) : (c.textTo stop).length ≤ c.rest.length := by
  rw [textTo]
  generalize stop - c.offset = bytes
  induction c.rest generalizing bytes with
  | nil => simp [takeBytes]
  | cons x rest ih =>
      rw [takeBytes]
      split
      · exact Nat.succ_le_succ (ih _)
      · exact Nat.zero_le _

end Cursor

/-! ## Runs at the front of a text -/

/-- A text is the longest front part of a class and a rest that does not go on with it. -/
theorem exists_span (p : Char → Bool) (cs : List Char) :
    ∃ rest, cs = cs.takeWhile p ++ rest ∧ cs.drop (cs.takeWhile p).length = rest ∧
      ∀ c ∈ rest.head?, p c = false := by
  have split : cs = cs.takeWhile p ++ cs.dropWhile p := List.takeWhile_append_dropWhile.symm
  refine ⟨cs.dropWhile p, split, ?_, ?_⟩
  · have drop := congrArg (List.drop (cs.takeWhile p).length) split
    rw [drop, List.drop_left]
  · intro c hc
    have stop := List.head?_dropWhile_not p cs
    rw [Option.mem_def.1 hc] at stop
    simpa using stop

/-- The longest front part of a class is found where the rest does not go on with it. -/
theorem takeWhile_append_stop {p : Char → Bool} {front rest : List Char}
    (inside : ∀ c ∈ front, p c = true) (stop : ∀ c ∈ rest.head?, p c = false) :
    (front ++ rest).takeWhile p = front := by
  rw [List.takeWhile_append_of_pos inside]
  cases rest with
  | nil => simp
  | cons c rest =>
      have outside := stop c rfl
      simp [outside]

/-- The same for a run of one character. -/
theorem exists_run (a : Char) (cs : List Char) :
    ∃ rest, cs = List.replicate (cs.takeWhile (· == a)).length a ++ rest ∧
      cs.drop (cs.takeWhile (· == a)).length = rest ∧ rest.head? ≠ some a := by
  obtain ⟨rest, split, drop, stop⟩ := exists_span (· == a) cs
  have run : cs.takeWhile (· == a) = List.replicate (cs.takeWhile (· == a)).length a := by
    rw [List.eq_replicate_iff]
    refine ⟨rfl, ?_⟩
    intro c hc
    have same := List.all_eq_true.1 List.all_takeWhile c hc
    simpa using same
  refine ⟨rest, ?_, drop, ?_⟩
  · rw [← run]
    exact split
  · intro head
    have different := stop a head
    simp at different

/-- A part of a text ends in front of a character that it does not hold. -/
theorem exists_in_front {cs rest text rest' : List Char} (split : cs ++ rest = text ++ rest')
    (stop : ∀ c ∈ rest.head?, c ∉ text) : ∃ cs', cs = text ++ cs' ∧ rest' = cs' ++ rest := by
  rcases List.append_eq_append_iff.1 split with ⟨behind, inner, split⟩ | ⟨cs', inner, split⟩
  · cases behind with
    | nil => exact ⟨[], by simpa using inner.symm, by simpa using split.symm⟩
    | cons c behind => exact absurd (by simp [inner]) (stop c (by simp [split]))
  · exact ⟨cs', inner, split⟩

/-! ## Lengths and trimming -/

theorem byteLength_pos {cs : List Char} (h : cs ≠ []) : 0 < byteLength cs := by
  cases cs with
  | nil => exact absurd rfl h
  | cons c cs =>
      have positive := c.utf8Size_pos
      rw [byteLength_cons]
      omega

theorem length_le_byteLength (cs : List Char) : cs.length ≤ byteLength cs := by
  induction cs with
  | nil => exact Nat.le_refl 0
  | cons c cs ih =>
      have positive := c.utf8Size_pos
      rw [List.length_cons, byteLength_cons]
      omega

/-- Blanks around a text are all that trimming takes away. -/
theorem trim_surround {front back cs : List Char} (hfront : ∀ c ∈ front, isBlank c = true)
    (hback : ∀ c ∈ back, isBlank c = true) : trim (front ++ cs ++ back) = trim cs := by
  have start : trimStart (front ++ (cs ++ back)) = trimStart (cs ++ back) := by
    simp only [trimStart]
    rw [List.dropWhile_append_of_pos hfront]
  have stop (xs : List Char) : trimEnd (xs ++ back) = trimEnd xs := by
    simp only [trimEnd, List.reverse_append]
    rw [List.dropWhile_append_of_pos (by simpa using hback)]
  rw [trim, List.append_assoc, start, trim]
  by_cases h : ∀ c ∈ cs, isBlank c = true
  · have all : trimStart (cs ++ back) = [] := by
      rw [trimStart, List.dropWhile_eq_nil_iff]
      intro c hc
      rcases List.mem_append.1 hc with hc | hc
      · exact h c hc
      · exact hback c hc
    have none : trimStart cs = [] := by
      rw [trimStart, List.dropWhile_eq_nil_iff]
      exact h
    rw [all, none]
  · have inside : trimStart (cs ++ back) = trimStart cs ++ back := by
      rw [trimStart, trimStart, List.dropWhile_append, if_neg]
      simpa [List.isEmpty_iff, List.dropWhile_eq_nil_iff] using h
    rw [inside, stop]

theorem trim_append_blank (cs : List Char) : trim (cs ++ [' ']) = trim cs := by
  have blank : isBlank ' ' = true := by decide
  have surround : trim ([] ++ cs ++ [' ']) = trim cs := trim_surround (by simp) (by simp [blank])
  simpa using surround

theorem trim_cons_blank (cs : List Char) : trim (' ' :: cs) = trim cs := by
  have blank : isBlank ' ' = true := by decide
  have surround : trim ([' '] ++ cs ++ []) = trim cs := trim_surround (by simp [blank]) (by simp)
  simpa using surround

theorem trim_of_blank {cs : List Char} (h : ∀ c ∈ cs, isBlank c = true) : trim cs = [] := by
  have start : trimStart cs = [] := by
    rw [trimStart, List.dropWhile_eq_nil_iff]
    exact h
  rw [trim, start, trimEnd_nil]

theorem trim_of_visible {word : List Char} (visible : ∀ c ∈ word, isBlank c = false) :
    trim word = word := by
  have keep (cs : List Char) (shown : ∀ c ∈ cs, isBlank c = false) : cs.dropWhile isBlank = cs := by
    cases cs with
    | nil => rfl
    | cons c cs => simp [shown c List.mem_cons_self]
  rw [trim, trimStart, keep word visible, trimEnd, keep word.reverse (by simpa using visible),
    List.reverse_reverse]

theorem all_isBlank_trim (cs : List Char) : (trim cs).all isBlank = (trim cs).isEmpty := by
  have reversed : (trim cs).reverse = (trimStart cs).reverse.dropWhile isBlank := by
    rw [trim, trimEnd, List.reverse_reverse]
  cases last : (trimStart cs).reverse.dropWhile isBlank with
  | nil =>
      rw [last, List.reverse_eq_nil_iff] at reversed
      rw [reversed]
      rfl
  | cons c rest =>
      have visible := List.head?_dropWhile_not isBlank (trimStart cs).reverse
      rw [last] at reversed visible
      rw [List.reverse_eq_iff] at reversed
      simp_all

/-! ### Trimming behind a front part -/

theorem trimEnd_append_of_visible (front : List Char) {y : Char} (visible : isBlank y = false)
    (cs : List Char) : trimEnd (front ++ y :: cs) = front ++ y :: trimEnd cs := by
  have kept : ¬ isBlank y = true := by simp [visible]
  have reversed : (front ++ y :: cs).reverse = cs.reverse ++ y :: front.reverse := by simp
  rw [trimEnd, reversed, List.dropWhile_append]
  split
  · rename_i none
    rw [List.isEmpty_iff] at none
    rw [List.dropWhile_cons_of_neg kept, trimEnd, none]
    simp
  · simp [trimEnd]

/-- No blank stands at the start of a text, so that trimming takes nothing away there. -/
def StartsVisibly (cs : List Char) : Prop :=
  ∀ b ∈ cs.head?, isBlank b = false

theorem StartsVisibly.append {front back : List Char} (starts : StartsVisibly front)
    (starts' : StartsVisibly back) : StartsVisibly (front ++ back) := by
  cases front with
  | nil => exact starts'
  | cons a front => exact starts

theorem StartsVisibly.of_forall {cs : List Char} (visible : ∀ b ∈ cs, isBlank b = false) :
    StartsVisibly cs :=
  fun b member => visible b (List.mem_of_mem_head? member)

theorem trim_append_of_visible {front : List Char}
    (starts : StartsVisibly front) {y : Char} (visible : isBlank y = false)
    (cs : List Char) : trim (front ++ y :: cs) = front ++ y :: trimEnd cs := by
  rw [trim, ← trimEnd_append_of_visible front visible]
  congr 1
  cases front with
  | nil => simp [trimStart, visible]
  | cons b front => simp [trimStart, starts b rfl]

theorem trimEnd_prefix (cs : List Char) : trimEnd cs <+: cs := by
  rw [trimEnd, ← List.reverse_suffix, List.reverse_reverse]
  exact List.dropWhile_suffix _

end ChatArgs.Text
