import ChatArgs.Proofs.Parse.Sweep

/-!
# Tokens in front of a blank

The tokenizer looks only at what stands in front of a blank: no token goes over it, and which
token stands at a place does not depend on the text behind the next blank.
-/

namespace ChatArgs.Parse

open Text

variable {tail : List Char}

theorem takeWhile_append_blank {p : Char → Bool} (blank : tail.head? = some ' ')
    (stop : p ' ' = false) (cs : List Char) : (cs ++ tail).takeWhile p = cs.takeWhile p := by
  induction cs with
  | nil =>
      obtain ⟨rest, rfl⟩ := List.head?_eq_some_iff.1 blank
      simp [stop]
  | cons c cs ih => simp [List.takeWhile_cons, ih]

theorem drop_takeWhile_append (p : Char → Bool) (cs : List Char) :
    (cs ++ tail).drop (cs.takeWhile p).length = cs.drop (cs.takeWhile p).length ++ tail :=
  List.drop_append_of_le_length (List.takeWhile_sublist p).length_le

theorem isPrefixOf_append_blank (blank : tail.head? = some ' ') {front : List Char}
    (visible : ' ' ∉ front) (cs : List Char) :
    front.isPrefixOf (cs ++ tail) = front.isPrefixOf cs := by
  obtain ⟨rest, rfl⟩ := List.head?_eq_some_iff.1 blank
  induction front generalizing cs with
  | nil => simp
  | cons x front ih =>
      simp only [List.mem_cons, not_or] at visible
      cases cs with
      | nil => simp [List.isPrefixOf, Ne.symm visible.1]
      | cons c cs => simp [List.isPrefixOf, ih visible.2]

theorem isWordChar_blank (d : Delimiters) : isWordChar d ' ' = false := by
  have gap : isGap ' ' = true := by decide
  simp [isWordChar, gap]

theorem isAddressRest_cons (a b c : Char) (cs : List Char) :
    isAddressRest (a :: b :: c :: cs) = (a == '/' && b == '/' && !isGap c) := by
  by_cases first : a = '/'
  · by_cases second : b = '/'
    · simp [isAddressRest, first, second]
    · simp [isAddressRest, second]
  · simp [isAddressRest, first]

/-! ## Markers -/

section

variable (blank : tail.head? = some ' ')
include blank

theorem nameAt?_append_blank (cs : List Char) : nameAt? (cs ++ tail) = nameAt? cs := by
  cases cs with
  | nil =>
      obtain ⟨rest, rfl⟩ := List.head?_eq_some_iff.1 blank
      rfl
  | cons c cs =>
      have run := takeWhile_append_blank (p := isNamePart) blank (by decide) (c :: cs)
      rw [List.cons_append] at run
      rw [List.cons_append, nameAt?, nameAt?, run]

theorem hyphenName?_append_blank (escapes hyphens : Nat) (cs : List Char) :
    hyphenName? escapes hyphens (cs ++ tail) = hyphenName? escapes hyphens cs := by
  unfold hyphenName?
  rw [nameAt?_append_blank blank]
  cases named : nameAt? cs with
  | none => rfl
  | some name =>
      obtain ⟨-, rest, split, drop⟩ := nameAt?_eq_some named
      have drop' : (cs ++ tail).drop name.length = rest ++ tail := by
        rw [split, List.append_assoc, List.drop_left]
      simp only [drop, drop']
      cases rest with
      | nil => simp [blank]
      | cons c rest => rfl

theorem hyphensMarker?_append_blank (enabled : Bool) (hyphens escapes : Nat) (cs : List Char) :
    hyphensMarker? enabled hyphens escapes (cs ++ tail) =
      hyphensMarker? enabled hyphens escapes cs := by
  have visible : ' ' ∉ List.replicate hyphens '-' := by
    intro member
    exact absurd (List.eq_of_mem_replicate member) (by decide)
  unfold hyphensMarker?
  rw [isPrefixOf_append_blank blank visible]
  split
  · rename_i opens
    obtain ⟨-, front⟩ : enabled = true ∧ (List.replicate hyphens '-').isPrefixOf cs = true := by
      simpa using opens
    obtain ⟨body, rfl⟩ := List.isPrefixOf_iff_prefix.1 front
    rw [List.append_assoc, List.drop_left' (by simp), List.drop_left' (by simp),
      hyphenName?_append_blank blank]
  · rfl

theorem hyphenMarker?_append_blank (d : Delimiters) (escapes : Nat) (cs : List Char) :
    hyphenMarker? d escapes (cs ++ tail) = hyphenMarker? d escapes cs := by
  unfold hyphenMarker?
  rw [hyphensMarker?_append_blank blank, hyphensMarker?_append_blank blank]

theorem colonMarker?_append_blank (escapes : Nat) (cs : List Char) :
    colonMarker? escapes (cs ++ tail) = colonMarker? escapes cs := by
  have run := takeWhile_append_blank (p := isNamePart) blank (by decide) cs
  unfold colonMarker?
  simp only [run, drop_takeWhile_append]
  cases cs.drop (cs.takeWhile isNamePart).length with
  | nil => simp [blank]
  | cons c rest => rfl

theorem marker?_append_blank (d : Delimiters) (colons : Bool) (cs : List Char) :
    marker? d colons (cs ++ tail) = marker? d colons cs := by
  have run := takeWhile_append_blank (p := (· == '\\')) blank (by decide) cs
  unfold marker?
  simp only [run, drop_takeWhile_append, hyphenMarker?_append_blank blank,
    colonMarker?_append_blank blank]

/-! ## Tokens -/

theorem matchAt?_append_blank (d : Delimiters) (colons : Bool) (cs : List Char) :
    matchAt? d colons (cs ++ tail) = matchAt? d colons cs := by
  unfold matchAt?
  rw [marker?_append_blank blank]
  cases marker? d colons cs with
  | some found => rfl
  | none =>
      cases cs with
      | nil =>
          obtain ⟨rest, rfl⟩ := List.head?_eq_some_iff.1 blank
          have delimiter : ¬ isDelimiterChar d ' ' = true := fun delimiter =>
            absurd (isGap_of_isDelimiterChar delimiter) (by decide)
          simp [delimiter, isWordChar_blank]
      | cons c cs =>
          have word := takeWhile_append_blank blank (isWordChar_blank d) (c :: cs)
          have backslash := takeWhile_append_blank (p := (· == '\\')) blank (by decide) (c :: cs)
          have lineFeed := takeWhile_append_blank (p := (· == '\n')) blank (by decide) (c :: cs)
          rw [List.cons_append] at word backslash lineFeed
          simp only [List.cons_append, word, backslash, lineFeed]

theorem isAddressRest_append_blank (cs : List Char) :
    isAddressRest (cs ++ tail) = isAddressRest cs := by
  obtain ⟨rest, rfl⟩ := List.head?_eq_some_iff.1 blank
  have gap : isGap ' ' = true := by decide
  rcases cs with - | ⟨a, - | ⟨b, - | ⟨c, cs⟩⟩⟩
  · rfl
  · simp [isAddressRest]
  · have short : isAddressRest [a, b] = false := by simp [isAddressRest]
    rw [short, List.cons_append, List.cons_append, List.nil_append, isAddressRest_cons]
    simp [gap]
  · rw [List.cons_append, List.cons_append, List.cons_append, isAddressRest_cons,
      isAddressRest_cons]

theorem tokenAt?_append_blank (d : Delimiters) (cs : List Char) :
    tokenAt? d (cs ++ tail) = tokenAt? d cs := by
  unfold tokenAt?
  rw [matchAt?_append_blank blank, matchAt?_append_blank blank]
  split
  · rename_i escapes name size found
    obtain ⟨text, rest, rfl, rfl, -⟩ := matchAt?_eq_some found
    rw [List.append_assoc, List.drop_left, List.drop_left, isAddressRest_append_blank blank]
  · rfl

end

end ChatArgs.Parse
