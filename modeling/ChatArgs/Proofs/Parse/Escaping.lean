import ChatArgs.Parse.Escape

/-!
# Escaping a text

`escape e cs` writes a text so that nothing in it is special where `e` is escaped:
`unescape_escape` says that unescaping gives the text back, and `guarded_escape` that
every delimiter in it stands behind an odd run of backslashes.
-/

namespace ChatArgs.Parse

open Text

/-- Worker of `escape`: `run` backslashes stand directly in front. -/
def escapeFrom (e : EscapeSet) (run : Nat) : List Char → List Char
  | [] => backslashes (2 * run)
  | c :: cs =>
      if c = '\\' then escapeFrom e (run + 1) cs
      else if e.isDelimiter c then backslashes (2 * run + 1) ++ c :: escapeFrom e 0 cs
      else if isBlank c then backslashes (2 * run) ++ c :: escapeFrom e 0 cs
      else backslashes run ++ c :: escapeFrom e 0 cs

/-- A run of backslashes is doubled in front of a blank and at the end; in front of a
delimiter, where there may be none, it is doubled and gets one more. -/
def escape (e : EscapeSet) (cs : List Char) : List Char :=
  escapeFrom e 0 cs

/-! ## Unescaping -/

theorem backslashes_succ (count : Nat) : backslashes (count + 1) = '\\' :: backslashes count :=
  rfl

theorem backslashes_succ_append (count : Nat) (cs : List Char) :
    backslashes (count + 1) ++ cs = backslashes count ++ '\\' :: cs := by
  simp [backslashes, List.replicate_succ']

theorem unescapeFrom_backslashes (e : EscapeSet) (run count : Nat) (cs : List Char) :
    unescapeFrom e run (backslashes count ++ cs) = unescapeFrom e (run + count) cs := by
  induction count generalizing run with
  | zero => rfl
  | succ count ih =>
      have total : run + 1 + count = run + (count + 1) := by omega
      rw [backslashes_succ, List.cons_append, unescapeFrom, if_pos rfl, ih, total]

/-- Unescaping undoes escaping, also where the escaped text stands in front of a blank or
of the end of the text. -/
theorem unescapeFrom_escapeFrom (e : EscapeSet) (run : Nat) (cs rest : List Char)
    (hrest : ∀ c ∈ rest.head?, isBlank c = true) :
    unescapeFrom e 0 (escapeFrom e run cs ++ rest) =
      backslashes run ++ cs ++ unescapeFrom e 0 rest := by
  induction cs generalizing run with
  | nil =>
      rw [escapeFrom, unescapeFrom_backslashes]
      cases rest with
      | nil => simp [unescapeFrom, backslashes]
      | cons c rest =>
          have blank := hrest c rfl
          have visible : c ≠ '\\' := by
            rintro rfl
            exact absurd blank (by decide)
          have special : e.contains c = true := by simp [EscapeSet.contains, blank]
          simp [unescapeFrom, visible, special, backslashes]
  | cons c cs ih =>
      rw [escapeFrom]
      by_cases backslash : c = '\\'
      · subst backslash
        rw [if_pos rfl, ih, backslashes_succ_append]
      · rw [if_neg backslash]
        by_cases delimiter : e.isDelimiter c = true
        · have special : e.contains c = true := by simp [EscapeSet.contains, delimiter]
          have half : (0 + (2 * run + 1)) / 2 = run := by omega
          rw [if_pos delimiter, List.append_assoc, unescapeFrom_backslashes, List.cons_append,
            unescapeFrom, if_neg backslash, if_pos special, ih, half]
          simp [backslashes]
        · rw [if_neg delimiter]
          by_cases blank : isBlank c = true
          · have special : e.contains c = true := by simp [EscapeSet.contains, blank]
            have half : (0 + 2 * run) / 2 = run := by omega
            rw [if_pos blank, List.append_assoc, unescapeFrom_backslashes, List.cons_append,
              unescapeFrom, if_neg backslash, if_pos special, ih, half]
            simp [backslashes]
          · have plain : ¬ e.contains c = true := by
              simp [EscapeSet.contains, delimiter, blank]
            rw [if_neg blank, List.append_assoc, unescapeFrom_backslashes, List.cons_append,
              unescapeFrom, if_neg backslash, if_neg plain, ih]
            simp [backslashes]

theorem unescape_escape (e : EscapeSet) (cs : List Char) : unescape e (escape e cs) = cs := by
  have whole := unescapeFrom_escapeFrom e 0 cs [] (by simp)
  simpa [unescape, escape, unescapeFrom, backslashes] using whole

theorem unescape_between_blanks (e : EscapeSet) (cs : List Char) {back : List Char}
    (hback : back = [] ∨ back = [' ']) :
    unescape e (' ' :: (escape e cs ++ back)) = [' '] ++ cs ++ back := by
  have blank : isBlank ' ' = true := by decide
  have special : e.contains ' ' = true := by simp [EscapeSet.contains, blank]
  have tail : unescapeFrom e 0 back = back := by
    rcases hback with rfl | rfl
    · rfl
    · simp [unescapeFrom, backslashes]
  have inner : unescapeFrom e 0 (escapeFrom e 0 cs ++ back) =
      backslashes 0 ++ cs ++ unescapeFrom e 0 back := by
    apply unescapeFrom_escapeFrom
    rcases hback with rfl | rfl
    · simp
    · simp [blank]
  rw [unescape, unescapeFrom, if_neg (by decide), if_pos special, escape, inner, tail]
  simp [backslashes]

theorem unescape_of_notMem (e : EscapeSet) {cs : List Char} (plain : '\\' ∉ cs) :
    unescape e cs = cs := by
  rw [unescape]
  induction cs with
  | nil => rfl
  | cons c cs ih =>
      simp only [List.mem_cons, not_or] at plain
      have different : ¬ c = '\\' := fun same => plain.1 same.symm
      rw [unescapeFrom, if_neg different, ih plain.2]
      simp [backslashes]

theorem unescapeWith_of_notMem (e : Option EscapeSet) {cs : List Char} (plain : '\\' ∉ cs) :
    unescapeWith e cs = cs := by
  cases e with
  | none => rfl
  | some e => exact unescape_of_notMem e plain

/-! ## Guarded texts -/

/-- Every delimiter stands behind an odd run of backslashes, and the text ends in an even
one. `odd` tells whether the run directly in front of the text is odd. -/
def guarded (e : EscapeSet) (odd : Bool) : List Char → Bool
  | [] => !odd
  | c :: cs =>
      if c = '\\' then guarded e (!odd) cs
      else (!e.isDelimiter c || odd) && guarded e false cs

theorem guarded_backslashes (e : EscapeSet) (odd : Bool) (count : Nat) (cs : List Char) :
    guarded e odd (backslashes count ++ cs) = guarded e (odd ^^ decide (count % 2 = 1)) cs := by
  induction count generalizing odd with
  | zero => simp [backslashes]
  | succ count ih =>
      rw [backslashes_succ, List.cons_append, guarded, if_pos rfl, ih]
      congr 1
      rcases Nat.mod_two_eq_zero_or_one count with even | odd'
      · have next : (count + 1) % 2 = 1 := by omega
        cases odd <;> simp [even, next]
      · have next : (count + 1) % 2 = 0 := by omega
        cases odd <;> simp [odd', next]

theorem guarded_escapeFrom (e : EscapeSet) (run : Nat) (cs : List Char) :
    guarded e false (escapeFrom e run cs) = true := by
  induction cs generalizing run with
  | nil =>
      have even := guarded_backslashes e false (2 * run) []
      rw [List.append_nil] at even
      rw [escapeFrom, even]
      simp [guarded]
  | cons c cs ih =>
      rw [escapeFrom]
      by_cases backslash : c = '\\'
      · rw [if_pos backslash, ih]
      · rw [if_neg backslash]
        by_cases delimiter : e.isDelimiter c = true
        · have odd : (2 * run + 1) % 2 = 1 := by omega
          rw [if_pos delimiter, guarded_backslashes]
          simp [guarded, backslash, odd, ih]
        · rw [if_neg delimiter]
          by_cases blank : isBlank c = true
          · rw [if_pos blank, guarded_backslashes]
            simp [guarded, backslash, delimiter, ih]
          · rw [if_neg blank, guarded_backslashes]
            simp [guarded, backslash, delimiter, ih]

theorem guarded_escape (e : EscapeSet) (cs : List Char) : guarded e false (escape e cs) = true :=
  guarded_escapeFrom e 0 cs

theorem guarded_behind {e : EscapeSet} {odd : Bool} {c : Char} {cs : List Char}
    (front : List Char) (h : guarded e odd (front ++ c :: cs) = true) (hc : c ≠ '\\') :
    guarded e false cs = true := by
  induction front generalizing odd with
  | nil =>
      rw [List.nil_append, guarded, if_neg hc, Bool.and_eq_true] at h
      exact h.2
  | cons x front ih =>
      rw [List.cons_append, guarded] at h
      split at h
      · exact ih h
      · rw [Bool.and_eq_true] at h
        exact ih h.2

/-- No delimiter stands in a guarded text without a backslash in front. -/
theorem isDelimiter_of_guarded {e : EscapeSet} {cs : List Char} {c : Char}
    (h : guarded e false (c :: cs) = true) (hc : c ≠ '\\') : e.isDelimiter c = false := by
  rw [guarded, if_neg hc, Bool.and_eq_true] at h
  simpa using h.1

end ChatArgs.Parse
