import ChatArgs.Proofs.Parse.Escaping

/-!
# The classes of escapes

What a backslash escapes depends on where a text stands: inside quotes, in plain text, in the last
slot where quotes are switched off, or behind a marker; outside of quotes it also depends on the
family that markers are locked to. In every class `escape` writes a run of backslashes by what
stands behind it (`writesRuns_escape`), unescaping takes that back, and the texts that unescaping
leaves alone are those without an escape (`unescape_eq_self_iff`).
-/

namespace ChatArgs

namespace Parse

open Text

/-! ## Classes -/

/-- Where a text stands that is unescaped. -/
inductive EscapeClass where
  /-- Between two quotes. -/
  | quoted (quote : Quote)
  | plain (lock : Option Family)
  /-- In the last slot, where quotes are plain text. -/
  | unquoted (lock : Option Family)
  /-- Behind a marker of the family. -/
  | behind (lock : Option Family) (family : Family)
deriving Repr, DecidableEq

namespace EscapeClass

def set? (d : Delimiters) : EscapeClass → Option EscapeSet
  | quoted q => d.quoteEscapes q
  | plain lock => d.textEscapes lock
  | unquoted lock => d.unquotedEscapes lock
  | behind lock family => d.markerEscapes lock family

/-- The sign of a family that is switched on, and that the lock lets open options. -/
def IsSign (d : Delimiters) (lock : Option Family) (c : Char) : Prop :=
  (d.hasHyphen = true ∧ lock ≠ some .colon) ∧ c = '-' ∨
    (d.hasColon = true ∧ lock ≠ some .hyphen) ∧ c = ':'

def Has (d : Delimiters) : EscapeClass → Char → Prop
  | quoted q, c => q.char = c
  | plain lock, c => (∃ q ∈ d.quotes, q.char = c) ∨ IsSign d lock c
  | unquoted lock, c => IsSign d lock c
  | behind lock .hyphen, c => IsSign d lock c
  | behind lock .colon, c => IsSign d lock c ∨ c = '/'

end EscapeClass

theorem EscapeSet.isDelimiter_iff {e : EscapeSet} {c : Char} :
    e.isDelimiter c = true ↔ (∃ q ∈ e.quotes, q.char = c) ∨ e.hyphen = true ∧ c = '-' ∨
      e.colon = true ∧ c = ':' ∨ e.slash = true ∧ c = '/' := by
  simp only [isDelimiter, Bool.or_eq_true, Bool.and_eq_true, List.any_eq_true, beq_iff_eq,
    or_assoc]

theorem EscapeClass.isDelimiter_iff {d : Delimiters} {place : EscapeClass} {e : EscapeSet}
    (set : place.set? d = some e) (c : Char) : e.isDelimiter c = true ↔ place.Has d c := by
  have there {enabled : Bool} {given : EscapeSet}
      (set : (if enabled then some given else none) = some e) : given = e :=
    Option.some.inj (Option.ite_none_right_eq_some.1 set).2
  rw [EscapeSet.isDelimiter_iff]
  cases place with
  | quoted q =>
      obtain rfl := there set
      simp [Has]
  | plain lock =>
      obtain rfl := there set
      rcases lock with _ | _ | _ <;> simp [Has, IsSign, Delimiters.escapedMarkers]
  | unquoted lock =>
      obtain rfl := there set
      rcases lock with _ | _ | _ <;> simp [Has, IsSign, Delimiters.escapedMarkers]
  | behind lock family =>
      cases family with
      | hyphen =>
          obtain rfl := there set
          rcases lock with _ | _ | _ <;> simp [Has, IsSign, Delimiters.escapedMarkers]
      | colon =>
          obtain rfl := there set
          rcases lock with _ | _ | _ <;> simp [Has, IsSign, Delimiters.escapedMarkers, or_assoc]

/-! ## Writing runs -/

/-- A text is written run by run: what is written for a run of backslashes, which may be empty, is
decided by the character behind it. -/
structure WritesRuns (e : EscapeSet) (write : List Char → List Char) : Prop where
  delimiter : ∀ run c cs, e.isDelimiter c = true →
    write (backslashes run ++ c :: cs) = backslashes (2 * run + 1) ++ c :: write cs
  blank : ∀ run c cs, e.isDelimiter c = false → isBlank c = true →
    write (backslashes run ++ c :: cs) = backslashes (2 * run) ++ c :: write cs
  last : ∀ run, write (backslashes run) = backslashes (2 * run)
  other : ∀ run c cs, c ≠ '\\' → e.contains c = false →
    write (backslashes run ++ c :: cs) = backslashes run ++ c :: write cs

theorem EscapeSet.isDelimiter_backslash (e : EscapeSet) : e.isDelimiter '\\' = false := by
  have quotes (q : Quote) : (q.char == '\\') = false := by cases q <;> decide
  simp [isDelimiter, quotes]

theorem EscapeSet.contains_backslash (e : EscapeSet) : e.contains '\\' = false := by
  rw [contains, e.isDelimiter_backslash]
  decide

theorem escapeFrom_backslashes (e : EscapeSet) (run count : Nat) (cs : List Char) :
    escapeFrom e run (backslashes count ++ cs) = escapeFrom e (run + count) cs := by
  induction count generalizing run with
  | zero => rfl
  | succ count ih =>
      have total : run + 1 + count = run + (count + 1) := by omega
      rw [backslashes_succ, List.cons_append, escapeFrom, if_pos rfl, ih, total]

theorem escape_backslashes (e : EscapeSet) (run : Nat) (cs : List Char) :
    escape e (backslashes run ++ cs) = escapeFrom e run cs := by
  rw [escape, escapeFrom_backslashes, Nat.zero_add]

theorem writesRuns_escape (e : EscapeSet) : WritesRuns e (escape e) where
  delimiter run c cs isDelimiter := by
    have visible : c ≠ '\\' := by
      rintro rfl
      simp [e.isDelimiter_backslash] at isDelimiter
    rw [escape_backslashes, escapeFrom, if_neg visible, if_pos isDelimiter, escape]
  blank run c cs noDelimiter isBlank := by
    have visible : c ≠ '\\' := by
      rintro rfl
      exact absurd isBlank (by decide)
    rw [escape_backslashes, escapeFrom, if_neg visible, if_neg (by simp [noDelimiter]),
      if_pos isBlank, escape]
  last run := by
    have whole := escape_backslashes e run []
    rwa [List.append_nil] at whole
  other run c cs visible plain := by
    simp only [EscapeSet.contains, Bool.or_eq_false_iff] at plain
    rw [escape_backslashes, escapeFrom, if_neg visible, if_neg (by simp [plain.1]),
      if_neg (by simp [plain.2]), escape]

/-! ## Texts without escapes -/

/-- Behind every backslash stands a character that nothing escapes. -/
def Unescaped (e : EscapeSet) (text : List Char) : Prop :=
  ∀ front back, text = front ++ '\\' :: back → ∃ c rest, back = c :: rest ∧ e.contains c = false

theorem length_unescapeFrom_le (e : EscapeSet) (run : Nat) (cs : List Char) :
    (unescapeFrom e run cs).length ≤ run + cs.length := by
  induction cs generalizing run with
  | nil => simp only [unescapeFrom, backslashes, List.length_replicate]; omega
  | cons c cs ih =>
      have behind := ih 0
      rw [unescapeFrom]
      split
      · have := ih (run + 1)
        simp only [List.length_cons]
        omega
      · split <;> simp only [backslashes, List.length_append, List.length_replicate,
          List.length_cons] <;> omega

theorem length_unescapeFrom_lt {e : EscapeSet} {back : List Char}
    (escapes : ∀ c rest, back = c :: rest → e.contains c = true) (run : Nat) (front : List Char) :
    (unescapeFrom e run (front ++ '\\' :: back)).length <
      run + (front ++ '\\' :: back).length := by
  induction front generalizing run with
  | nil =>
      rw [List.nil_append, unescapeFrom, if_pos rfl]
      cases back with
      | nil =>
          simp only [unescapeFrom, backslashes, List.length_replicate, List.length_cons]
          omega
      | cons c rest =>
          have special := escapes c rest rfl
          have visible : c ≠ '\\' := by
            rintro rfl
            simp [e.contains_backslash] at special
          have behind := length_unescapeFrom_le e 0 rest
          rw [unescapeFrom, if_neg visible, if_pos special]
          simp only [backslashes, List.length_append, List.length_replicate, List.length_cons]
          omega
  | cons c front ih =>
      have more := ih (run + 1)
      have behind := ih 0
      simp only [List.length_append, List.length_cons] at more behind
      rw [List.cons_append, unescapeFrom]
      split
      · simp only [List.length_append, List.length_cons]
        omega
      · split <;> simp only [backslashes, List.length_append, List.length_replicate,
          List.length_cons] <;> omega

theorem Unescaped.behind {e : EscapeSet} (front : List Char) {text : List Char}
    (unescaped : Unescaped e (front ++ text)) : Unescaped e text := by
  rintro before back rfl
  exact unescaped (front ++ before) back (List.append_assoc _ _ _).symm

/-- Backslashes stand neither at the end nor in front of a member of the set. -/
theorem Unescaped.run_eq_zero {e : EscapeSet} {run : Nat} {cs : List Char}
    (unescaped : Unescaped e (backslashes run ++ cs))
    (escapes : ∀ c rest, cs = c :: rest → e.contains c = true) : run = 0 := by
  cases run with
  | zero => rfl
  | succ run =>
      rw [backslashes_succ_append] at unescaped
      obtain ⟨c, rest, rfl, plain⟩ := unescaped _ _ rfl
      simp [escapes c rest rfl] at plain

theorem Unescaped.unescapeFrom {e : EscapeSet} {run : Nat} {cs : List Char}
    (unescaped : Unescaped e (backslashes run ++ cs)) :
    unescapeFrom e run cs = backslashes run ++ cs := by
  induction cs generalizing run with
  | nil =>
      obtain rfl := unescaped.run_eq_zero (by simp)
      rfl
  | cons c cs ih =>
      have behind : Unescaped e cs := by
        apply Unescaped.behind (backslashes run ++ [c])
        rwa [List.append_assoc, List.singleton_append]
      have kept : Parse.unescapeFrom e 0 cs = cs := ih behind
      rw [Parse.unescapeFrom]
      split
      · rename_i backslash
        subst backslash
        rw [← backslashes_succ_append] at unescaped ⊢
        exact ih unescaped
      · split
        · rename_i special
          obtain rfl := unescaped.run_eq_zero (by simp [special])
          rw [kept]
        · rw [kept]

theorem unescape_eq_self_iff {e : EscapeSet} {text : List Char} :
    unescape e text = text ↔ Unescaped e text := by
  constructor
  · rintro same front back rfl
    refine Classical.byContradiction fun noPlain => ?_
    have escapes (c : Char) (rest : List Char) (split : back = c :: rest) :
        e.contains c = true := by
      cases special : e.contains c with
      | true => rfl
      | false => exact absurd ⟨c, rest, split, special⟩ noPlain
    have shorter := length_unescapeFrom_lt escapes 0 front
    rw [← unescape, same] at shorter
    omega
  · intro unescaped
    have kept : unescapeFrom e 0 text = backslashes 0 ++ text := Unescaped.unescapeFrom unescaped
    exact kept

/-- In every class of escapes, `escape` writes a text so that unescaping gives it back, and
unescaping changes no other text than one with an escape. -/
theorem unescape_inverts_escape {d : Delimiters} {place : EscapeClass} {e : EscapeSet}
    (set : place.set? d = some e) :
    (∀ c, e.isDelimiter c = true ↔ place.Has d c) ∧ WritesRuns e (escape e) ∧
    (∀ text, unescapeWith (place.set? d) (escape e text) = text) ∧
    ∀ text, unescapeWith (place.set? d) text = text ↔ Unescaped e text := by
  refine ⟨EscapeClass.isDelimiter_iff set, writesRuns_escape e, ?_, ?_⟩
  · intro text
    rw [set]
    exact unescape_escape e text
  · intro text
    rw [set]
    exact unescape_eq_self_iff

/-- Behind a colon marker a slash is escaped too. -/
theorem unescape_inverts_escape_slash :
    (EscapeClass.behind (some .colon) .colon).set? {} = some { colon := true, slash := true } ∧
      unescapeWith ((EscapeClass.behind (some .colon) .colon).set? {})
        (escape { colon := true, slash := true } ['a', '\\', '/', '-', '\\']) =
          ['a', '\\', '/', '-', '\\'] := by
  have set : (EscapeClass.behind (some .colon) .colon).set? {} =
      some { colon := true, slash := true } := by decide
  exact ⟨set, (unescape_inverts_escape set).2.2.1 _⟩

end Parse

end ChatArgs
