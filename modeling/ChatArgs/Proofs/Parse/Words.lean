import ChatArgs.Args
import ChatArgs.Command.Table
import ChatArgs.Parse.State
import ChatArgs.Proofs.Text.Places

/-!
# Words and the slots that take them

`wordArgs` is the result of a parse that knows words only: slots take the words of a text
in order, and the last slot takes all that is left. It is found by looking for gaps.
-/

namespace ChatArgs.Parse

open Text

/-! ## Words -/

/-- The places where words start. A word is a longest run of visible characters. -/
def wordStarts (offset : Nat) (before : Option Char) : List Char → List Cursor
  | [] => []
  | c :: cs =>
      let later := wordStarts (offset + c.utf8Size) (some c) cs
      if isGap c || isVisible before then later else ⟨offset, before, c :: cs⟩ :: later

def wordAt (place : Cursor) : List Char :=
  place.rest.takeWhile fun c => !isGap c

structure Filling where
  name : String
  value : String
  span : Span
deriving Repr, DecidableEq

/-- Names take words in order; the last one takes the text up to `stop`, trimmed. -/
def wordFillings (stop : Nat) : List String → List Cursor → List Filling
  | [], _ => []
  | _, [] => []
  | [name], place :: _ =>
      [⟨name, String.ofList (trim place.rest), ⟨place.offset, stop⟩⟩]
  | name :: names, place :: places =>
      let word := wordAt place
      ⟨name, String.ofList word, ⟨place.offset, place.offset + byteLength word⟩⟩ ::
        wordFillings stop names places

def Filling.args (content : String) (fillings : List Filling) : Args where
  content := content
  values := ⟨fillings.map fun f => (f.name, f.value)⟩
  spans := ⟨fillings.map fun f => (f.name, f.span)⟩

def wordArgs (slots : List OptionDecl) (content : String) : Args :=
  Filling.args content
    (wordFillings (byteLength content.toList) (slots.map (·.name))
      (wordStarts 0 none content.toList))

@[simp] theorem wordFillings_nil (stop : Nat) (names : List String) :
    wordFillings stop names [] = [] := by
  cases names <;> rfl

theorem wordFillings_cons {names : List String} (more : names ≠ []) (stop : Nat) (name : String)
    (place : Cursor) (places : List Cursor) :
    wordFillings stop (name :: names) (place :: places) =
      ⟨name, String.ofList (wordAt place),
        ⟨place.offset, place.offset + byteLength (wordAt place)⟩⟩ ::
        wordFillings stop names places := by
  obtain ⟨next, names, rfl⟩ := List.exists_cons_of_ne_nil more
  rfl

@[simp] theorem isVisible_some {c : Char} : isVisible (some c) = !isGap c := rfl

/-- Behind a run that is not broken by a change between visible and not, words start where
they start behind its last character. -/
theorem wordStarts_append (visible : Bool) {run rest : List Char}
    (hrun : ∀ c ∈ run, isGap c = !visible) (offset : Nat) (before : Option Char)
    (inside : visible = true → isVisible before = true) :
    wordStarts offset before (run ++ rest) =
      wordStarts (offset + byteLength run) (run.getLast?.or before) rest := by
  induction run generalizing offset before with
  | nil => simp
  | cons c run ih =>
      have hc : isGap c = !visible := hrun c List.mem_cons_self
      have skip : (isGap c || isVisible before) = true := by
        cases visible with
        | false => simp [hc]
        | true => simp [inside rfl]
      rw [List.cons_append, wordStarts]
      simp only [skip, if_true]
      rw [ih]
      · rw [byteLength_cons, Nat.add_assoc]
        cases run <;> simp [List.getLast?_cons]
      · intro x hx
        exact hrun x (List.mem_cons_of_mem c hx)
      · intro isTrue
        rw [isVisible_some, hc, isTrue]
        rfl

/-- A word starts in front of a run of visible characters. -/
theorem wordStarts_word {word : List Char} (filled : word ≠ [])
    (hword : ∀ c ∈ word, isGap c = false) (offset : Nat) {before : Option Char}
    (outside : isVisible before = false) (rest : List Char) :
    wordStarts offset before (word ++ rest) =
      ⟨offset, before, word ++ rest⟩ ::
        wordStarts (offset + byteLength word) (word.getLast?.or before) rest := by
  cases word with
  | nil => exact absurd rfl filled
  | cons c word =>
      have hc : isGap c = false := hword c List.mem_cons_self
      rw [List.cons_append, wordStarts]
      simp only [hc, outside, Bool.or_self, Bool.false_eq_true, if_false]
      rw [wordStarts_append true]
      · rw [byteLength_cons, Nat.add_assoc]
        cases word <;> simp [List.getLast?_cons]
      · intro x hx
        simpa using hword x (List.mem_cons_of_mem c hx)
      · intro _
        rw [isVisible_some, hc]
        rfl

structure AtWord (c : Cursor) (after : List Char) : Prop where
  split : c.rest = wordAt c ++ after
  filled : wordAt c ≠ []
  visible : ∀ x ∈ wordAt c, isGap x = false
  stop : ∀ x ∈ after.head?, isGap x = true
  outside : isVisible c.before = false
  later : wordStarts c.offset c.before c.rest =
    c :: wordStarts (c.past (wordAt c) after).offset (c.past (wordAt c) after).before after

theorem exists_word {c : Cursor} {x : Char} {xs : List Char} (all : c.rest = x :: xs)
    (shown : isGap x = false) (outside : isVisible c.before = false) :
    ∃ after, AtWord c after := by
  obtain ⟨after, split, -, stop⟩ := exists_span (fun y => !isGap y) c.rest
  have word : c.rest.takeWhile (fun y => !isGap y) = wordAt c := rfl
  rw [word] at split
  have filled : wordAt c ≠ [] := by simp [wordAt, all, shown]
  have visible : ∀ y ∈ wordAt c, isGap y = false := by
    intro y hy
    have inside := List.all_eq_true.1 List.all_takeWhile y hy
    simpa using inside
  have gap : ∀ y ∈ after.head?, isGap y = true := by
    intro y hy
    simpa using stop y hy
  have later := wordStarts_word filled visible c.offset outside after
  rw [← split] at later
  exact ⟨after, split, filled, visible, gap, outside, later⟩

end ChatArgs.Parse
