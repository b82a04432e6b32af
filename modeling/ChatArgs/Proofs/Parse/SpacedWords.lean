import ChatArgs.Proofs.Parse.PlainRun
import ChatArgs.Proofs.Parse.SingleWord

/-!
# Words with blanks between them

Words of letters and digits fill the first slots as long as there are fewer words than slots. With
more words, the last slot is left open and takes what follows; where a command has no slot, words
are passed.
-/

namespace ChatArgs

namespace Parse

open Text

/-! ## Texts of words -/

/-- Words of letters, digits and underscores with blanks around them, and their number. -/
inductive WordText : List Char → Nat → Prop
  | nil : WordText [] 0
  | blank {cs : List Char} {count : Nat} : WordText cs count → WordText (' ' :: cs) count
  | word {word cs : List Char} {count : Nat} :
      word ≠ [] → (∀ x ∈ word, isNamePart x = true) → (∀ x ∈ cs.head?, isGap x = true) →
      WordText cs count → WordText (word ++ cs) (count + 1)

theorem chars_of_all {cs : List Char} (all : cs.all (fun x => x == ' ' || x.isAlphanum) = true) :
    ∀ x ∈ cs, x = ' ' ∨ x.isAlphanum = true := by
  simpa using all

theorem AtWord.nameParts {c : Cursor} {after : List Char} (word : AtWord c after)
    (chars : ∀ x ∈ c.rest, x = ' ' ∨ x.isAlphanum = true) :
    (∀ x ∈ wordAt c, isNamePart x = true) ∧ ∀ x ∈ after, x = ' ' ∨ x.isAlphanum = true := by
  rw [word.split, List.forall_mem_append] at chars
  refine ⟨fun x inside => isNamePart_of_isAlphanum ((chars.1 x inside).resolve_left ?_), chars.2⟩
  rintro rfl
  exact absurd (word.visible ' ' inside) (by decide)

/-- A text of letters, digits and blanks has as many words as there are places where one starts. -/
theorem wordText_of_chars {cs : List Char} (chars : ∀ x ∈ cs, x = ' ' ∨ x.isAlphanum = true)
    (offset : Nat) (before : Option Char)
    (outside : isVisible before = true → ∀ x ∈ cs.head?, isGap x = true) :
    WordText cs (wordStarts offset before cs).length := by
  induction size : cs.length using Nat.strong_induction_on generalizing cs offset before with
  | _ size ih =>
      subst size
      cases cs with
      | nil => exact .nil
      | cons x xs =>
          rw [List.forall_mem_cons] at chars
          by_cases blank : x = ' '
          · subst blank
            have gap : isGap ' ' = true := by decide
            rw [wordStarts]
            simp only [gap, Bool.true_or, if_true]
            exact .blank (ih xs.length (by simp) chars.2 _ _ (by simp [gap]) rfl)
          · have part := isNamePart_of_isAlphanum (chars.1.resolve_left blank)
            have shown := isGap_of_isNamePart part
            have hidden : isVisible before = false := by
              by_contra visible
              rw [Bool.not_eq_false] at visible
              simp [outside visible x rfl] at shown
            obtain ⟨after, word⟩ := exists_word (c := ⟨offset, before, x :: xs⟩) rfl shown hidden
            obtain ⟨parts, chars'⟩ := word.nameParts (List.forall_mem_cons.2 chars)
            have split : x :: xs = wordAt ⟨offset, before, x :: xs⟩ ++ after := word.split
            have positive := List.length_pos_iff.2 word.filled
            have shorter : after.length < (x :: xs).length := by
              rw [split, List.length_append]
              omega
            have later := word.later
            simp only at later
            rw [later, List.length_cons, split]
            exact .word word.filled parts word.stop
              (ih _ shorter chars' _ _ (fun _ => word.stop) rfl)

theorem WordText.no_backslash {cs : List Char} {count : Nat} (text : WordText cs count) :
    '\\' ∉ cs := by
  induction text with
  | nil => simp
  | blank _ ih => simpa using ih
  | word _ parts _ _ ih =>
      rw [List.mem_append, not_or]
      exact ⟨backslash_notMem_of_nameParts parts, ih⟩

theorem WordText.no_lineFeed {cs : List Char} {count : Nat} (text : WordText cs count) :
    cs.head? ≠ some '\n' := by
  cases text with
  | nil => simp
  | blank _ => simp
  | @word word _ _ nonempty parts _ _ =>
      obtain ⟨x, word, rfl⟩ := List.exists_cons_of_ne_nil nonempty
      have part := parts x List.mem_cons_self
      rintro lineFeed
      rw [List.cons_append, List.head?_cons, Option.some.injEq] at lineFeed
      subst lineFeed
      exact absurd part (by decide)

theorem tokenAt?_lineFeed (d : Delimiters) {rest : List Char} (alone : rest.head? ≠ some '\n') :
    tokenAt? d ('\n' :: rest) = some (.lineFeeds, 1) := by
  rcases tokenAt?_cases d '\n' rest with ⟨none, -⟩ | ⟨kind, text, rest', split, front, found⟩
  · exact absurd rfl (tokenAt?_eq_none none).2
  · have first : '\n' ∈ text := by
      obtain ⟨x, text, rfl⟩ := List.exists_cons_of_ne_nil front.ne_nil
      rw [(List.cons.inj split).1]
      exact List.mem_cons_self
    obtain rfl := front.kind_of_gap first (by decide)
    cases front with
    | @lineFeeds count _ positive _ =>
        obtain ⟨more, rfl⟩ : ∃ more, count = more + 1 := ⟨count - 1, by omega⟩
        rw [List.replicate_succ, List.cons_append, List.cons.injEq] at split
        cases more with
        | zero => exact found
        | succ more => simp [split.2, List.replicate_succ] at alone

structure InText (c : Cursor) (cs rest : List Char) : Prop where
  split : c.rest = cs ++ rest
  outside : isVisible c.before = true → ∀ x ∈ cs.head?, isGap x = true
  stop : ∀ x ∈ rest.head?, isGap x = true

namespace InText

variable {c : Cursor} {word cs rest : List Char}

theorem past_nil (inText : InText c [] rest) : c.past [] rest = c :=
  Cursor.past_nil_of_rest inText.split

theorem behind_blank (inText : InText c (' ' :: cs) rest) :
    InText (c.past [' '] (cs ++ rest)) cs rest where
  split := rfl
  outside := by
    intro visible
    exact absurd visible (by simp [Cursor.past]; decide)
  stop := inText.stop

theorem behind_word (inText : InText c (word ++ cs) rest) (ends : ∀ x ∈ cs.head?, isGap x = true) :
    InText (c.past word (cs ++ rest)) cs rest where
  split := rfl
  outside _ := ends
  stop := inText.stop

theorem gap_behind (inText : InText c (word ++ cs) rest) (ends : ∀ x ∈ cs.head?, isGap x = true) :
    ∀ x ∈ (cs ++ rest).head?, isGap x = true := by
  cases cs with
  | nil => exact inText.stop
  | cons x cs => exact ends

theorem behind_total {total : Nat} (inText : InText c (word ++ cs) rest)
    (ends : c.offset + byteLength c.rest = total) :
    (c.past word (cs ++ rest)).offset + byteLength (c.past word (cs ++ rest)).rest = total :=
  (Cursor.past_total (by rw [inText.split, List.append_assoc])).trans ends

theorem hidden (inText : InText c (word ++ cs) rest) (filled : word ≠ [])
    (parts : ∀ x ∈ word, isNamePart x = true) : isVisible c.before = false := by
  obtain ⟨x, word, rfl⟩ := List.exists_cons_of_ne_nil filled
  have shown := isGap_of_isNamePart (parts x List.mem_cons_self)
  by_contra visible
  rw [Bool.not_eq_false] at visible
  simp [inText.outside visible x rfl] at shown

theorem starts_blank (inText : InText c (' ' :: cs) rest) :
    wordStarts c.offset c.before c.rest =
      wordStarts (c.past [' '] (cs ++ rest)).offset (c.past [' '] (cs ++ rest)).before
        (cs ++ rest) := by
  have gap : ∀ x ∈ [' '], isGap x = !false := by simp; decide
  rw [inText.split]
  exact wordStarts_append false gap c.offset c.before (by simp)

theorem atWord (inText : InText c (word ++ cs) rest) (filled : word ≠ [])
    (parts : ∀ x ∈ word, isNamePart x = true) (ends : ∀ x ∈ cs.head?, isGap x = true) :
    wordAt c = word ∧ AtWord c (cs ++ rest) := by
  have split : c.rest = word ++ (cs ++ rest) := by rw [inText.split, List.append_assoc]
  have visible : ∀ x ∈ word, isGap x = false := fun x inside => isGap_of_isNamePart (parts x inside)
  have same : wordAt c = word := by
    rw [wordAt, split]
    apply takeWhile_append_stop
    · simpa using visible
    · simpa using inText.gap_behind ends
  have hidden := inText.hidden filled parts
  have later := wordStarts_word filled visible c.offset hidden (cs ++ rest)
  rw [← split, ← same] at later
  rw [← same] at split visible filled
  exact ⟨same, split, filled, visible, inText.gap_behind ends, hidden, later⟩

end InText

namespace State

variable {ctx : Context} {s : State} {done : List Filling}

theorem sweep_blank_inText {cs rest : List Char} {c : Cursor} (inText : InText c (' ' :: cs) rest) :
    s.sweep ctx c = s.sweep ctx (c.past [' '] (cs ++ rest)) :=
  sweep_blank inText.split

/-! ## Words in front of a marker -/

structure FillsFront (ctx : Context) (done : List Filling) (c : Cursor) : Prop where
  names : done.map (·.name) = (ctx.table.slots.map (·.name)).take done.length
  first : c.before = none → done = []

namespace FillsFront

theorem start (ctx : Context) (c : Cursor) : FillsFront ctx [] c :=
  ⟨rfl, fun _ => rfl⟩

variable {c : Cursor} (fills : FillsFront ctx done c)
include fills

theorem behind_blank (rest : List Char) : FillsFront ctx done (c.past [' '] rest) where
  names := fills.names
  first := by simp [Cursor.past]

theorem behind_word {option : OptionDecl} (slot : ctx.table.slots[done.length]? = some option)
    {word : List Char} (filled : word ≠ []) (rest : List Char) (value : String) (span : Span) :
    FillsFront ctx (done ++ [⟨option.name, value, span⟩]) (c.past word rest) where
  names := names_filled_concat fills.names slot value span
  first := by
    obtain ⟨last, -, before⟩ := c.exists_before filled rest
    simp [before]

end FillsFront

section

variable (distinct : (ctx.table.slots.map (·.name)).Nodup)
  (counted : ctx.table.slots.length ≤ ctx.table.optionCount)

section

variable {c : Cursor} (fills : FillsFront ctx done c) {option : OptionDecl}
  (slot : ctx.table.slots[done.length]? = some option) {word cs rest : List Char}
  (inText : InText c (word ++ cs) rest) (nonempty : word ≠ [])
  (parts : ∀ x ∈ word, isNamePart x = true) (ends : ∀ x ∈ cs.head?, isGap x = true)
include distinct counted fills slot inText nonempty parts ends

theorem sweep_plainWord :
    (filled ctx done).sweep ctx c =
      ({ filled ctx (done ++ [⟨option.name, String.ofList word,
          ⟨c.offset, (c.past word (cs ++ rest)).offset⟩⟩]) with
        lastSlot :=
          if done.length + 1 = ctx.table.slots.length then some ⟨option.name, c, c.offset, ""⟩
          else none } : State).sweep ctx (c.past word (cs ++ rest)) := by
  have split : c.rest = word ++ (cs ++ rest) := by rw [inText.split, List.append_assoc]
  have hidden := inText.hidden nonempty parts
  have bound : done.length < ctx.table.slots.length := (List.getElem?_eq_some_iff.1 slot).1
  have fresh := name_notMem_filled fills.names slot distinct
  have apart : (filled ctx done).lastFilled = none ∨ ∃ x ∈ c.before, isGap x = true := by
    cases before : c.before with
    | none => exact .inl (by simp [fills.first before, filled])
    | some x =>
        rw [before] at hidden
        exact .inr ⟨x, rfl, by simpa using hidden⟩
  have same : c.offset = c.offset + byteLength [] := by simp
  have fillsSlot := fillSlot_inWord slot fresh same (String.ofList word)
    (c.past word (cs ++ rest)).offset
  rw [sweep_wordToken nonempty parts (inText.gap_behind ends) split (filled_goes counted bound),
    step_word rfl rfl rfl rfl split apart]
  refine (congrArg (sweep ctx _) fillsSlot).trans ?_
  simp

theorem sweep_earlierWord (more : done.length + 1 < ctx.table.slots.length) :
    (filled ctx done).sweep ctx c =
      (filled ctx (done ++ [⟨option.name, String.ofList word,
        ⟨c.offset, (c.past word (cs ++ rest)).offset⟩⟩])).sweep ctx
        (c.past word (cs ++ rest)) := by
  have read := sweep_plainWord distinct counted fills slot inText nonempty parts ends
  rw [if_neg (Nat.ne_of_lt more)] at read
  exact read

theorem sweep_lastWord (last : done.length + 1 = ctx.table.slots.length) :
    (filled ctx done).sweep ctx c =
      ({ filled ctx (done ++ [⟨option.name, String.ofList word,
          ⟨c.offset, (c.past word (cs ++ rest)).offset⟩⟩]) with
        lastSlot := some ⟨option.name, c, c.offset, ""⟩ } : State).sweep ctx
        (c.past word (cs ++ rest)) := by
  have read := sweep_plainWord distinct counted fills slot inText nonempty parts ends
  rw [if_pos last] at read
  exact read

end

include distinct counted

/-- Fewer words than slots fill the first slots. -/
theorem sweep_fewWords {front : List Char} {count : Nat} (text : WordText front count) {c : Cursor}
    {rest : List Char} (inText : InText c front rest) (fills : FillsFront ctx done c)
    (few : done.length + count < ctx.table.slots.length) :
    ∃ done' : List Filling, done'.length = done.length + count ∧
      done'.map (·.name) = (ctx.table.slots.map (·.name)).take done'.length ∧
      (filled ctx done).sweep ctx c = (filled ctx done').sweep ctx (c.past front rest) := by
  induction text generalizing done c with
  | nil =>
      refine ⟨done, rfl, fills.names, ?_⟩
      rw [inText.past_nil]
  | @blank cs count _ ih =>
      obtain ⟨done', length, names, reads⟩ := ih inText.behind_blank (fills.behind_blank _) few
      refine ⟨done', length, names, ?_⟩
      rw [sweep_blank_inText inText, reads, Cursor.past_past]
      rfl
  | @word word cs count nonempty parts ends _ ih =>
      obtain ⟨option, slot⟩ : ∃ option, ctx.table.slots[done.length]? = some option :=
        ⟨_, List.getElem?_eq_getElem (by omega)⟩
      have read :=
        sweep_earlierWord distinct counted fills slot inText nonempty parts ends (by omega)
      have fills' := fills.behind_word slot nonempty (cs ++ rest) (String.ofList word)
        ⟨c.offset, (c.past word (cs ++ rest)).offset⟩
      obtain ⟨done', length, names, reads⟩ := ih (inText.behind_word ends) fills'
        (by rw [List.length_append, List.length_singleton]; omega)
      refine ⟨done', ?_, names, ?_⟩
      · rw [length, List.length_append, List.length_singleton]
        omega
      · rw [read, reads, Cursor.past_past]

end

theorem filled_tallied (distinct : (ctx.table.slots.map (·.name)).Nodup)
    (names : done.map (·.name) = (ctx.table.slots.map (·.name)).take done.length) :
    Tallied ctx ⟨⟨done.map fun f => (f.name, f.value)⟩, done.map (·.name)⟩ (filled ctx done) := by
  have taken : (filled ctx done).taken =
      ctx.table.slots.map fun o => decide (o.name ∈ done.map (·.name)) := by
    have bound : done.length ≤ ctx.table.slots.length := by
      have lengths := congrArg List.length names
      rw [List.length_map, List.length_take, List.length_map] at lengths
      omega
    apply List.ext_getElem
    · simp only [filled, List.length_append, List.length_replicate, List.length_map]
      omega
    · intro index _ inside
      rw [List.length_map] at inside
      have isTaken : ctx.table.slots[index].name ∈ done.map (·.name) ↔ index < done.length := by
        rw [names, List.mem_take_iff_getElem]
        constructor
        · rintro ⟨index', small, same⟩
          rw [← List.getElem_map (f := fun o : OptionDecl => o.name)
            (h := by simpa using inside)] at same
          have equal := (List.getElem_inj distinct).1 same
          omega
        · intro small
          exact ⟨index, by rw [List.length_map]; omega, by simp⟩
      have same : decide (ctx.table.slots[index].name ∈ done.map (·.name)) =
          decide (index < done.length) := decide_eq_decide.2 isTaken
      rw [List.getElem_map, same]
      by_cases small : index < done.length <;> simp [filled, List.getElem_append, small]
  exact ⟨⟨rfl, taken, rfl, rfl, rfl, rfl, rfl, by simp [filled]⟩, rfl, by simp [filled]⟩

/-! ## Words behind the last slot -/

structure NoSlotLeft (ctx : Context) (s : State) : Prop where
  goes : s.stops ctx = false
  noSlot : s.freeSlot? = none
  noLong : s.longText = none
  noHeld : s.held = none
  noNamed : s.named = none
  noColon : s.family ≠ some .colon
  quiet : s.justClosed = false
  passes : s.lastSlot ≠ none ∨ s.lastFilled = none

/-- Where every slot is filled, a parse only stops if there are no flags. -/
theorem stops_filled (full : done.length = ctx.table.slots.length)
    (flags : ctx.config.stopWhenFilled = true → ctx.table.slots.length < ctx.table.optionCount) :
    (filled ctx done).stops ctx = false := by
  cases stop : ctx.config.stopWhenFilled with
  | false => exact stops_of_goesOn stop _
  | true =>
      have more := flags stop
      simp only [stops, allFilled, filled, full, List.length_nil, Nat.add_zero,
        decide_eq_false (Nat.not_le.2 more), Bool.and_false]

theorem filled_freeSlot (full : ctx.table.slots.length ≤ done.length) :
    (filled ctx done).freeSlot? = none := by
  have none : ctx.table.slots.length - done.length = 0 := by omega
  simp [freeSlot?, filled, none]

theorem initial_noSlotLeft (noSlots : ctx.table.slots.length = 0)
    (counted : 0 < ctx.table.optionCount) : NoSlotLeft ctx (initial ctx) := by
  have goes := stops_initial counted
  rw [initial_eq_filled] at goes ⊢
  exact ⟨goes, filled_freeSlot (by omega), rfl, rfl, rfl, by simp [filled], rfl, .inr rfl⟩

namespace NoSlotLeft

variable (noSlot : NoSlotLeft ctx s)
include noSlot

theorem step_word {c : Cursor} {word rest : List Char} (split : c.rest = word ++ rest) :
    s.step ctx (.reading .word c word rest) = s := by
  by_cases opened : s.lastSlot.isSome = true
  · exact step_lastSlot opened noSlot.noLong noSlot.noNamed noSlot.quiet (by simp)
  · have unfilled : s.lastFilled = none :=
      noSlot.passes.resolve_left fun some => opened (Option.isSome_iff_ne_none.2 some)
    have quiet : ({ s with justClosed := false } : State) = s := by rw [← noSlot.quiet]
    have noLast : s.lastSlot = none := by simpa using opened
    rw [State.step_word noSlot.noLong noSlot.noHeld noSlot.noNamed noLast split (.inl unfilled),
      quiet, fillSlot_of_noFreeSlot noSlot.noSlot]

theorem sweep_words {front rest : List Char} {count : Nat} (text : WordText front count)
    {c : Cursor} (inText : InText c front rest) :
    s.sweep ctx c = s.sweep ctx (c.past front rest) := by
  induction text generalizing c with
  | nil => rw [inText.past_nil]
  | @blank cs count _ ih =>
      rw [sweep_blank_inText inText, ih inText.behind_blank, Cursor.past_past]
      rfl
  | @word word cs count nonempty parts ends _ ih =>
      have split : c.rest = word ++ (cs ++ rest) := by rw [inText.split, List.append_assoc]
      rw [sweep_wordToken nonempty parts (inText.gap_behind ends) split noSlot.goes,
        noSlot.step_word split, ih (inText.behind_word ends), Cursor.past_past]

end NoSlotLeft

section

variable (distinct : (ctx.table.slots.map (·.name)).Nodup)
  (bound : done.length < ctx.table.slots.length) {front : List Char} {count : Nat}
  (text : WordText front count) {c : Cursor} {rest : List Char} (inText : InText c front rest)
  (fills : FillsFront ctx done c) (many : ctx.table.slots.length ≤ done.length + count)
include distinct bound text inText fills many

/-- As many words as slots fill all slots. -/
theorem sweep_manyWords (counted : ctx.table.slots.length ≤ ctx.table.optionCount)
    (flags : ctx.config.stopWhenFilled = true → ctx.table.slots.length < ctx.table.optionCount) :
    ∃ s', NoSlotLeft ctx s' ∧ (filled ctx done).sweep ctx c = s'.sweep ctx (c.past front rest) := by
  induction text generalizing done c with
  | nil => omega
  | @blank cs count _ ih =>
      obtain ⟨s', noSlot, reads⟩ := ih bound inText.behind_blank (fills.behind_blank _) many
      refine ⟨s', noSlot, ?_⟩
      rw [sweep_blank_inText inText, reads, Cursor.past_past]
      rfl
  | @word word cs count nonempty parts ends text ih =>
      obtain ⟨option, slot⟩ : ∃ option, ctx.table.slots[done.length]? = some option :=
        ⟨_, List.getElem?_eq_getElem bound⟩
      by_cases last : done.length + 1 = ctx.table.slots.length
      · have read := sweep_lastWord distinct counted fills slot inText nonempty parts ends last
        have full : NoSlotLeft ctx { filled ctx (done ++ [⟨option.name, String.ofList word,
            ⟨c.offset, (c.past word (cs ++ rest)).offset⟩⟩]) with
              lastSlot := some ⟨option.name, c, c.offset, ""⟩ } := by
          have length : (done ++ [(⟨option.name, String.ofList word,
              ⟨c.offset, (c.past word (cs ++ rest)).offset⟩⟩ : Filling)]).length =
              ctx.table.slots.length := by
            rw [List.length_append, List.length_singleton, last]
          exact ⟨stops_filled length flags, filled_freeSlot (Nat.le_of_eq length.symm), rfl, rfl,
            rfl, by simp [filled], rfl, .inl (by simp)⟩
        refine ⟨_, full, ?_⟩
        rw [read, full.sweep_words text (inText.behind_word ends), Cursor.past_past]
      · have read := sweep_earlierWord distinct counted fills slot inText nonempty parts ends
          (by omega)
        have fills' := fills.behind_word slot nonempty (cs ++ rest) (String.ofList word)
          ⟨c.offset, (c.past word (cs ++ rest)).offset⟩
        obtain ⟨s', noSlot, reads⟩ := ih
          (by rw [List.length_append, List.length_singleton]; omega) (inText.behind_word ends)
          fills' (by rw [List.length_append, List.length_singleton]; omega)
        refine ⟨s', noSlot, ?_⟩
        rw [read, reads, Cursor.past_past]

/-- Where a parse stops with the last slot, words fill the slots, and the last one takes all the
text behind its word. -/
theorem closeAll_manyWords (counted : ctx.table.slots.length = ctx.table.optionCount)
    (stopWhenFilled : ctx.config.stopWhenFilled = true)
    (total : c.offset + byteLength c.rest = ctx.length) (plain : '\\' ∉ c.rest) :
    (((filled ctx done).sweep ctx c).closeAll ctx).finds
      (done ++ wordFillings ctx.length ((ctx.table.slots.map (·.name)).drop done.length)
        (wordStarts c.offset c.before c.rest)) := by
  induction text generalizing done c with
  | nil => omega
  | @blank cs count _ ih =>
      have plain' : '\\' ∉ cs ++ rest := by
        rw [inText.split] at plain
        exact fun inside => plain (List.mem_cons_of_mem ' ' inside)
      have inText' : InText c ([' '] ++ cs) rest := inText
      rw [sweep_blank_inText inText, inText.starts_blank]
      exact ih bound inText.behind_blank (fills.behind_blank _) many (inText'.behind_total total)
        plain'
  | @word word cs count nonempty parts ends text ih =>
      obtain ⟨option, slot⟩ : ∃ option, ctx.table.slots[done.length]? = some option :=
        ⟨_, List.getElem?_eq_getElem bound⟩
      have counted' := Nat.le_of_eq counted
      obtain ⟨same, atWord⟩ := inText.atWord nonempty parts ends
      rw [atWord.later, drop_slot_names slot, same]
      by_cases last : done.length + 1 = ctx.table.slots.length
      · have read := sweep_lastWord distinct counted' fills slot inText nonempty parts ends last
        have none : (ctx.table.slots.map (·.name)).drop (done.length + 1) = [] := by
          rw [List.drop_eq_nil_iff, List.length_map]
          omega
        have all : ({ filled ctx (done ++ [⟨option.name, String.ofList word,
            ⟨c.offset, (c.past word (cs ++ rest)).offset⟩⟩]) with
              lastSlot := some ⟨option.name, c, c.offset, ""⟩ } : State).stops ctx = true := by
          simp [stops, allFilled, filled, stopWhenFilled, ← counted, last]
        have whole : c.rest = [] ++ c.rest := rfl
        rw [read, sweep_of_stops all, none]
        exact closeAll_lastSlot (name_notMem_filled fills.names slot distinct) whole total
          (fun _ => plain) _ _
      · have read := sweep_earlierWord distinct counted' fills slot inText nonempty parts ends
          (by omega)
        have more : (ctx.table.slots.map (·.name)).drop (done.length + 1) ≠ [] := by
          rw [ne_eq, List.drop_eq_nil_iff, List.length_map]
          omega
        have plain' : '\\' ∉ cs ++ rest := by
          rw [inText.split, List.append_assoc] at plain
          exact fun inside => plain (List.mem_append_right word inside)
        have fills' := fills.behind_word slot nonempty (cs ++ rest) (String.ofList word)
          ⟨c.offset, (c.past word (cs ++ rest)).offset⟩
        have finds := ih (by rw [List.length_append, List.length_singleton]; omega)
          (inText.behind_word ends) fills'
          (by rw [List.length_append, List.length_singleton]; omega) (inText.behind_total total)
          plain'
        rw [List.append_assoc, List.length_append] at finds
        rw [read, wordFillings_cons more, same]
        exact finds

end

end State

end Parse

end ChatArgs
