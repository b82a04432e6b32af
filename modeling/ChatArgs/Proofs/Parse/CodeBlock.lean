import ChatArgs.Proofs.Parse.BlockLines
import ChatArgs.Proofs.Parse.PlainText
import ChatArgs.Proofs.Parse.QuotedText
import Mathlib.Data.List.Infix

/-!
# Code blocks

Three backticks open a block, and three in a row close it. A shorter run in the block is kept in
mind as a run that may close it; the next run takes its place, but a backtick alone closes the
block in front of it. A text without such a backtick is found as it was.
-/

namespace ChatArgs

namespace Parse

open Text

/-! ## Texts that fit into a block -/

def fence : List Char :=
  ['`', '`', '`']

def HasLoneBacktick (cs : List Char) : Prop :=
  ∃ front back, cs = front ++ '`' :: back ∧ front.getLast? ≠ some '`' ∧ back.head? ≠ some '`'

/-- Nothing in the text escapes, no three backticks stand in a row, and behind two in a row
none stands alone. -/
structure FitsBlock (cs : List Char) : Prop where
  noBackslash : '\\' ∉ cs
  noFence : ¬ fence <:+: cs
  noLone : ∀ front back, cs = front ++ '`' :: '`' :: back → ¬ HasLoneBacktick back

theorem HasLoneBacktick.prepend {front cs : List Char} (lone : HasLoneBacktick cs)
    (apart : front.getLast? ≠ some '`' ∨ cs.head? ≠ some '`') : HasLoneBacktick (front ++ cs) := by
  obtain ⟨inner, back, rfl, before, behind⟩ := lone
  refine ⟨front ++ inner, back, by simp, ?_, behind⟩
  cases inner with
  | nil => simpa using apart
  | cons x inner => simpa [List.getLast?_append] using before

theorem FitsBlock.suffix {cs rest : List Char} (fits : FitsBlock cs) (front : List Char)
    (split : cs = front ++ rest) : FitsBlock rest where
  noBackslash := fun member => fits.noBackslash (by simp [split, member])
  noFence := fun inside =>
    fits.noFence (inside.trans (split ▸ (List.suffix_append front rest).isInfix))
  noLone := by
    intro inner back split'
    exact fits.noLone (front ++ inner) back (by rw [split, split', List.append_assoc])

theorem guarded_of_notMem {q : Quote} {cs : List Char} (plain : '\\' ∉ cs) (absent : q.char ∉ cs) :
    guarded { quotes := [q] } false cs = true := by
  induction cs with
  | nil => rfl
  | cons c cs ih =>
      simp only [List.mem_cons, not_or] at plain absent
      have visible : ¬ c = '\\' := fun same => plain.1 same.symm
      rw [guarded, if_neg visible, ih plain.2 absent.2]
      simp [EscapeSet.isDelimiter, absent.1]

theorem FitsBlock.cons {x : Char} {cs : List Char} (fits : FitsBlock cs) (noEscape : x ≠ '\\')
    (noBacktick : x ≠ '`') : FitsBlock (x :: cs) where
  noBackslash := by
    rw [List.mem_cons, not_or]
    exact ⟨noEscape.symm, fits.noBackslash⟩
  noFence := by
    rw [List.infix_cons_iff]
    rintro (⟨back, front⟩ | inside)
    · exact noBacktick (List.cons.inj front).1.symm
    · exact fits.noFence inside
  noLone := by
    intro front back split
    cases front with
    | nil => exact absurd (List.cons.inj split).1 noBacktick
    | cons y front => exact fits.noLone front back (List.cons.inj split).2

theorem FitsBlock.prepend {front cs : List Char} (fits : FitsBlock cs) (plain : '\\' ∉ front)
    (absent : '`' ∉ front) : FitsBlock (front ++ cs) := by
  induction front with
  | nil => exact fits
  | cons x front ih =>
      rw [List.mem_cons, not_or] at plain absent
      exact (ih plain.2 absent.2).cons (Ne.symm plain.1) (Ne.symm absent.1)

theorem FitsBlock.of_notMem {cs : List Char} (plain : '\\' ∉ cs) (absent : '`' ∉ cs) :
    FitsBlock cs := by
  have nothing : FitsBlock [] := ⟨by simp, by simp [fence], by simp⟩
  simpa using nothing.prepend plain absent

namespace State

variable {ctx : Context} {s : State} {block : LongText} {c : Cursor} {rest : List Char}

/-! ## Backticks in a block -/

def remember (closing : Option ClosingRun) (block : LongText) (s : State) : State :=
  { s with longText := some { block with closing := closing } }

structure InBlock (ctx : Context) (block : LongText) (s : State) : Prop extends
    InQuote ctx block s where
  unescaped : s.escape = none
  quote : block.quote = .backtick
  fenced : block.body.offset - block.start = 2

theorem InBlock.remember (inside : InBlock ctx block s) (closing : Option ClosingRun) :
    InBlock ctx { block with closing := closing } (s.remember closing block) where
  long := rfl
  lastSlot := inside.lastSlot
  single := inside.single
  quiet := inside.quiet
  unescaped := inside.unescaped
  quote := inside.quote
  fenced := inside.fenced

section

variable (inside : InBlock ctx block s)
include inside

/-- What a backtick behind the opening ones does: in front of another one it is kept in mind, and
as the last of its run it may close the block. -/
theorem onSameQuote_inBlock {t : Token} (behind : block.body.offset < t.start.offset) :
    s.onSameQuote ctx t block =
      if t.stop.after = some '`' then
        match block.closing with
        | some run =>
            if run.last + 1 = t.start.offset then
              s.remember (some { run with last := t.start.offset }) block
            else s.remember (some ⟨t.start, t.start.offset⟩) block
        | none => s.remember (some ⟨t.start, t.start.offset⟩) block
      else
        match block.closing with
        | some run =>
            if t.start.offset - run.first.offset < 2 then s
            else s.closeCodeBlock ctx block run.first
        | none => s := by
  have further : ¬ block.body.offset = t.start.offset := Nat.ne_of_lt behind
  have char : block.quote.char = '`' := by rw [inside.quote]; rfl
  have isBlock : (block.quote == .backtick && block.body.offset - block.start == 2) = true := by
    simp [inside.quote, inside.fenced]
  unfold onSameQuote
  simp only [further, char, isBlock, beq_iff_eq, if_false]
  by_cases again : t.stop.after = some '`'
  · cases block.closing <;> simp [again, State.remember]
  · have last : (t.stop.after == some '`') = false := by simpa using again
    cases block.closing <;> simp [again, last]

variable (reads : ReadsQuotes ctx .backtick)
include reads

theorem sweep_backtick (split : c.rest = '`' :: rest) :
    s.sweep ctx c = (s.onSameQuote ctx (.reading (.delimiter '`') c ['`'] rest) block).sweep ctx
      (c.past ['`'] rest) := by
  have char : block.quote.char = '`' := by rw [inside.quote]; rfl
  have step : s.step ctx (.reading (.delimiter '`') c ['`'] rest) =
      s.onSameQuote ctx (.reading (.delimiter '`') c ['`'] rest) block := by
    rw [step_eq_onOther inside.toInQuote, onOther_inQuote inside.toInQuote]
    simp only [Token.reading]
    rw [onDelimiter_inQuote (inside.quote ▸ reads) inside.toInQuote inside.unescaped,
      if_pos char.symm]
  rw [← step]
  exact sweep_quote (q := .backtick) reads split

variable (behind : block.body.offset < c.offset)
include behind

theorem sweep_lone (noRun : block.closing = none) (split : c.rest = '`' :: rest)
    (head : rest.head? ≠ some '`') : s.sweep ctx c = s.sweep ctx (c.past ['`'] rest) := by
  rw [sweep_backtick inside reads split, onSameQuote_inBlock inside behind]
  simp [Token.reading, head, noRun]

theorem sweep_firstBacktick (earlier : ∀ run ∈ block.closing, run.last + 1 < c.offset)
    (split : c.rest = '`' :: '`' :: rest) :
    s.sweep ctx c =
      (s.remember (some ⟨c, c.offset⟩) block).sweep ctx (c.past ['`'] ('`' :: rest)) := by
  rw [sweep_backtick inside reads split, onSameQuote_inBlock inside behind]
  cases kept : block.closing with
  | none => simp [Token.reading]
  | some run =>
      have apart : ¬ run.last + 1 = c.offset := Nat.ne_of_lt (earlier run kept)
      simp [Token.reading, apart]

theorem sweep_pair (earlier : ∀ run ∈ block.closing, run.last + 1 < c.offset)
    (split : c.rest = '`' :: '`' :: rest) (head : rest.head? ≠ some '`') :
    s.sweep ctx c = (s.remember (some ⟨c, c.offset⟩) block).sweep ctx (c.past ['`', '`'] rest) := by
  have size : '`'.utf8Size = 1 := by decide
  have behind' : block.body.offset < (c.past ['`'] ('`' :: rest)).offset := by
    rw [Cursor.past_offset]
    omega
  rw [sweep_firstBacktick inside reads behind earlier split,
    sweep_backtick (inside.remember _) reads rfl,
    onSameQuote_inBlock (inside.remember _) behind', Cursor.past_past]
  simp [Token.reading, head, size]

/-- Three backticks close the block. -/
theorem sweep_fence (earlier : ∀ run ∈ block.closing, run.last + 1 < c.offset)
    (split : c.rest = fence ++ rest) (head : rest.head? ≠ some '`') :
    s.sweep ctx c =
      ((s.remember (some ⟨c, c.offset + 1⟩) block).closeCodeBlock ctx
        { block with closing := some ⟨c, c.offset + 1⟩ } c).sweep ctx (c.past fence rest) := by
  have size : '`'.utf8Size = 1 := by decide
  have behind' (front rest : List Char) : block.body.offset < (c.past front rest).offset := by
    rw [Cursor.past_offset]
    omega
  have second : (s.remember (some ⟨c, c.offset⟩) block).onSameQuote ctx
        (.reading (.delimiter '`') (c.past ['`'] ('`' :: '`' :: rest)) ['`'] ('`' :: rest))
        { block with closing := some ⟨c, c.offset⟩ } =
          s.remember (some ⟨c, c.offset + 1⟩) block := by
    rw [onSameQuote_inBlock (inside.remember _) (behind' _ _)]
    simp [Token.reading, size, State.remember]
  have split' : c.rest = '`' :: '`' :: '`' :: rest := split
  rw [sweep_firstBacktick inside reads behind earlier split',
    sweep_backtick (inside.remember _) reads rfl, second, Cursor.past_past,
    sweep_backtick (inside.remember _) reads rfl,
    onSameQuote_inBlock (inside.remember _) (behind' _ _), Cursor.past_past]
  simp [Token.reading, size, head, fence]

end

/-! ## From fence to fence -/

/-- The text at the place closes no block: it fits, and a run that is kept in mind ends in front of
the place, where no backtick stands alone then. -/
structure StaysOpen (block : LongText) (c : Cursor) (more : List Char) : Prop where
  fits : FitsBlock more
  noLone : block.closing ≠ none → ¬ HasLoneBacktick more
  ahead : block.body.offset ≤ c.offset
  behind : more.head? = some '`' → block.body.offset < c.offset
  earlier : ∀ run ∈ block.closing, run.last + 1 < c.offset

theorem StaysOpen.behind_unquoted {front more : List Char}
    (stays : StaysOpen block c (front ++ '`' :: more)) (absent : '`' ∉ front) (rest : List Char) :
    StaysOpen block (c.past front rest) ('`' :: more) where
  fits := stays.fits.suffix front rfl
  noLone kept alone :=
    stays.noLone kept (alone.prepend (.inl fun last => absent (List.mem_of_getLast? last)))
  ahead := stays.ahead.trans (Nat.le_add_right ..)
  behind _ := by
    have ahead := stays.ahead
    rw [Cursor.past_offset]
    cases front with
    | nil => exact stays.behind rfl
    | cons x front =>
        have positive := byteLength_pos (List.cons_ne_nil x front)
        omega
  earlier run kept := Nat.lt_add_right _ (stays.earlier run kept)

/-- Two backticks that are kept in mind end in front of the place behind them, and the text there
has none that stands alone. -/
theorem StaysOpen.behind_pair {more : List Char}
    (stays : StaysOpen block c ('`' :: '`' :: more)) (rest : List Char) :
    StaysOpen { block with closing := some ⟨c, c.offset⟩ } (c.past ['`', '`'] rest) more where
  fits := stays.fits.suffix ['`', '`'] rfl
  noLone _ := stays.fits.noLone [] more rfl
  ahead := stays.ahead.trans (Nat.le_add_right ..)
  behind _ := Nat.lt_add_right _ (stays.behind rfl)
  earlier := by
    have size : '`'.utf8Size = 1 := by decide
    simp [size]

section

variable (reads : ReadsQuotes ctx .backtick)
include reads

theorem sweep_unquoted (inside : InBlock ctx block s) {front : List Char}
    (plain : '\\' ∉ front) (absent : '`' ∉ front) (split : c.rest = front ++ '`' :: rest) :
    s.sweep ctx c = s.sweep ctx (c.past front ('`' :: rest)) := by
  have char : block.quote.char = '`' := by rw [inside.quote]; rfl
  rw [← char] at split absent ⊢
  exact sweep_guarded (inside.quote ▸ reads) inside.toInQuote inside.unescaped split
    (guarded_of_notMem plain absent)

/-- The backticks that stand together in front of a text that fits are passed: one alone while
no run is kept in mind, and two, which are kept in mind then. -/
theorem sweep_backticks (inside : InBlock ctx block s) {more : List Char}
    (stays : StaysOpen block c ('`' :: more)) (split : c.rest = '`' :: (more ++ rest))
    (stop : rest.head? ≠ some '`') :
    ∃ (closing : Option ClosingRun) (run back : List Char),
      '`' :: more = run ++ back ∧ run ≠ [] ∧
      StaysOpen { block with closing := closing } (c.past run (back ++ rest)) back ∧
      s.sweep ctx c = (s.remember closing block).sweep ctx (c.past run (back ++ rest)) := by
  have behind := stays.behind rfl
  have head {back : List Char} (other : back.head? ≠ some '`') :
      (back ++ rest).head? ≠ some '`' := by
    cases back with
    | nil => exact stop
    | cons x back => exact other
  by_cases pair : more.head? = some '`'
  · obtain ⟨back, rfl⟩ : ∃ back, more = '`' :: back := by
      cases more with
      | nil => simp at pair
      | cons x back => exact ⟨back, by simpa using pair⟩
    have noThird : back.head? ≠ some '`' := by
      intro third
      cases back with
      | nil => simp at third
      | cons x back =>
          obtain rfl : x = '`' := by simpa using third
          exact stays.fits.noFence ⟨[], back, rfl⟩
    exact ⟨some ⟨c, c.offset⟩, ['`', '`'], back, rfl, by simp, stays.behind_pair _,
      sweep_pair inside reads behind stays.earlier split (head noThird)⟩
  · have alone : HasLoneBacktick ('`' :: more) := ⟨[], more, rfl, by simp, pair⟩
    have noRun : block.closing = none := by
      by_contra kept
      exact stays.noLone kept alone
    have same : s.remember none block = s := by
      rw [State.remember, ← noRun, ← inside.long]
    have stays' : StaysOpen { block with closing := none } (c.past ['`'] (more ++ rest)) more :=
      ⟨stays.fits.suffix ['`'] rfl, by simp, stays.ahead.trans (Nat.le_add_right ..),
        fun _ => Nat.lt_add_right _ behind, by simp⟩
    refine ⟨none, ['`'], more, rfl, by simp, stays', ?_⟩
    rw [same]
    exact sweep_lone inside reads behind noRun split (head pair)

/-- A text that fits into a block is passed, with the line feed behind it. No run that is kept
in mind reaches the closing fence. -/
theorem sweep_block (inside : InBlock ctx block s) {more : List Char}
    (stays : StaysOpen block c more) (split : c.rest = more ++ '\n' :: (fence ++ rest)) :
    ∃ closing : Option ClosingRun,
      (∀ run ∈ closing, run.last + 1 < (c.past (more ++ ['\n']) (fence ++ rest)).offset) ∧
      s.sweep ctx c =
        (s.remember closing block).sweep ctx (c.past (more ++ ['\n']) (fence ++ rest)) := by
  -- On the length of the text: each run of backticks is passed with what stands in front of it.
  induction length : more.length using Nat.strong_induction_on generalizing s block c more with
  | _ size ih =>
      subst length
      by_cases member : '`' ∈ more
      · obtain ⟨front, more, rfl, absent⟩ := List.eq_append_cons_of_mem member
        have plain : '\\' ∉ front := fun escape =>
          stays.fits.noBackslash (List.mem_append_left _ escape)
        rw [List.append_assoc] at split
        have passes := sweep_unquoted reads inside plain absent split
        have split' : (c.past front ('`' :: (more ++ '\n' :: (fence ++ rest)))).rest =
            '`' :: (more ++ '\n' :: (fence ++ rest)) := rfl
        obtain ⟨closing, run, back, inner, filled, stays', same⟩ :=
          sweep_backticks reads inside (stays.behind_unquoted absent _) split' (by simp)
        have fewer : back.length < (front ++ '`' :: more).length := by
          have positive := List.length_pos_iff.2 filled
          rw [inner, List.length_append, List.length_append]
          omega
        obtain ⟨closing', before, same'⟩ :=
          ih back.length fewer (inside.remember closing) stays' rfl rfl
        refine ⟨closing', ?_⟩
        rw [passes, inner, List.append_assoc, List.append_assoc, ← Cursor.past_past,
          ← Cursor.past_past]
        exact ⟨before, same.trans same'⟩
      · have same : s.remember block.closing block = s := by
          rw [State.remember, ← inside.long]
        have plain : '\\' ∉ more ++ ['\n'] := by simpa using stays.fits.noBackslash
        have absent : '`' ∉ more ++ ['\n'] := by simpa using member
        refine ⟨block.closing, fun run kept => ?_, ?_⟩
        · have before := stays.earlier run kept
          rw [Cursor.past_offset]
          omega
        · rw [same]
          apply sweep_unquoted reads inside plain absent
          rw [split, List.append_assoc]
          rfl

end

/-! ## The value of a block -/

end State

namespace Block

variable {line behind rest : List Char} {start : Cursor}

theorem language_lines (word : ∀ x ∈ line, isBlank x = false) (behind : List Char) :
    language (line ++ '\n' :: behind) = line :=
  takeWhile_append_stop (by simpa using word) (by simp; decide)

theorem hasLanguage_lines (word : ∀ x ∈ line, isBlank x = false) (behind : List Char) :
    hasLanguage (line ++ '\n' :: behind) = !line.isEmpty := by
  rw [hasLanguage, language_lines word, List.drop_left, List.head?_cons, beq_self_eq_true,
    Bool.and_true]

theorem codeLines_lines (word : ∀ x ∈ line, isBlank x = false) (filled : line ≠ [])
    (split : start.rest = line ++ '\n' :: behind ++ rest) :
    codeLines start (line ++ '\n' :: behind) = start.past (line ++ ['\n']) (behind ++ rest) := by
  have split' : start.rest = (line ++ ['\n']) ++ (behind ++ rest) := by simp [split]
  have has : hasLanguage (line ++ '\n' :: behind) = true := by
    rw [hasLanguage_lines word]
    simpa using filled
  rw [codeLines, if_pos has, behindLanguage, language_lines word, ← Cursor.forward_eq_past split',
    List.length_append, List.length_singleton]

/-- The code starts behind the first line, which may be empty. -/
theorem behindFeed_codeLines (word : ∀ x ∈ line, isBlank x = false)
    (lines : line ≠ [] → (behind ++ rest).head? ≠ some '\n')
    (split : start.rest = line ++ '\n' :: behind ++ rest) :
    behindFeed (codeLines start (line ++ '\n' :: behind)) =
      start.past (line ++ ['\n']) (behind ++ rest) := by
  by_cases filled : line = []
  · subst filled
    have noLanguage : hasLanguage ([] ++ '\n' :: behind) = false := hasLanguage_lines word behind
    have feed : start.after = some '\n' := by rw [Cursor.after, split]; rfl
    rw [codeLines, noLanguage, if_neg Bool.false_ne_true, behindFeed, feed, if_pos (by simp)]
    exact Cursor.next_eq_past split
  · have noFeed : ((start.past (line ++ ['\n']) (behind ++ rest)).after == some '\n') = false := by
      simpa [Cursor.after] using lines filled
    rw [codeLines_lines word filled split, behindFeed, noFeed, if_neg Bool.false_ne_true]

theorem beforeFeed_past (c : Cursor) (front rest : List Char) :
    beforeFeed (c.past (front ++ ['\n']) rest) = (c.past front ('\n' :: rest)).offset := by
  have size : '\n'.utf8Size = 1 := by decide
  have feed : (c.past (front ++ ['\n']) rest).before = some '\n' := by
    rw [Cursor.past, List.getLast?_concat]
    rfl
  rw [beforeFeed, feed, if_pos (by simp)]
  simp [size]

end Block

namespace State

variable {ctx : Context} {s : State} {c : Cursor} {rest : List Char}

/-- The language and the code are placed, each without the line feed behind it. -/
theorem closeCodeBlock_lines (block : LongText) (s : State) {language code : List Char}
    (word : ∀ x ∈ language, isBlank x = false)
    (lines : language ≠ [] → (code ++ ['\n']).head? ≠ some '\n') (plain : '\\' ∉ code)
    (split : block.body.rest = language ++ '\n' :: code ++ '\n' :: rest) :
    s.closeCodeBlock ctx block (block.body.past (language ++ '\n' :: code ++ ['\n']) rest) =
      ({ s.placeLanguage ctx language (!language.isEmpty) block.body
          (block.body.past (language ++ ['\n']) (code ++ '\n' :: rest)).offset with
          longText := none, justClosed := true } : State).place ctx (String.ofList code)
        (block.body.past (language ++ ['\n']) (code ++ '\n' :: rest))
        (block.body.past (language ++ '\n' :: code) ('\n' :: rest)).offset true := by
  have whole : block.body.rest = (language ++ '\n' :: code ++ ['\n']) ++ rest := by simp [split]
  have raw : block.body.textTo
      (block.body.past (language ++ '\n' :: code ++ ['\n']) rest).offset =
        language ++ '\n' :: (code ++ ['\n']) :=
    (Cursor.textTo_eq_front whole).trans (List.append_assoc language _ _)
  have split' : block.body.rest = language ++ '\n' :: (code ++ ['\n']) ++ rest := by simp [split]
  have behind : code ++ ['\n'] ++ rest = code ++ '\n' :: rest := by simp
  have body : Block.behindFeed (Block.codeLines block.body (language ++ '\n' :: (code ++ ['\n']))) =
      block.body.past (language ++ ['\n']) (code ++ '\n' :: rest) := by
    rw [← behind]
    apply Block.behindFeed_codeLines word _ split'
    intro filled
    have head := lines filled
    cases code with
    | nil => simp at head
    | cons x code => simpa using head
  have placed : s.placeLanguage ctx language (!language.isEmpty) block.body
      (Block.codeLines block.body (language ++ '\n' :: (code ++ ['\n']))).offset =
        s.placeLanguage ctx language (!language.isEmpty) block.body
          (block.body.past (language ++ ['\n']) (code ++ '\n' :: rest)).offset := by
    cases language with
    | nil => rfl
    | cons x language =>
        rw [Block.codeLines_lines word (List.cons_ne_nil x language) split', behind]
  have value : (block.body.past (language ++ ['\n']) (code ++ '\n' :: rest)).textTo
      (block.body.past (language ++ '\n' :: code) ('\n' :: rest)).offset = code := by
    have further : (block.body.past (language ++ ['\n']) (code ++ '\n' :: rest)).past code
        ('\n' :: rest) = block.body.past (language ++ '\n' :: code) ('\n' :: rest) := by
      rw [Cursor.past_past, List.append_assoc]
      rfl
    rw [← further]
    exact Cursor.textTo_eq_front rfl
  rw [closeCodeBlock_eq, Block.beforeFeed_past]
  simp only [openCode, raw, Block.language_lines word, Block.hasLanguage_lines word, body, placed,
    closeLongText, value, unescapeWith_of_notMem _ plain]

/-! ## Whole blocks -/

section

variable (reads : ReadsQuotes ctx .backtick) (ready : Ready ctx s)
include reads ready

theorem sweep_bodyQuote (start : Nat) {body : Cursor} (split : body.rest = '`' :: rest) :
    ({ s with justClosed := false, longText := some ⟨.backtick, start, body, none⟩ } :
        State).sweep ctx body =
      ({ s with
        justClosed := false
        longText := some ⟨.backtick, start, body.past ['`'] rest, none⟩ } : State).sweep ctx
        (body.past ['`'] rest) := by
  have inside : InQuote ctx ⟨.backtick, start, body, none⟩
      { s with justClosed := false, longText := some ⟨.backtick, start, body, none⟩ } :=
    ⟨rfl, ready.lastSlot, ready.single, rfl⟩
  have step : ({ s with justClosed := false, longText := some ⟨.backtick, start, body, none⟩ } :
        State).step ctx (.reading (.delimiter '`') body ['`'] rest) =
      { s with
        justClosed := false
        longText := some ⟨.backtick, start, body.past ['`'] rest, none⟩ } := by
    rw [step_eq_onOther inside, onOther_inQuote inside]
    simp only [Token.reading]
    rw [onDelimiter_inQuote reads inside ready.escape]
    simp [onSameQuote, Quote.char]
  rw [← step]
  exact sweep_quote reads split

theorem sweep_openingFence (split : c.rest = fence ++ rest) :
    s.sweep ctx c =
      ({ s with
        justClosed := false
        longText := some ⟨.backtick, c.offset + 1, c.past fence rest, none⟩ } : State).sweep ctx
        (c.past fence rest) := by
  have split' : c.rest = Quote.backtick.char :: '`' :: '`' :: rest := split
  have size : '`'.utf8Size = 1 := by decide
  rw [sweep_quote reads split', step_openingQuote reads ready,
    sweep_bodyQuote reads ready _ rfl, sweep_bodyQuote reads ready _ rfl]
  simp [Cursor.past_past, fence, Quote.char, size]

/-- Between two fences, the first line is the language, and the lines behind it are placed. -/
theorem sweep_languageBlock {language code : List Char}
    (word : ∀ x ∈ language, isBlank x = false) (plain : '\\' ∉ language) (absent : '`' ∉ language)
    (lines : language ≠ [] → (code ++ ['\n']).head? ≠ some '\n') (fits : FitsBlock code)
    (split : c.rest = fence ++ (language ++ '\n' :: (code ++ '\n' :: (fence ++ rest))))
    (head : rest.head? ≠ some '`') :
    ∃ long first behind start stop, s.sweep ctx c =
      (({ ({ s with justClosed := false, longText := some long } : State).placeLanguage ctx
          language (!language.isEmpty) first behind with
            longText := none, justClosed := true } : State).place ctx
        (String.ofList code) start stop true).sweep ctx
        (c.past (fence ++ (language ++ '\n' :: (code ++ '\n' :: fence))) rest) := by
  -- The block that is open behind the fence.
  obtain ⟨block, hblock⟩ : ∃ block : LongText, (⟨.backtick, c.offset + 1,
      c.past fence (language ++ '\n' :: code ++ '\n' :: (fence ++ rest)), none⟩ : LongText) =
        block := ⟨_, rfl⟩
  have bodyRest : block.body.rest = language ++ '\n' :: code ++ '\n' :: (fence ++ rest) := by
    rw [← hblock]
    rfl
  have noRun : block.closing = none := by rw [← hblock]
  have inside : InBlock ctx block { s with justClosed := false, longText := some block } := by
    have size : '`'.utf8Size = 1 := by decide
    refine ⟨⟨rfl, ready.lastSlot, ready.single, rfl⟩, ready.escape, by rw [← hblock], ?_⟩
    rw [← hblock]
    simp [fence, size]
  have split' : c.rest = fence ++ (language ++ '\n' :: code ++ '\n' :: (fence ++ rest)) := by
    rw [split, List.append_assoc, List.cons_append]
  have opens : s.sweep ctx c =
      ({ s with justClosed := false, longText := some block } : State).sweep ctx block.body := by
    rw [← hblock]
    exact sweep_openingFence reads ready split'
  have starts : (language ++ '\n' :: code).head? ≠ some '`' := by
    cases language with
    | nil => simp
    | cons x language =>
        rw [List.mem_cons, not_or] at absent
        simpa using Ne.symm absent.1
  have stays : StaysOpen block block.body (language ++ '\n' :: code) :=
    ⟨(fits.cons (by decide) (by decide)).prepend plain absent, by simp [noRun], Nat.le_refl _,
      fun backtick => absurd backtick starts, by simp [noRun]⟩
  obtain ⟨closing, earlier, passes⟩ := sweep_block reads inside stays bodyRest
  obtain ⟨last, hlast⟩ : ∃ last,
      block.body.past (language ++ '\n' :: code ++ ['\n']) (fence ++ rest) = last := ⟨_, rfl⟩
  rw [hlast] at earlier passes
  have behind : block.body.offset < last.offset := by
    have positive := byteLength_pos
      (List.append_ne_nil_of_right_ne_nil (language ++ '\n' :: code) (List.cons_ne_nil '\n' []))
    rw [← hlast, Cursor.past_offset]
    exact Nat.lt_add_of_pos_right positive
  have closes := sweep_fence (inside.remember closing) reads behind earlier
    (by rw [← hlast]; rfl) head
  have whole : last.past fence rest =
      c.past (fence ++ (language ++ '\n' :: (code ++ '\n' :: fence))) rest := by
    rw [← hlast, ← hblock, Cursor.past_past, Cursor.past_past]
    simp
  refine ⟨{ block with closing := some ⟨last, last.offset + 1⟩ }, block.body,
    (block.body.past (language ++ ['\n']) (code ++ '\n' :: (fence ++ rest))).offset,
    block.body.past (language ++ ['\n']) (code ++ '\n' :: (fence ++ rest)),
    (block.body.past (language ++ '\n' :: code) ('\n' :: (fence ++ rest))).offset, ?_⟩
  rw [opens, passes, closes, whole, ← hlast]
  exact congrArg (sweep ctx _) (closeCodeBlock_lines
    { block with closing := _ } _ word lines fits.noBackslash bodyRest)

/-- The lines between two fences are placed. -/
theorem sweep_codeBlock (noLanguage : ctx.config.languageAsValue = false) {code : List Char}
    (fits : FitsBlock code)
    (split : c.rest = fence ++ '\n' :: (code ++ '\n' :: (fence ++ rest)))
    (head : rest.head? ≠ some '`') :
    ∃ start stop, s.sweep ctx c =
      (({ s with justClosed := true } : State).place ctx (String.ofList code) start stop
        true).sweep ctx (c.past (fence ++ '\n' :: (code ++ '\n' :: fence)) rest) := by
  have word : ∀ x ∈ ([] : List Char), isBlank x = false := by simp
  obtain ⟨long, first, behind, start, stop, swept⟩ := sweep_languageBlock reads ready word
    (by simp) (by simp) (by simp) fits split head
  have noLong : ({ s with longText := none, justClosed := true } : State) =
      { s with justClosed := true } := by rw [← ready.longText]
  rw [placeLanguage_off noLanguage] at swept
  refine ⟨start, stop, swept.trans ?_⟩
  rw [← noLong]
  rfl

end

end State

end Parse

open Parse

namespace Command

variable {command : Command}

/-- The first slot takes the lines between two fences as they are. -/
theorem parse_codeBlock (shared : Config) {slot : OptionDecl} {code : String}
    (first : (Table.ofCommand command).slots.head? = some slot)
    (noChoices : ∀ t ∈ (Table.ofCommand command).choices, t.option ≠ slot.name)
    (enabled : ((Table.ofCommand command).configFor shared).delimiters.hasQuote .backtick = true)
    (plainLast : ((Table.ofCommand command).configFor shared).plainLast = none)
    (goesOn : ((Table.ofCommand command).configFor shared).stopWhenFilled = false)
    (noLanguage : ((Table.ofCommand command).configFor shared).languageAsValue = false)
    (fits : FitsBlock code.toList) :
    (command.parse shared ("```\n" ++ code ++ "\n```") none).values = ⟨[(slot.name, code)]⟩ := by
  rw [Command.parse]
  generalize (Table.ofCommand command).configFor shared = config
    at enabled plainLast goesOn noLanguage ⊢
  have counted : 0 < (Table.ofCommand command).optionCount :=
    Table.optionCount_pos_of_slot (List.mem_of_head? first)
  have content : ("```\n" ++ code ++ "\n```").toList =
      fence ++ '\n' :: (code.toList ++ '\n' :: (fence ++ [])) := by
    simp [fence]
  rw [parse_values counted, content, State.run_none]
  obtain ⟨ctx, hctx⟩ : ∃ ctx : Context, (⟨fence ++ '\n' :: (code.toList ++ '\n' :: (fence ++ [])),
      Table.ofCommand command, config, .ofConfig config⟩ : Context) = ctx := ⟨_, rfl⟩
  rw [hctx]
  have reads : ReadsQuotes ctx .backtick := by
    rw [← hctx]
    exact ⟨enabled, plainLast, goesOn⟩
  have slots : ctx.table.slots[([] : List Filling).length]? = some slot := by
    rw [← hctx, List.length_nil, ← List.head?_eq_getElem?]
    exact first
  obtain ⟨start, stop, swept⟩ := State.sweep_codeBlock reads (s := State.filled ctx [])
    (c := Text.Cursor.start ctx.content) ⟨rfl, rfl, rfl, rfl, rfl⟩
    (by rw [← hctx]; exact noLanguage) fits (by rw [← hctx]; rfl) (by simp)
  rw [State.initial_eq_filled, swept, State.place_filled slots (by simp), State.sweep_end rfl]
  have values : (({ State.filled ctx [⟨slot.name, code, ⟨start.offset, stop⟩⟩] with
      justClosed := true } : State).closeAll ctx).values = ⟨[(slot.name, code)]⟩ := rfl
  rw [String.ofList_toList, List.nil_append, values]
  apply matchChoices_of_notMem
  intro t member
  simpa [Entries.keys] using noChoices t member

/-- Backticks, a quote and hyphens inside of a block. -/
theorem parse_codeBlock_quotes :
    ((⟨"run", [{ name := "code" }], none⟩ : Command).parse {}
      ("```\n" ++ "`a` \"--b\" ``c" ++ "\n```") none).values =
      ⟨[("code", "`a` \"--b\" ``c")]⟩ := by
  have chars : "`a` \"--b\" ``c".toList =
      ['`', 'a', '`', ' ', '"', '-', '-', 'b', '"', ' ', '`', '`', 'c'] := by decide +kernel
  have fits : FitsBlock "`a` \"--b\" ``c".toList := by
    rw [chars]
    refine ⟨by decide +kernel, by decide +kernel, fun front back split => ?_⟩
    have behind := (List.mem_tails _ _).2 ⟨front, split.symm⟩
    obtain rfl : back = ['c'] := by simpa using behind
    rintro ⟨inner, last, split', -, -⟩
    have member : '`' ∈ ['c'] := by simp [split']
    exact absurd member (by decide)
  have first : (Table.ofCommand ⟨"run", [{ name := "code" }], none⟩).slots.head? =
      some { name := "code" } := rfl
  exact parse_codeBlock {} first (by simp [Table.ofCommand]) rfl rfl rfl rfl fits

/-- A backtick alone closes the block at the pair in front of it. -/
theorem not_parse_codeBlock_lone :
    ¬ ∀ (command : Command) (slot : OptionDecl) (code : String),
      (Table.ofCommand command).configFor {} = {} →
      (Table.ofCommand command).slots.head? = some slot → slot.choices = [] → code ≠ "" →
      '\\' ∉ code.toList → ¬ fence <:+: code.toList → code.toList.head? ≠ some '\n' →
      (command.parse {} ("```\n" ++ code ++ "\n```") none).values.get? slot.name = some code := by
  intro always
  have early := always ⟨"run", [{ name := "code" }], none⟩ { name := "code" } "a``b`c" rfl rfl rfl
    (by decide) (by decide +kernel) (by decide +kernel) (by decide +kernel)
  have found : ((⟨"run", [{ name := "code" }], none⟩ : Command).parse {}
      ("```\n" ++ "a``b`c" ++ "\n```") none).values.get? "code" = some "a" := by
    decide +kernel
  rw [found] at early
  exact absurd early (by decide)

end Command

end ChatArgs
