import ChatArgs.Proofs.Parse.HeldText

/-!
# Text that is lost

Held text becomes the front of a value as long as a slot is free, with one exception: where a
backslash stands alone directly behind it, and only such backslashes and ends of lines follow, it
is still held when the text ends, and no value has it.
-/

namespace ChatArgs.Parse

open Text

theorem backslashes_of_mem_tokensAt {d : Delimiters} {c : Cursor} {t : Token}
    (member : t ∈ tokensAt d c) {count : Nat} (kind : t.kind = .backslashes count) :
    0 < count ∧ d.isActive = true := by
  induction c using tokensAt_induction d with
  | finish c ends => simp [tokensAt_end ends] at member
  | skip c x rest split _ none ih =>
      rw [tokensAt_skip split none] at member
      exact ih member
  | token c kind' text rest split front found ih =>
      rw [tokensAt_token split found] at member
      rcases List.mem_cons.1 member with rfl | later
      · obtain rfl : kind' = .backslashes count := kind
        cases front with
        | backslashes positive active _ _ => exact ⟨positive, active⟩
      · exact ih later

namespace State

variable {ctx : Context} {s s' : State}

/-! ## One step -/

structure Steady (ctx : Context) (s : State) : Prop where
  slots : s.taken.length = ctx.table.slots.length
  alone : HoldsAlone s

theorem started_steady (ctx : Context) (message : Option Message) :
    Steady ctx (started ctx message) :=
  ⟨started_slots ctx message, fun holds => absurd (started_untouched ctx message).held holds⟩

theorem step_slots (ctx : Context) (s : State) (t : Token) :
    (s.step ctx t).taken.length = s.taken.length := by
  refine step_cases ?marker ?other
  case marker => exact fun _ _ _ _ _ => (keeps_onMarker ..).slots
  case other => exact fun _ => (writes_onOther ..).opensNothing.slots

theorem Steady.step (steady : Steady ctx s) {t : Token}
    (positive : ∀ count, t.kind = .backslashes count → 0 < count) :
    Steady ctx (s.step ctx t) := by
  refine ⟨(step_slots ctx s t).trans steady.slots, ?_⟩
  rcases step_treatsHeld steady.slots steady.alone positive with treats | passes
  · exact treats.alone
  · intro holds
    rw [passes.held] at holds
    exact ⟨passes.named.trans (steady.alone holds).1, passes.lastSlot.trans (steady.alone holds).2⟩

/-- A token that leaves held text does so wherever text is held and no long text is open. -/
theorem step_of_leavesHeld (steady : Steady ctx s) (holds : s.held ≠ none)
    (noLong : s.longText = none) {t : Token} (leaves : t.leavesHeld = true)
    (active : ∀ count, t.kind = .backslashes count → ctx.patterns.delimiters.isActive = true) :
    (s.step ctx t).held = s.held ∧ (s.step ctx t).longText = none := by
  obtain ⟨noNamed, noLast⟩ := steady.alone holds
  simp only [Token.leavesHeld, Token.isLoneEscape, Bool.or_eq_true, Bool.and_eq_true,
    beq_iff_eq] at leaves
  rcases leaves with lineFeeds | ⟨lone, blank⟩
  · simp [step, onOther, openSingle?, lineFeeds, noNamed, noLast, noLong]
  · have escaping := escapesNext_of_blank (active 1 lone) s.family blank
    have noQuote : (t.stop.after.bind Quote.ofChar?).isSome = false := by
      cases after : t.stop.after with
      | none => rfl
      | some c =>
          have blank' : isBlank c = true := by simpa [after] using blank
          cases found : Quote.ofChar? c with
          | none => simp [found]
          | some quote =>
              obtain rfl := Quote.char_of_ofChar? found
              cases quote <;> exact absurd blank' (by decide)
    simp [step, onOther, openSingle?, onBackslashes, lone, noNamed, noLast, noLong, escaping,
      noQuote, backslashes]

/-! ## Where held text ends up -/

def StartsValue (ctx : Context) (start : Nat) (s : State) : Prop :=
  ∃ option ∈ ctx.table.slots, ∃ span,
    s.spans.get? option.name = some span ∧ span.start = start

/-- Text that the first state holds is held by the second one, at most with more text behind it,
or it is the front of a value, unless no slot is free. -/
def KeepsHeld (ctx : Context) (s s' : State) : Prop :=
  ∀ held, s.held = some held → s'.freeSlot? ≠ none →
    (∃ later, s'.held = some later ∧ held.Continues later) ∨ StartsValue ctx held.start.offset s'

theorem Placed.startsValue {start : Nat} (placed : Placed ctx start s) :
    StartsValue ctx start s := by
  obtain ⟨slot, option, span, found, -, known, starts, -⟩ := placed
  exact ⟨option, List.mem_of_getElem? found, span, known, starts⟩

theorem TreatsHeld.keepsHeld {reason : State → Prop} (treats : TreatsHeld ctx s.held reason s')
    (distinct : (ctx.table.slots.map (·.name)).Nodup) : KeepsHeld ctx s s' := by
  intro held holds free
  cases treats with
  | given _ placed => exact .inr (placed held holds free distinct).startsValue
  | waiting later waits _ _ continues _ => exact .inl ⟨later, waits, continues held holds⟩

theorem step_keepsHeld (distinct : (ctx.table.slots.map (·.name)).Nodup) (steady : Steady ctx s)
    {t : Token} (positive : ∀ count, t.kind = .backslashes count → 0 < count) :
    KeepsHeld ctx s (s.step ctx t) := by
  rcases step_treatsHeld steady.slots steady.alone positive with treats | passes
  · exact treats.keepsHeld distinct
  · exact fun held holds _ => .inl ⟨held, passes.held.trans holds, .refl held⟩

theorem closeAll_held (noHeld : s.held = none) : (s.closeAll ctx).held = none := by
  unfold closeAll closeLongText
  simp only
  split
  · rw [closeNamed_frame, closeLastSlot_frame]
    exact noHeld
  · apply place_held
    simp only
    rw [closeNamed_frame, closeLastSlot_frame]
    exact noHeld

/-- At the end of the text a long text takes held text along, or there is no slot for it. -/
theorem closeAll_treatsHeld (steady : Steady ctx s) :
    TreatsHeld ctx s.held (fun s' => s'.freeSlot? = none ∨ s.longText = none)
      (s.closeAll ctx) := by
  by_cases noHeld : s.held = none
  · exact .of_none noHeld (closeAll_held noHeld)
  · obtain ⟨noNamed, noLast⟩ := steady.alone noHeld
    rw [closeAll_of_alone noLast noNamed]
    cases long : s.longText with
    | none =>
        have same : s.closeLongText ctx ctx.length = s := by simp [closeLongText, long]
        rw [same]
        exact .same steady.alone rfl rfl rfl fun _ => .inr rfl
    | some opened =>
        refine (closeLongText_treatsHeld steady.slots steady.alone none long _).mono ?_
        rintro (visible | again | full)
        · contradiction
        · simp only [closeLongText, long] at again
          rw [(puts_place ..).keeps.longText] at again
          contradiction
        · exact .inl full

/-- If a slot is free, text is held behind the end just where it was held in front of it outside
of long texts. -/
theorem closeAll_held_iff (steady : Steady ctx s) (free : (s.closeAll ctx).freeSlot? ≠ none) :
    (s.closeAll ctx).held ≠ none ↔ s.held ≠ none ∧ s.longText = none := by
  constructor
  · intro holds
    refine ⟨fun noHeld => holds (closeAll_held noHeld), ?_⟩
    cases closeAll_treatsHeld steady with
    | given noHeld _ => exact absurd noHeld holds
    | waiting _ _ _ _ _ why => exact why.resolve_left free
  · rintro ⟨holds, noLong⟩
    obtain ⟨noNamed, noLast⟩ := steady.alone holds
    rwa [closeAll_of_closed noLast noNamed noLong]

/-! ## A whole parse -/

/-- Text is held behind a step, directly behind its token a backslash stands alone, and all tokens
that follow leave held text where it is. -/
def Strands (trs : List Transition) : Prop :=
  ∃ front tr lone back, trs = front ++ tr :: lone :: back ∧
    tr.after.held ≠ none ∧ tr.after.longText = none ∧
      lone.token.start = tr.token.stop ∧ lone.token.isLoneEscape = true ∧
        ∀ later ∈ back, later.token.leavesHeld = true

/-- Why text may be held behind some steps, at the place `c`. -/
inductive HoldsFor (c : Cursor) (trs : List Transition) (s : State) : Prop
  | next (front : List Transition) (tr : Transition) : trs = front ++ [tr] →
      tr.token.stop = c → tr.after = s → isVisible c.after = true → HoldsFor c trs s
  | long : s.longText ≠ none → HoldsFor c trs s
  | full : s.freeSlot? = none → HoldsFor c trs s
  | stranded : Strands trs → HoldsFor c trs s

theorem isLoneEscape_of_visible {kind : TokenKind} {c : Cursor} {text rest : List Char}
    (split : c.rest = text ++ rest) (front : TokenFront ctx.patterns.delimiters kind text rest)
    (visible : isVisible c.after = true)
    (leaves : (Token.reading kind c text rest).leavesHeld = true) :
    (Token.reading kind c text rest).isLoneEscape = true := by
  rw [Token.leavesHeld, Bool.or_eq_true, beq_iff_eq] at leaves
  refine leaves.resolve_left fun lineFeeds => ?_
  obtain rfl : kind = .lineFeeds := lineFeeds
  cases text with
  | nil => exact front.ne_nil rfl
  | cons x text =>
      obtain rfl := front.lineFeed_of_mem List.mem_cons_self
      have gap : isGap '\n' = true := by decide
      simp [Cursor.after, split, isVisible, gap] at visible

theorem HoldsFor.step {kind : TokenKind} {c : Cursor} {text rest : List Char}
    {trs : List Transition} (split : c.rest = text ++ rest)
    (front : TokenFront ctx.patterns.delimiters kind text rest) (steady : Steady ctx s)
    (why : s.held ≠ none → HoldsFor c trs s) :
    let t := Token.reading kind c text rest
    (s.step ctx t).held ≠ none →
      HoldsFor (c.past text rest) (trs ++ [⟨s, t, s.step ctx t⟩]) (s.step ctx t) := by
  intro t holds
  let last : Transition := ⟨s, t, s.step ctx t⟩
  have positive (count : Nat) (run : t.kind = .backslashes count) : 0 < count := by
    obtain rfl : kind = .backslashes count := run
    exact front.backslashes_inv.1
  rcases step_treatsHeld steady.slots steady.alone positive with treats | passes
  · cases treats with
    | given noHeld _ => exact absurd noHeld holds
    | waiting later _ _ _ _ reason =>
        rcases reason with visible | long | full
        · exact .next trs _ rfl rfl rfl visible
        · exact .long long
        · exact .full full
  · rw [passes.held] at holds
    cases why holds with
    | next front' tr steps stops same visible =>
        cases long : s.longText with
        | some opened => exact .long (by simp [passes.longText, long])
        | none =>
            have isLone := isLoneEscape_of_visible split front visible passes.leavesHeld
            refine .stranded ⟨front', tr, last, [], ?_, by rwa [same], by rw [same, long],
              stops.symm, isLone, by simp⟩
            rw [steps, List.append_assoc]
            rfl
    | long opened => exact .long (by rwa [passes.longText])
    | full noSlot =>
        refine .full ?_
        rw [freeSlot?, passes.taken]
        exact noSlot
    | stranded strands =>
        obtain ⟨front', tr, lone, back, steps, holds', noLong, next, isLone, leave⟩ := strands
        refine .stranded ⟨front', tr, lone, back ++ [last], ?_, holds', noLong, next, isLone, ?_⟩
        · rw [steps, List.append_assoc]
          rfl
        · exact List.forall_mem_append.2 ⟨leave, List.forall_mem_singleton.2 passes.leavesHeld⟩

/-- Where all tokens are read, held text is stranded, or a long text is open, or no slot is free. -/
theorem strands_of_held {c : Cursor} {trs : List Transition} (steady : Steady ctx s)
    (reads : (s.transitions ctx (tokensAt ctx.patterns.delimiters c)).map (·.token) =
      tokensAt ctx.patterns.delimiters c) (why : s.held ≠ none → HoldsFor c trs s) :
    let steps := s.transitions ctx (tokensAt ctx.patterns.delimiters c)
    (s.behind steps).held ≠ none → (s.behind steps).longText = none →
      (s.behind steps).freeSlot? ≠ none → Strands (trs ++ steps) := by
  -- The steps made so far are kept in `trs`: what is stranded was held by the last of them.
  induction c using tokensAt_induction ctx.patterns.delimiters generalizing s trs with
  | finish c ends =>
      rw [tokensAt_end ends]
      intro steps holds noLong free
      cases why holds with
      | next _ _ _ _ _ visible => simp [Cursor.after, ends, isVisible] at visible
      | long opened => exact absurd noLong opened
      | full noSlot => exact absurd noSlot free
      | stranded strands => simpa [steps, transitions] using strands
  | skip c x rest split gap none ih =>
      rw [tokensAt_skip split none] at reads ⊢
      refine ih steady reads fun holds => ?_
      cases why holds with
      | next _ _ _ _ _ visible => simp [Cursor.after, split, isVisible, gap] at visible
      | long opened => exact .long opened
      | full noSlot => exact .full noSlot
      | stranded strands => exact .stranded strands
  | token c kind text rest split front found ih =>
      have positive (count : Nat) (run : kind = .backslashes count) : 0 < count := by
        subst run
        exact front.backslashes_inv.1
      rw [tokensAt_token split found] at reads ⊢
      rw [transitions] at reads ⊢
      split at reads
      · simp at reads
      · rename_i goesOn
        rw [if_neg goesOn]
        have later := ih (steady.step (t := .reading kind c text rest) positive)
          (List.cons.inj reads).2 (HoldsFor.step split front steady why)
        simpa using later

theorem behind_of_leavesHeld (steady : Steady ctx s) (holds : s.held ≠ none)
    (noLong : s.longText = none) {ts : List Token}
    (known : ∀ t ∈ ts, ∀ count, t.kind = .backslashes count →
      0 < count ∧ ctx.patterns.delimiters.isActive = true)
    (leaves : ∀ tr ∈ s.transitions ctx ts, tr.token.leavesHeld = true) :
    (s.behind (s.transitions ctx ts)).held ≠ none ∧
      (s.behind (s.transitions ctx ts)).longText = none := by
  induction ts generalizing s with
  | nil => exact ⟨holds, noLong⟩
  | cons t ts ih =>
      rw [transitions] at leaves ⊢
      split
      · exact ⟨holds, noLong⟩
      · rename_i goesOn
        rw [if_neg goesOn, List.forall_mem_cons] at leaves
        obtain ⟨first, others⟩ := List.forall_mem_cons.1 known
        obtain ⟨held, noLong'⟩ := step_of_leavesHeld steady holds noLong leaves.1
          fun count kind => (first count kind).2
        exact ih (steady.step fun count kind => (first count kind).1) (by rwa [held]) noLong'
          others leaves.2

/-- Text that is stranded is still held behind the last step. -/
theorem held_of_strands (steady : Steady ctx s) {c : Cursor}
    (strands : Strands (s.transitions ctx (tokensAt ctx.patterns.delimiters c))) :
    (s.behind (s.transitions ctx (tokensAt ctx.patterns.delimiters c))).held ≠ none ∧
      (s.behind (s.transitions ctx (tokensAt ctx.patterns.delimiters c))).longText = none := by
  obtain ⟨front, tr, lone, back, steps, holds, noLong, -, isLone, leave⟩ := strands
  have known (t : Token) (member : t ∈ tokensAt ctx.patterns.delimiters c) (count : Nat)
      (kind : t.kind = .backslashes count) := backslashes_of_mem_tokensAt member kind
  obtain ⟨member, before, after⟩ := forall_transitions steady
    (fun t member s steady => steady.step fun count kind => (known t member count kind).1) tr
    (by rw [steps]; simp)
  have steady' : Steady ctx tr.after :=
    after ▸ before.step fun count kind => (known _ member count kind).1
  obtain ⟨ts, suffix, rest⟩ := @transitions_eq_append ctx s _ (front ++ [tr]) (lone :: back)
    (by simpa using steps)
  rw [behind_concat] at rest
  have split : s.behind (front ++ tr :: lone :: back) = tr.after.behind (lone :: back) := by
    rw [behind_append, behind_cons]
  rw [steps, split, rest]
  refine behind_of_leavesHeld steady' holds noLong
    (fun t inside => known t (suffix.mem inside)) ?_
  rw [← rest]
  exact List.forall_mem_cons.2 ⟨by simp [Token.leavesHeld, isLone], leave⟩

theorem runTransitions_of_reads {message : Option Message}
    (reads : (runTransitions ctx message).map (·.token) =
      tokensAt ctx.patterns.delimiters (Cursor.start ctx.content)) :
    runTransitions ctx message = (started ctx message).transitions ctx
      (tokensAt ctx.patterns.delimiters (Cursor.start ctx.content)) := by
  unfold runTransitions at reads ⊢
  split
  · rename_i filled
    rw [if_pos filled] at reads
    rw [← reads]
    rfl
  · rfl

theorem Steady.step_of_mem {t : Token} {c : Cursor}
    (member : t ∈ tokensAt ctx.patterns.delimiters c) (steady : Steady ctx s) :
    Steady ctx (s.step ctx t) :=
  steady.step fun _ kind => (backslashes_of_mem_tokensAt member kind).1

/-- No step of a parse drops held text while a slot is free, nor does its end. -/
theorem run_keepsHeld (message : Option Message)
    (distinct : (ctx.table.slots.map (·.name)).Nodup) :
    (∀ tr ∈ runTransitions ctx message, KeepsHeld ctx tr.before tr.after) ∧
      KeepsHeld ctx ((started ctx message).behind (runTransitions ctx message))
        (run ctx message) := by
  constructor
  · intro tr member
    obtain ⟨inside, before, after⟩ := forall_runTransitions (started_steady ctx message)
      (fun t member s steady => steady.step_of_mem member) tr member
    rw [after]
    exact step_keepsHeld distinct before fun _ kind => (backslashes_of_mem_tokensAt inside kind).1
  · rw [run_eq_closeAll]
    exact (closeAll_treatsHeld (behind_runTransitions (started_steady ctx message)
      fun t member s steady => steady.step_of_mem member)).keepsHeld distinct

/-- As long as a slot is free, no step drops held text: it is held on, or it is the front of a
value. At the end of the text it is still held just where a backslash stands alone behind it and
no later token takes it along. -/
theorem run_held_iff (ctx : Context) (message : Option Message)
    (reads : (runTransitions ctx message).map (·.token) =
      tokensAt ctx.patterns.delimiters (Cursor.start ctx.content))
    (free : (run ctx message).freeSlot? ≠ none) :
    ((run ctx message).held ≠ none ↔ Strands (runTransitions ctx message)) ∧
      ((ctx.table.slots.map (·.name)).Nodup →
        (∀ tr ∈ runTransitions ctx message, KeepsHeld ctx tr.before tr.after) ∧
          KeepsHeld ctx ((started ctx message).behind (runTransitions ctx message))
            (run ctx message)) := by
  refine ⟨?_, run_keepsHeld message⟩
  have steady := behind_runTransitions (started_steady ctx message)
    fun t member s steady => steady.step_of_mem member
  have same := runTransitions_of_reads reads
  rw [run_eq_closeAll] at free ⊢
  refine (closeAll_held_iff steady free).trans ⟨?_, fun strands => ?_⟩
  · rintro ⟨holds, noLong⟩
    obtain ⟨noNamed, noLast⟩ := steady.alone holds
    rw [closeAll_of_closed noLast noNamed noLong] at free
    rw [same] at reads holds noLong free ⊢
    have untouched : (started ctx message).held ≠ none → HoldsFor (Cursor.start ctx.content) []
        (started ctx message) := fun holds =>
      absurd (started_untouched ctx message).held holds
    exact strands_of_held (started_steady ctx message) reads untouched holds noLong free
  · rw [same] at strands ⊢
    exact held_of_strands (started_steady ctx message) strands

/-- A hyphen with a backslash behind it: the hyphen is held, and the parse ends. -/
theorem run_held_iff_backslash :
    let ctx : Context := ⟨['-', '\\'], .ofCommand ⟨"say", [{ name := "x" }], none⟩, {}, ⟨{}⟩⟩
    ((runTransitions ctx none).map (·.token) =
        tokensAt ctx.patterns.delimiters (Cursor.start ctx.content) ∧
      (run ctx none).freeSlot? ≠ none) ∧
    Strands (runTransitions ctx none) ∧
      (∀ tr ∈ runTransitions ctx none, KeepsHeld ctx tr.before tr.after) ∧
        KeepsHeld ctx ((started ctx none).behind (runTransitions ctx none)) (run ctx none) := by
  intro ctx
  have reads : (runTransitions ctx none).map (·.token) =
      tokensAt ctx.patterns.delimiters (Cursor.start ctx.content) := by decide +kernel
  have free : (run ctx none).freeSlot? ≠ none := by decide +kernel
  obtain ⟨strands, keeps⟩ := run_held_iff ctx none reads free
  exact ⟨⟨reads, free⟩, strands.1 (by decide +kernel), keeps (by decide +kernel)⟩

/-- Text may still be held at the end although a slot is free. -/
theorem not_run_unheld :
    ¬ ∀ (ctx : Context) (message : Option Message),
      (runTransitions ctx message).map (·.token) =
        tokensAt ctx.patterns.delimiters (Cursor.start ctx.content) →
      (run ctx message).freeSlot? ≠ none → (run ctx message).held = none := by
  intro always
  have unheld := always
    ⟨['-', '\\'], .ofCommand ⟨"say", [{ name := "x" }], none⟩, {}, ⟨{}⟩⟩ none
    (by decide +kernel) (by decide +kernel)
  exact absurd unheld (by decide +kernel)

end State

end ChatArgs.Parse
