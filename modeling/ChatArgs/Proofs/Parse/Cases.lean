import ChatArgs.Parse.Step

/-!
# What a token can do

The ways in which a value is given, text is placed and a token is read, each with the condition
under which it is the one that is taken. What holds in all of them holds of the function.
-/

namespace ChatArgs.Parse

open Text

namespace State

variable {ctx : Context} {s : State} {motive : State → Prop}

/-- Text may become a value: no last slot waits for all of it, and no option that takes all. -/
structure TakesText (ctx : Context) (s : State) : Prop where
  noLast : s.lastSlot = none
  single : ∀ named ∈ s.named, named.option.takesOneValue ctx.config.singleValue = true

theorem TakesText.noNamed (takes : TakesText ctx s) (noSingle : s.openSingle? ctx = none) :
    s.named = none := by
  cases opened : s.named with
  | none => rfl
  | some named => simp [openSingle?, opened, takes.single named opened] at noSingle

theorem openSingle?_eq_some {named : Named} :
    s.openSingle? ctx = some named ↔ s.named = some named ∧
      named.option.takesOneValue ctx.config.singleValue = true :=
  Option.filter_eq_some_iff

/-! ## Giving a value -/

@[elab_as_elim]
theorem take_cases {slot : Nat} (kept : motive s)
    (taken : s.taken[slot]? = some false →
      motive { s with taken := s.taken.set slot true, takenCount := s.takenCount + 1 }) :
    motive (s.take slot) := by
  unfold take
  split
  · rename_i free
    exact taken (by simpa using free)
  · exact kept

theorem take_frame (s : State) (slot : Nat) :
    s.take slot =
      { s with taken := (s.take slot).taken, takenCount := (s.take slot).takenCount } :=
  take_cases rfl fun _ => rfl

/-- Of a flag the name is noted, and any other option has a slot. -/
@[elab_as_elim]
theorem markFilled_cases {option : OptionDecl} (kept : motive s)
    (flag : option.flag = true → option.name ∉ s.filledFlags →
      motive { s with filledFlags := option.name :: s.filledFlags })
    (slot : ∀ slot, ctx.table.slotOf? option.name = some slot → motive (s.take slot)) :
    motive (s.markFilled ctx option) := by
  unfold markFilled
  split
  · rename_i isFlag
    split
    · exact kept
    · rename_i fresh
      exact flag isFlag fresh
  · split
    · rename_i found
      exact slot _ found
    · exact kept

theorem markFilled_frame (ctx : Context) (option : OptionDecl) (s : State) :
    s.markFilled ctx option =
      { s with
        taken := (s.markFilled ctx option).taken
        takenCount := (s.markFilled ctx option).takenCount
        filledFlags := (s.markFilled ctx option).filledFlags } := by
  refine markFilled_cases rfl (fun _ _ => rfl) fun slot _ => ?_
  rw [take_frame s slot]

theorem markFilled_setValue (ctx : Context) (option : OptionDecl) (s : State)
    (name value : String) (start stop : Nat) :
    (s.setValue name value start stop).markFilled ctx option =
      (s.markFilled ctx option).setValue name value start stop := by
  cases flag : option.flag with
  | true =>
      by_cases known : option.name ∈ s.filledFlags
      · simp [markFilled, setValue, flag, known]
      · simp [markFilled, setValue, flag, known]
  | false =>
      cases found : ctx.table.slotOf? option.name with
      | none => simp [markFilled, setValue, flag, found]
      | some slot =>
          by_cases free : s.taken[slot]? = some false
          · simp [markFilled, setValue, take, flag, found, free]
          · simp [markFilled, setValue, take, flag, found, free]

/-- Where the span of a value starts: in front of held text, if there is any. -/
inductive SpanFrom (s : State) (start : Cursor) : Nat → Prop
  | alone : s.held = none → SpanFrom s start start.offset
  | held {held : Held} : s.held = some held → SpanFrom s start held.start.offset

/-- The last slot behind a value: it opens with the only free slot, outside of long texts. -/
inductive LastSlotBehind (s : State) (long : Bool) (name : String) (start : Cursor)
    (spanStart : Nat) : Option LastSlot → Prop
  | same : LastSlotBehind s long name start spanStart s.lastSlot
  | opens (front : String) : s.remaining = 1 → long = false → s.longText = none →
      LastSlotBehind s long name start spanStart (some ⟨name, start, spanStart, front⟩)

/-- The next free slot takes a value, with held text in front of it. -/
@[elab_as_elim]
theorem fillSlot_cases {value : String} {start : Cursor} {stop : Nat} {long : Bool}
    (passed : motive s)
    (filled : ∀ slot option value spanStart lastSlot, s.freeSlot? = some slot →
      ctx.table.slots[slot]? = some option → SpanFrom s start spanStart →
      LastSlotBehind s long option.name start spanStart lastSlot →
      motive ((({ s with
          held := none
          lastSlot := lastSlot
          lastFilled := some option.name } : State).setValue option.name value spanStart
        stop).take slot)) :
    motive (s.fillSlot ctx value start stop long) := by
  unfold fillSlot
  split
  · exact passed
  · rename_i slot free
    split
    · exact passed
    · rename_i option declared
      extract_lets front spanStart lastSlot
      refine filled slot option _ spanStart lastSlot free declared ?_ ?_
      · unfold spanStart
        split
        · rename_i held holds
          exact .held holds
        · rename_i noHeld
          exact .alone noHeld
      · unfold lastSlot
        split
        · rename_i only
          simp only [Bool.and_eq_true, beq_iff_eq, Bool.not_eq_true',
            Option.isNone_iff_eq_none] at only
          exact .opens front only.1.1 only.1.2 only.2
        · exact .same

/-- A named option takes the text behind its marker, or, as a switch, the marker itself. -/
@[elab_as_elim]
theorem closeNamed_cases {stop : Nat} (passed : s.named = none → motive s)
    (closed : ∀ named value start stop', s.named = some named →
      start = named.start.offset ∧ stop' = stop ∨
        start = named.nameStart ∧ stop' = named.start.offset →
      motive (s.fillNamed ctx named value start stop')) :
    motive (s.closeNamed ctx stop) := by
  unfold closeNamed
  split
  · rename_i noNamed
    exact passed noNamed
  · rename_i named opened
    simp only
    split
    · rw [← markFilled_setValue]
      exact closed named _ _ _ opened (.inr ⟨rfl, rfl⟩)
    · rw [← markFilled_setValue]
      exact closed named _ _ _ opened (.inl ⟨rfl, rfl⟩)

@[elab_as_elim]
theorem closeLastSlot_cases {stop : Nat} {post : List Char} (passed : s.lastSlot = none → motive s)
    (closed : ∀ slot value, s.lastSlot = some slot →
      motive (({ s with lastSlot := none, lastSlotClosed := true } : State).setValue slot.name value
        slot.spanStart stop)) :
    motive (s.closeLastSlot ctx stop post) := by
  unfold closeLastSlot
  split
  · rename_i noLast
    exact passed noLast
  · rename_i slot opened
    exact closed slot _ opened

@[elab_as_elim]
theorem closeLongText_cases {stop : Nat} (passed : s.longText = none → motive s)
    (closed : ∀ long value, s.longText = some long →
      motive (({ s with longText := none, justClosed := true } : State).place ctx value long.body
        stop true)) :
    motive (s.closeLongText ctx stop) := by
  unfold closeLongText
  split
  · rename_i noLong
    exact passed noLong
  · rename_i long opened
    exact closed long _ opened

/-! ## Text -/

@[elab_as_elim]
theorem hold_cases {text : String} {start : Cursor}
    (longer : ∀ held, s.held = some held →
      motive { s with held := some { held with text := held.text ++ text } })
    (first : s.held = none → motive { s with held := some ⟨text, start⟩ }) :
    motive (s.hold text start) := by
  unfold hold
  split
  · rename_i held holds
    exact longer held holds
  · rename_i noHeld
    exact first noHeld

@[elab_as_elim]
theorem flushHeld_cases {stop : Nat} (passed : s.held = none → motive s)
    (placed : ∀ held, s.held = some held →
      motive (({ s with held := none } : State).place ctx held.text held.start stop false)) :
    motive (s.flushHeld ctx stop) := by
  unfold flushHeld
  split
  · rename_i held holds
    exact placed held holds
  · rename_i noHeld
    exact passed noHeld

/-- An option that takes one value takes it, or it goes to the next slot. Text held in front of a
long text goes to a slot of its own. -/
@[elab_as_elim]
theorem place_cases {value : String} {start : Cursor} {stop : Nat} {long : Bool}
    (named : ∀ named, s.openSingle? ctx = some named →
      motive (s.fillNamed ctx named value start.offset stop))
    (apart : ∀ held, s.openSingle? ctx = none → long = true → s.held = some held →
      motive ((({ s with held := none } : State).fillSlot ctx held.text held.start start.offset
        true).fillSlot ctx value start stop true))
    (slot : s.openSingle? ctx = none → (long = true → s.held = none) →
      motive (s.fillSlot ctx value start stop long)) :
    motive (s.place ctx value start stop long) := by
  unfold place
  split
  · rename_i opened
    exact named _ opened
  · rename_i noSingle
    split
    · rename_i held filled
      exact apart held noSingle rfl filled
    · rename_i alone
      refine slot noSingle fun isLong => ?_
      exact Option.eq_none_iff_forall_ne_some.2 fun held => alone held isLong

/-- Text between words is passed by an option, glued, held, or placed. -/
@[elab_as_elim]
theorem placeText_cases {text : String} {start : Cursor} {stop : Nat} {next : Option Char}
    {justClosed : Bool} (passed : s.named ≠ none → motive s)
    (glued : ∀ last, s.lastFilled = some last → s.named = none → s.held = none →
      justClosed = false → isVisible start.before = true → motive (s.append last text stop))
    (held : s.named = none → isVisible next = true →
      (s.held = none → justClosed = false → isVisible start.before = true →
        s.lastFilled = none) → motive (s.hold text start))
    (placed : s.named = none → isVisible next = false →
      (s.held = none → justClosed = false → isVisible start.before = true →
        s.lastFilled = none) → motive (s.place ctx text start stop false)) :
    motive (s.placeText ctx text start stop next justClosed) := by
  unfold placeText
  extract_lets isGlued
  split
  · rename_i opened
    exact passed (Option.isSome_iff_ne_none.1 opened)
  · rename_i closed
    have noNamed : s.named = none := by simpa using closed
    split
    · rename_i last joined filled
      simp only [isGlued, Bool.and_eq_true, Option.isNone_iff_eq_none, Bool.not_eq_true'] at joined
      exact glued last filled noNamed joined.1.1 joined.1.2 joined.2
    · rename_i apart
      have unfilled (noHeld : s.held = none) (opened : justClosed = false)
          (visible : isVisible start.before = true) : s.lastFilled = none := by
        refine Option.eq_none_iff_forall_ne_some.2 fun last => apart last ?_
        simp [isGlued, noHeld, opened, visible]
      split
      · rename_i visible
        exact held noNamed visible unfilled
      · rename_i hidden
        exact placed noNamed (by simpa using hidden) unfilled

@[elab_as_elim]
theorem onWord_cases {t : Token} {justClosed : Bool}
    (glued : ∀ last, s.lastFilled = some last → s.held = none → justClosed = false →
      motive (s.append last (String.ofList t.text) t.stop.offset))
    (placed : motive (s.place ctx (String.ofList t.text) t.start t.stop.offset false)) :
    motive (s.onWord ctx t justClosed) := by
  unfold onWord
  extract_lets text gap isGlued
  split
  · rename_i last joined filled
    simp only [isGlued, Bool.not_eq_true', Bool.or_eq_false_iff, Option.isSome_eq_false_iff,
      Option.isNone_iff_eq_none] at joined
    exact glued last filled joined.1.2 joined.1.1
  · exact placed

/-! ## Markers -/

/-- The families that may open options behind a marker: the first marker of an option decides, if
there may be only one. -/
inductive FamilyBehind (ctx : Context) (opening : Opening) (s : State) : Option Family → Prop
  | same : FamilyBehind ctx opening s s.family
  | first : ctx.config.oneFamily = true → s.family = none →
      FamilyBehind ctx opening s (some opening.family)

/-- In front of a marker its backslashes are placed, held text is, and what is open is closed; then
its option is open. What holds behind the first two parts is `first` and `second`. -/
@[elab_as_elim]
theorem openNamed_cases {t : Token} {escapes : Nat} {family : Family} {option : OptionDecl}
    {justClosed : Bool} (first second : State → Prop) (kept : first s)
    (placed : ∀ text, s.lastSlot = none → first (s.placeText ctx text t.start
      (t.start.offset + escapes) none justClosed))
    (busy : ∀ s, first s → s.named ≠ none ∨ s.lastSlot ≠ none → second s)
    (flushed : ∀ s, first s → s.named = none → s.lastSlot = none →
      second (s.flushHeld ctx t.start.offset))
    (opened : ∀ s stop post, second s →
      stop = t.start.offset ∨ stop = t.start.offset + escapes →
      motive { (s.closeNamed ctx stop).closeLastSlot ctx t.start.offset post with
        named := some ⟨option, t.stop, t.start.offset + escapes, family⟩ }) :
    motive (s.openNamed ctx t escapes family option justClosed) := by
  unfold openNamed
  extract_lets index text behindText behindHeld
  have placed' : first behindText := by
    unfold behindText
    split
    · rename_i free
      simp only [Bool.and_eq_true, Option.isNone_iff_eq_none] at free
      exact placed _ free.1
    · exact kept
  have flushed' : second behindHeld := by
    unfold behindHeld
    split
    · rename_i free
      simp only [Bool.and_eq_true, Option.isNone_iff_eq_none] at free
      exact flushed behindText placed' free.1 free.2
    · rename_i open'
      refine busy behindText placed' ?_
      simpa only [Bool.and_eq_true, Option.isNone_iff_eq_none, Classical.not_and_iff_not_or_not]
        using open'
  refine opened behindHeld _ text flushed' ?_
  split
  · exact .inl rfl
  · exact .inr rfl

/-- A marker is passed, it is text, or it opens an option. -/
@[elab_as_elim]
theorem onMarker_cases {t : Token} {escapes : Nat} {opening : Opening} {name : String}
    {justClosed : Bool}
    (passed : ∀ family, FamilyBehind ctx opening s family → s.lastSlot ≠ none →
      motive { s with family := family })
    (placed : ∀ family text, FamilyBehind ctx opening s family → s.lastSlot = none →
      motive (({ s with family := family } : State).placeText ctx text t.start t.stop.offset
        t.stop.after justClosed))
    (opened : ∀ family option, FamilyBehind ctx opening s family →
      ctx.table.option? name = some option →
      (ctx.config.oneFamily = true → family = some opening.family) →
      (∀ count, opening = .hyphens count → escapes % 2 ≠ 1) →
      motive (({ s with family := family } : State).openNamed ctx t escapes opening.family option
        justClosed)) :
    motive (s.onMarker ctx t escapes opening name justClosed) := by
  have literal : motive (s.literalMarker ctx t justClosed) := by
    unfold literalMarker
    split
    · rename_i last
      exact passed s.family .same (Option.isSome_iff_ne_none.1 last)
    · rename_i noLast
      exact placed s.family _ .same (by simpa using noLast)
  have declared {family : Option Family} (behind : FamilyBehind ctx opening s family)
      {option : OptionDecl} (known : ctx.table.option? name = some option)
      (decided : ctx.config.oneFamily = true → family = some opening.family) :
      motive (({ s with family := family } : State).declaredMarker ctx t escapes opening option
        name justClosed) := by
    unfold declaredMarker
    split
    · split
      · split
        · rename_i noLast
          exact placed family _ behind (by simpa using noLast)
        · rename_i last
          exact passed family behind (by simpa using last)
      · rename_i even
        exact opened family option behind known decided fun _ _ => by simpa using even
    · exact opened family option behind known decided (by simp)
  unfold onMarker
  split
  · exact literal
  · rename_i option known
    split
    · rename_i oneFamily
      split
      · rename_i undecided
        exact declared (.first oneFamily undecided) known fun _ => rfl
      · rename_i family decided
        split
        · rename_i same
          exact declared .same known fun _ => by rw [decided, eq_of_beq same]
        · exact literal
    · rename_i anyFamily
      exact declared .same known fun oneFamily => absurd oneFamily anyFamily

/-! ## Backslashes -/

/-- A run of backslashes may be noted as an escape, and outside of long texts the backslashes that
escape nothing are text. There only a single one that escapes the delimiter behind it is none. -/
@[elab_as_elim]
theorem onBackslashes_cases {t : Token} {count : Nat} {justClosed : Bool}
    (passed : ∀ escape, escape = s.escape ∨ escape = some (t.start, t.stop.offset) →
      (s.longText = none → count = 0 ∨ count = 1 ∧
        ctx.patterns.delimiters.escapesNext s.family t.stop.after = true ∧
        escape = some (t.start, t.stop.offset)) →
      motive { s with escape := escape })
    (placed : ∀ escape text, escape = s.escape ∨ escape = some (t.start, t.stop.offset) →
      s.longText = none →
      motive (({ s with escape := escape } : State).placeText ctx text t.start t.stop.offset
        t.stop.after justClosed)) :
    motive (s.onBackslashes ctx t count justClosed) := by
  unfold onBackslashes
  extract_lets next counts isQuote odd escaping noted kept
  let escape := if escaping then some (t.start, t.stop.offset) else s.escape
  have escape' : escape = s.escape ∨ escape = some (t.start, t.stop.offset) := by
    unfold escape
    split
    · exact .inr rfl
    · exact .inl rfl
  have noted' : noted = { s with escape := escape } := by
    unfold noted escape
    split <;> rfl
  split
  · rename_i inside
    refine passed s.escape (.inl rfl) fun noLong => ?_
    simp [counts, noLong] at inside
  · rw [noted']
    split
    · rename_i long
      refine passed escape escape' fun noLong => ?_
      simp [noLong] at long
    · rename_i noLong
      have noLong : s.longText = none := by simpa using noLong
      split
      · rename_i nothing
        refine passed escape escape' fun _ => ?_
        simp only [kept, backslashes, List.isEmpty_iff, List.replicate_eq_nil_iff] at nothing
        cases chosen : escaping with
        | false =>
            refine .inl ?_
            simp only [chosen, Bool.not_false, Bool.and_true, odd, beq_iff_eq] at nothing
            split at nothing <;> omega
        | true =>
            have taken := chosen
            simp only [escaping, odd, Bool.and_eq_true, beq_iff_eq] at taken
            simp only [chosen, Bool.not_true, Bool.and_false, Bool.false_eq_true,
              if_false] at nothing
            refine .inr ⟨by omega, taken.2, ?_⟩
            simp [escape, chosen]
      · exact placed escape _ escape' noLong

/-! ## Quotes and delimiters -/

/-- What a quote notes: the long text that it opens, that it is one of the quotes that opened it, or
that it may close it together with the quote behind it. -/
inductive Notes (t : Token) (quote : Quote) : Option LongText → LongText → Prop
  | opens : Notes t quote none ⟨quote, t.stop.offset, t.stop, none⟩
  | again {long : LongText} : long.quote = quote → long.body.offset = t.start.offset →
      Notes t quote (some long) { long with body := t.stop }
  | starts {long : LongText} : long.quote = quote → long.body.offset ≠ t.start.offset →
      t.stop.after = some quote.char →
      Notes t quote (some long) { long with closing := some ⟨t.start, t.start.offset⟩ }
  | goesOn {long : LongText} {run : ClosingRun} : long.quote = quote →
      long.body.offset ≠ t.start.offset → long.closing = some run →
      Notes t quote (some long) { long with closing := some { run with last := t.start.offset } }

/-- A quote is noted, it is a part of a long text, or it closes a long text or a code block. -/
@[elab_as_elim]
theorem onQuote_cases {t : Token} {quote : Quote}
    (noted : ∀ long, Notes t quote s.longText long → motive { s with longText := some long })
    (passed : s.longText ≠ none → motive s)
    (closed : ∀ long stop, s.longText = some long →
      (stop = t.start.offset ∨ ∃ run, long.closing = some run ∧ stop = run.first.offset) →
      motive (s.closeLongText ctx stop))
    (block : ∀ long run, s.longText = some long → long.quote = .backtick →
      long.body.offset - long.start = 2 → long.closing = some run →
      2 ≤ t.start.offset - run.first.offset → motive (s.closeCodeBlock ctx long run.first)) :
    motive (s.onQuote ctx t quote) := by
  unfold onQuote
  split
  · rename_i noLong
    exact noted _ (noLong ▸ .opens)
  · rename_i long opened
    have long' : s.longText ≠ none := by simp [opened]
    split
    · rename_i same
      have same : long.quote = quote := by simpa using same
      unfold onSameQuote
      extract_lets index again isCodeBlock
      split
      · rename_i here
        exact noted _ (opened ▸ .again same (by simpa using here))
      · rename_i behind
        have behind : long.body.offset ≠ t.start.offset := by simpa using behind
        have starts (twice : again = true) :
            motive { s with longText := some { long with closing := some ⟨t.start, index⟩ } } :=
          noted _ (opened ▸ .starts same behind (by simpa [again, same] using twice))
        split
        · rename_i twice run
          split
          · exact noted _ (opened ▸ .goesOn same behind run)
          · exact starts twice
        · rename_i twice _
          exact starts twice
        · split
          · rename_i run _ known
            exact closed long _ opened (.inr ⟨run, known, rfl⟩)
          · exact closed long _ opened (.inl rfl)
          · exact passed long'
          · rename_i run isBlock known
            simp only [isCodeBlock, Bool.and_eq_true, beq_iff_eq] at isBlock
            split
            · exact passed long'
            · rename_i far
              exact block long run opened isBlock.1 isBlock.2 known (Nat.le_of_not_lt far)
    · exact passed long'

/-- A delimiter is a part of a long text, it is text or a value, or it is read as a quote. A run of
backslashes in front of it belongs to it. -/
@[elab_as_elim]
theorem onDelimiter_cases {t : Token} {c : Char} {justClosed : Bool}
    (passed : s.longText ≠ none → motive { s with escape := none })
    (escaped : ∀ start, s.longText = none → s.escape = some (start, t.start.offset) →
      motive (({ s with escape := none } : State).placeText ctx (String.ofList [c]) start
        t.stop.offset t.stop.after justClosed))
    (text : s.longText = none → (∀ start, s.escape ≠ some (start, t.start.offset)) →
      motive (({ s with escape := none } : State).placeText ctx (String.ofList [c]) t.start
        t.stop.offset t.stop.after justClosed))
    (value : s.longText = none → ctx.config.plainLast ≠ none →
      motive (({ s with escape := none } : State).place ctx (String.ofList [c]) t.start
        t.stop.offset false))
    (quoted : ∀ quote, Quote.ofChar? c = some quote →
      motive (({ s with escape := none } : State).onQuote ctx t quote)) :
    motive (s.onDelimiter ctx t c justClosed) := by
  unfold onDelimiter
  split
  · rename_i start stop found
    obtain ⟨escape, here⟩ := Option.filter_eq_some_iff.1 found
    obtain rfl : stop = t.start.offset := by simpa using here
    simp only
    split
    · rename_i noLong
      exact escaped start (by simpa using noLong) escape
    · rename_i long
      exact passed (by simpa using long)
  · rename_i found
    have unescaped (start : Cursor) : s.escape ≠ some (start, t.start.offset) := by
      intro escape
      simp [escape, Option.filter] at found
    unfold onBareDelimiter
    split
    · rename_i isValue
      unfold delimiterIsValue at isValue
      split at isValue
      · rename_i plain plainLast
        simp only [Bool.and_eq_true, Option.isNone_iff_eq_none] at isValue
        exact value isValue.1.2 (by simp [plainLast])
      · contradiction
    · split
      · split
        · rename_i noLong
          exact text (by simpa using noLong) unescaped
        · rename_i long
          exact passed (by simpa using long)
      · rename_i quote isQuote
        exact quoted quote isQuote

/-! ## Tokens -/

/-- A token that opens no option closes an option at the end of a line, is passed, or is read
where text may become a value. -/
@[elab_as_elim]
theorem onOther_cases {t : Token} {justClosed : Bool}
    (line : ∀ named, s.openSingle? ctx = some named →
      motive (s.closeNamed ctx named.start.offset))
    (passed : s.lastSlot ≠ none ∨ s.named ≠ none ∨ s.longText ≠ none ∨ t.kind = .lineFeeds ∨
      (∃ escapes opening name, t.kind = .marker escapes opening name) → motive s)
    (backslashes : ∀ count, t.kind = .backslashes count → TakesText ctx s →
      motive (s.onBackslashes ctx t count justClosed))
    (delimiter : ∀ c, t.kind = .delimiter c → TakesText ctx s →
      motive (s.onDelimiter ctx t c justClosed))
    (word : t.kind = .word → TakesText ctx s → s.longText = none →
      motive (s.onWord ctx t justClosed)) :
    motive (s.onOther ctx t justClosed) := by
  unfold onOther
  extract_lets single atLine
  have ofSingle (isSingle : single = true) : ∃ named, s.openSingle? ctx = some named :=
    Option.isSome_iff_exists.1 isSingle
  split
  · rename_i named atEnd opened
    simp only [atLine, Bool.and_eq_true] at atEnd
    obtain ⟨named', found⟩ := ofSingle atEnd.1.1.1
    obtain rfl := Option.some.inj ((openSingle?_eq_some.1 found).1.symm.trans opened)
    exact line _ found
  · split
    · rename_i waiting
      simp only [Bool.or_eq_true, Bool.and_eq_true, Option.isSome_iff_ne_none] at waiting
      exact passed (waiting.imp_right fun named => .inl named.1)
    · rename_i reading
      simp only [Bool.or_eq_true, Bool.and_eq_true, Bool.not_eq_true', not_or, not_and,
        Bool.not_eq_false, Option.not_isSome_iff_eq_none] at reading
      have takes : TakesText ctx s := by
        refine ⟨reading.1, fun named opened => ?_⟩
        obtain ⟨named', found⟩ := ofSingle (reading.2 (Option.isSome_iff_exists.2 ⟨named, opened⟩))
        obtain ⟨opened', takesOne⟩ := openSingle?_eq_some.1 found
        obtain rfl := Option.some.inj (opened'.symm.trans opened)
        exact takesOne
      cases kind : t.kind with
      | marker escapes opening name =>
          exact passed (.inr (.inr (.inr (.inr ⟨escapes, opening, name, kind⟩))))
      | delimiter c => exact delimiter c kind takes
      | backslashes count => exact backslashes count kind takes
      | lineFeeds => exact passed (.inr (.inr (.inr (.inl kind))))
      | word =>
          simp only
          split
          · rename_i noSlot
            rw [Bool.and_eq_true] at noSlot
            obtain ⟨named, found⟩ := ofSingle noSlot.1
            have opened := (openSingle?_eq_some.1 found).1
            exact passed (.inr (.inl (by simp [opened])))
          · split
            · rename_i noLong
              exact word kind takes (by simpa using noLong)
            · rename_i long
              exact passed (.inr (.inr (.inl (by simpa using long))))

@[elab_as_elim]
theorem step_cases {t : Token}
    (marker : ∀ escapes opening name, t.kind = .marker escapes opening name → s.longText = none →
      motive (({ s with justClosed := false } : State).onMarker ctx t escapes opening name
        s.justClosed))
    (other : (s.longText = none → ∀ escapes opening name, t.kind ≠ .marker escapes opening name) →
      motive (({ s with justClosed := false } : State).onOther ctx t s.justClosed)) :
    motive (s.step ctx t) := by
  unfold step
  extract_lets justClosed quiet
  split
  · rename_i escapes opening name kind noLong
    exact marker escapes opening name kind noLong
  · rename_i noMarker
    exact other fun noLong escapes opening name kind => noMarker escapes opening name kind noLong

end State

end ChatArgs.Parse
