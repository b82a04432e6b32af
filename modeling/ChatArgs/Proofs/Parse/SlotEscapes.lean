import ChatArgs.Proofs.Parse.KeptText
import ChatArgs.Proofs.Parse.PlainRun

/-!
# Escapes in the first slot and in the last one

A slot in front of the last one takes its value token by token; the last slot takes the text from
the first token that it is given on, and unescapes it at once. So a second slot changes what the
first one takes from the same text, unless its tokens are read alike: `readsAlike`. Neither differs
in what is held in front of the value, so that the tokens in front of it count only where the text
ends with them.
-/

namespace ChatArgs

namespace Parse

open Text

/-- A text without blanks that is cut into these tokens is read alike in the last slot and in front
of it: from the first word on all tokens are, or the last token is when the value begins with it.
The number is how many backslashes escape the first token. -/
def readsAlike (d : Delimiters) : Nat → List Token → Bool
  | _, [] => true
  | run, t :: ts =>
      match t.kind with
      | .word => (t :: ts).all (Token.isAlike d)
      | .delimiter _ => if ts.isEmpty then run ≤ 1 else readsAlike d 0 ts
      | .backslashes count =>
          let escapes := count % 2 == 1 && d.escapesNext none t.stop.after
          readsAlike d (if escapes then count else 0) ts
      | _ => if ts.isEmpty then t.isAlike d else readsAlike d 0 ts

/-! ## The slot in front of the last one -/

/-- What is behind the place has no blanks, no quotes, and no markers of options, and no setting
reads it in another way. -/
structure Unmarked (ctx : Context) (c : Cursor) : Prop where
  plainLast : ctx.config.plainLast = none
  visible : ∀ y ∈ c.rest, isGap y = false
  noQuote : ∀ y ∈ c.rest, ctx.patterns.delimiters.isQuoteChar y = false
  undeclared : Undeclared ctx c

theorem Unmarked.token {ctx : Context} {c : Cursor} (unmarked : Unmarked ctx c) {kind : TokenKind}
    {text rest : List Char} (split : c.rest = text ++ rest)
    (found : tokenAt? ctx.patterns.delimiters c.rest = some (kind, text.length)) :
    Unmarked ctx (c.past text rest) where
  plainLast := unmarked.plainLast
  visible y member := unmarked.visible y (by rw [split]; exact List.mem_append_right _ member)
  noQuote y member := unmarked.noQuote y (by rw [split]; exact List.mem_append_right _ member)
  undeclared := (unmarked.undeclared.token split found).2

theorem Unmarked.ne_lineFeeds {ctx : Context} {c : Cursor} (unmarked : Unmarked ctx c)
    {kind : TokenKind} {text rest : List Char} (split : c.rest = text ++ rest)
    (front : TokenFront ctx.patterns.delimiters kind text rest) : kind ≠ .lineFeeds := by
  rintro rfl
  obtain ⟨y, more, rfl⟩ := List.exists_cons_of_ne_nil front.ne_nil
  have visible := unmarked.visible y (by simp [split])
  rw [front.lineFeed_of_mem List.mem_cons_self] at visible
  exact absurd visible (by decide)

namespace State

variable {ctx : Context}

def gluing (ctx : Context) (name : String) (value : List Char) (span : Span)
    (escape : Option (Cursor × Nat)) : State :=
  { filled ctx [⟨name, String.ofList value, span⟩] with escape := escape }

section

variable {name : String} {value : List Char} {span : Span} {escape : Option (Cursor × Nat)}

theorem gluing_idle : Idle (gluing ctx name value span escape) := ⟨rfl, rfl, rfl, rfl⟩

theorem gluing_escaping (escape' : Option (Cursor × Nat)) :
    ({ gluing ctx name value span escape with escape := escape' } : State) =
      gluing ctx name value span escape' := rfl

theorem placeText_gluing {start : Cursor} (visible : isVisible start.before = true)
    (text : List Char) (stop : Nat) (next : Option Char) :
    (gluing ctx name value span escape).placeText ctx (String.ofList text) start stop next false =
      gluing ctx name (value ++ text) ⟨span.start, stop⟩ escape := by
  simp [placeText, gluing, filled, visible, append, Entries.insert, Entries.put, Entries.modify,
    Entries.change, Entries.get?, Entries.find]

theorem onWord_gluing {t : Token} (visible : isVisible t.start.before = true) :
    (gluing ctx name value span escape).onWord ctx t false =
      gluing ctx name (value ++ t.text) ⟨span.start, t.stop.offset⟩ escape := by
  obtain ⟨y, before⟩ : ∃ y, t.start.before = some y := by
    cases before : t.start.before with
    | none => simp [before, isVisible] at visible
    | some y => exact ⟨y, rfl⟩
  have shown : isGap y = false := by simpa [before, isVisible] using visible
  simp [onWord, gluing, filled, before, shown, append, Entries.insert, Entries.put, Entries.modify,
    Entries.change, Entries.get?, Entries.find]

theorem closeAll_gluing :
    ((gluing ctx name value span escape).closeAll ctx).values =
      ⟨[(name, String.ofList value)]⟩ := rfl

/-- An escape that has not passed starts behind a visible character. -/
def EscapesInside (c : Cursor) (escape : Option (Cursor × Nat)) : Prop :=
  ∀ start stop, escape = some (start, stop) → c.offset ≤ stop → isVisible start.before = true

theorem EscapesInside.none (c : Cursor) : EscapesInside c none := by simp [EscapesInside]

theorem EscapesInside.past {c : Cursor} (inner : EscapesInside c escape) (text rest : List Char) :
    EscapesInside (c.past text rest) escape :=
  fun start stop escaped later => inner start stop escaped (by
    rw [Cursor.past_offset] at later
    omega)

theorem EscapesInside.of_passed {c : Cursor} (escapes : EscapesAt ctx c 0 escape) :
    EscapesInside c escape := by
  generalize run : 0 = count at escapes
  cases escapes with
  | passed before =>
      exact fun start stop escaped later => absurd (before start stop escaped) (by omega)
  | here positive => omega

theorem step_gluing_delimiter (name : String) (value : List Char) (span : Span) {c : Cursor}
    {y : Char} {rest : List Char} (split : c.rest = y :: rest) (unmarked : Unmarked ctx c)
    (isDelimiter : isDelimiterChar ctx.patterns.delimiters y = true)
    (before : isVisible c.before = true) (inner : EscapesInside c escape) :
    ∃ span', (gluing ctx name value span escape).step ctx (.reading (.delimiter y) c [y] rest) =
      gluing ctx name (value ++ [y]) span' none := by
  by_cases escaped : ∃ start, escape = some (start, c.offset)
  · obtain ⟨start, escaped⟩ := escaped
    have visible := inner start _ escaped (Nat.le_refl _)
    rw [gluing_idle.step_escaped escaped, gluing_escaping, placeText_gluing visible]
    exact ⟨_, rfl⟩
  · have noQuote := ofChar?_eq_none_of_isDelimiterChar isDelimiter
      (unmarked.noQuote y (by simp [split]))
    rw [gluing_idle.step_bare fun start same => escaped ⟨start, same⟩, gluing_escaping,
      onBareDelimiter]
    simp only [delimiterIsValue, unmarked.plainLast, Bool.false_eq_true, if_false, noQuote]
    exact ⟨_, placeText_gluing before [y] _ _⟩

theorem step_gluing_backslashes (name : String) (value : List Char) (span : Span) {c : Cursor}
    {count : Nat} {text rest : List Char} (unmarked : Unmarked ctx c)
    (before : isVisible c.before = true) (inner : EscapesInside c escape) :
    ∃ span' escape', EscapesInside (c.past text rest) escape' ∧
      (gluing ctx name value span escape).step ctx (.reading (.backslashes count) c text rest) =
        gluing ctx name
          (value ++ (Token.reading (.backslashes count) c text rest).kept ctx.patterns.delimiters)
          span' escape' := by
  let d := ctx.patterns.delimiters
  have special : d.escapesNext none rest.head? =
      (!((rest.head?.bind Quote.ofChar?).isSome &&
        (gluing ctx name value span escape).quotesArePlain ctx) &&
          d.escapesNext (gluing ctx name value span escape).family rest.head?) := by
    simp [quotesArePlain, unmarked.plainLast, gluing, filled]
  have kept : (Token.reading (.backslashes count) c text rest).kept d =
    backslashes (keptCount count (d.escapesNext none rest.head?)) := rfl
  let escape' := if count % 2 == 1 && d.escapesNext none rest.head? then
    some (c, (c.past text rest).offset) else escape
  have inner' : EscapesInside (c.past text rest) escape' := by
    simp only [escape']
    split
    · rintro _ _ ⟨⟩ _
      exact before
    · exact inner.past text rest
  rw [gluing_idle.step_backslashes special, kept]
  dsimp only
  rw [gluing_escaping]
  split
  · rename_i none
    rw [none]
    refine ⟨span, escape', inner', ?_⟩
    rw [backslashes, List.replicate_zero, List.append_nil]
    rfl
  · exact ⟨_, escape', inner', placeText_gluing before _ _ _⟩

/-- A token is glued to the value, as far as it is text. -/
theorem step_gluing (name : String) (value : List Char) (span : Span) {c : Cursor}
    {kind : TokenKind} {text rest : List Char} (split : c.rest = text ++ rest)
    (unmarked : Unmarked ctx c) (front : TokenFront ctx.patterns.delimiters kind text rest)
    (found : tokenAt? ctx.patterns.delimiters c.rest = some (kind, text.length))
    (before : isVisible c.before = true) (inner : EscapesInside c escape) :
    ∃ span' escape', EscapesInside (c.past text rest) escape' ∧
      (gluing ctx name value span escape).step ctx (.reading kind c text rest) =
        gluing ctx name (value ++ (Token.reading kind c text rest).kept ctx.patterns.delimiters)
          span' escape' := by
  cases kind with
  | marker escapes opening other =>
      have opensNone := (unmarked.undeclared.token split found).1 _ _ _ rfl
      rw [gluing_idle.step_marker split opensNone, placeText_gluing before,
        kept_of_other split (by simp)]
      exact ⟨_, _, inner.past text rest, rfl⟩
  | word =>
      have word : (gluing ctx name value span escape).step ctx (.reading .word c text rest) =
          (gluing ctx name value span escape).onWord ctx (.reading .word c text rest) false :=
        gluing_idle.step_eq _
      rw [word, onWord_gluing before, Token.reading_text .word split,
        kept_of_other split (by simp)]
      exact ⟨_, _, inner.past text rest, rfl⟩
  | delimiter y =>
      rw [kept_of_other split (by simp)]
      cases front with
      | delimiter isDelimiter =>
          obtain ⟨span', glued⟩ :=
            step_gluing_delimiter name value span split unmarked isDelimiter before inner
          exact ⟨span', _, .none _, glued⟩
  | backslashes count => exact step_gluing_backslashes name value span unmarked before inner
  | lineFeeds => exact absurd rfl (unmarked.ne_lineFeeds split front)

/-- What comes is glued to the value, as far as it is text. -/
theorem values_gluing (goesOn : ctx.config.stopWhenFilled = false) {c : Cursor}
    (unmarked : Unmarked ctx c) (before : c.rest ≠ [] → isVisible c.before = true)
    (inner : c.rest ≠ [] → EscapesInside c escape) :
    (((gluing ctx name value span escape).sweep ctx c).closeAll ctx).values =
      ⟨[(name, String.ofList (value ++
        keptText ctx.patterns.delimiters (tokensAt ctx.patterns.delimiters c)))]⟩ := by
  induction c using tokensAt_induction ctx.patterns.delimiters generalizing value span escape with
  | finish c ends => simp [sweep_end ends, tokensAt_end ends, keptText, closeAll_gluing]
  | skip c y rest split gap _ _ =>
      rw [unmarked.visible y (by simp [split])] at gap
      contradiction
  | token c kind text rest split front found ih =>
      have filled : c.rest ≠ [] := by simp [split, front.ne_nil]
      obtain ⟨span', escape', inner', glued⟩ := step_gluing name value span split unmarked front
        found (before filled) (inner filled)
      have before' : rest ≠ [] → isVisible (c.past text rest).before = true := by
        intro _
        obtain ⟨y, member, last⟩ := c.exists_before front.ne_nil rest
        have visible := unmarked.visible y (by rw [split]; exact List.mem_append_left _ member)
        simp [last, isVisible, visible]
      rw [sweep_token split found (stops_of_goesOn goesOn _), glued,
        ih (unmarked.token split found) before' fun _ => inner', keptText_token split found,
        List.append_assoc]

end

/-! ## What the first slot takes -/

theorem sweep_open {s : State} {c : Cursor} (opened : s.lastSlot.isSome = true)
    (noLong : s.longText = none) (noNamed : s.named = none) (notClosed : s.justClosed = false)
    (undeclared : Undeclared ctx c) : s.sweep ctx c = s := by
  induction c using tokensAt_induction ctx.patterns.delimiters with
  | finish c ends => exact sweep_end ends
  | skip c y rest split gap none ih =>
      rw [sweep_skip split none]
      exact ih (undeclared.skip split none)
  | token c kind text rest split front found ih =>
      obtain ⟨opensNone, behind⟩ := undeclared.token split found
      cases stops : s.stops ctx with
      | true => exact sweep_of_stops stops
      | false =>
          rw [sweep_token split found stops,
            step_lastSlot opened noLong noNamed notClosed opensNone]
          exact ih behind

section

variable {x : OptionDecl} {held : Option Held} {escape : Option (Cursor × Nat)} {c : Cursor}
  (unmarked : Unmarked ctx c)
include unmarked

theorem filledFrom_first (goesOn : ctx.config.stopWhenFilled = false) {y : OptionDecl}
    {more : List OptionDecl} (slots : ctx.table.slots = x :: y :: more)
    (before : c.rest ≠ [] → isVisible c.before = true)
    (inner : c.rest ≠ [] → EscapesInside c escape) (value : List Char) (start : Cursor) :
    filledFrom ctx held escape value start c =
      ⟨[(x.name, String.ofList (heldText held ++ (value ++
        keptText ctx.patterns.delimiters (tokensAt ctx.patterns.delimiters c))))]⟩ := by
  obtain ⟨span, filled⟩ := fillSlot_waiting slots value start c.offset
  rw [filledFrom, filled, if_neg (by simp), ← List.append_assoc]
  exact values_gluing goesOn unmarked before inner

/-- The only slot takes the text from the start of the value on, and unescapes it. -/
theorem filledFrom_only (slots : ctx.table.slots = [x]) {start : Cursor}
    (inside : start.In ctx.content) (value : List Char) :
    filledFrom ctx held escape value start c =
      ⟨[(x.name, String.ofList (trim (heldText held ++
        unescapeWith (ctx.patterns.delimiters.textEscapes none) start.rest)))]⟩ := by
  obtain ⟨span, filled⟩ := fillSlot_waiting slots value start c.offset
  have raw : start.textTo ctx.length = start.rest := inside.textTo_end
  rw [filledFrom, filled, if_pos rfl, sweep_open rfl rfl rfl rfl unmarked.undeclared]
  simp [closeAll, closeLastSlot, closeNamed, closeLongText, State.filled, unmarked.plainLast, raw,
    setValue, Entries.insert, Entries.put]

end

/-! ## One slot or more -/

theorem tokensAt_isEmpty {d : Delimiters} {c : Cursor} (visible : ∀ b ∈ c.rest, isGap b = false) :
    (tokensAt d c).isEmpty = true ↔ c.rest = [] := by
  cases rest : c.rest with
  | nil => simp [tokensAt_end rest]
  | cons b cs =>
      rcases tokenAt?_cases d b cs with ⟨-, gap⟩ | ⟨kind, text, rest', split, -, found⟩
      · simp [visible b (by simp [rest])] at gap
      · rw [← rest] at split found
        simp [tokensAt_token split found]

structure Widens (ctx : Context) (table : Table) (x : OptionDecl) : Prop where
  only : ctx.table.slots = [x]
  first : ∃ y more, table.slots = x :: y :: more
  goesOn : ctx.config.stopWhenFilled = false
  active : ctx.patterns.delimiters.isActive = true

section

variable {ctx : Context} {table : Table} {x : OptionDecl} (widens : Widens ctx table x)
  {held : Option Held} (shown : ∀ b ∈ heldText held, isBlank b = false) {c : Cursor}
  (unmarked : Unmarked ctx c) (unmarked' : Unmarked { ctx with table := table } c)
  {e : EscapeSet} (set : ctx.patterns.delimiters.textEscapes none = some e)
  {escape : Option (Cursor × Nat)}
include widens shown unmarked unmarked' set

/-- The first slot takes the same in front of another one, just where its text is unescaped to what
is kept of it. -/
theorem filledFrom_alike_iff (before : c.rest ≠ [] → isVisible c.before = true)
    (inner : c.rest ≠ [] → EscapesInside c escape) {start : Cursor} (inside : start.In ctx.content)
    (visible : ∀ b ∈ start.rest, isGap b = false) (value : List Char) :
    (filledFrom ctx held escape value start c).get? x.name =
        (filledFrom { ctx with table := table } held escape value start c).get? x.name ↔
      unescape e start.rest =
        value ++ keptText ctx.patterns.delimiters (tokensAt ctx.patterns.delimiters c) := by
  obtain ⟨y, more, first⟩ := widens.first
  have trimmed : trim (heldText held ++ unescape e start.rest) =
      heldText held ++ unescape e start.rest := by
    apply trim_of_visible
    intro b member
    rcases List.mem_append.1 member with front | back
    · exact shown b front
    · rcases mem_unescapeFrom back with rfl | member
      · decide
      · exact isBlank_of_isGap (visible b member)
  rw [filledFrom_only unmarked widens.only inside, set, unescapeWith, trimmed,
    filledFrom_first unmarked' widens.goesOn first before inner, get?_single, get?_single,
    Option.some.injEq, String.ofList_inj, List.append_cancel_left_eq]

/-- Text that is placed is taken alike where what is behind it is, and at the end just where it is
unescaped to itself. -/
theorem placedFrom_alike_iff {start : Cursor} (inside : start.In ctx.content)
    (visible : ∀ b ∈ start.rest, isGap b = false) {text : List Char} {ends behind : Bool}
    (last : c.rest = [] → (unescape e start.rest = text ↔ ends = true))
    (more : c.rest ≠ [] → ((foundFrom ctx (holding held text start) escape c).get? x.name =
      (foundFrom { ctx with table := table } (holding held text start) escape c).get? x.name ↔
        behind = true)) :
    (placedFrom ctx held escape text start c).get? x.name =
        (placedFrom { ctx with table := table } held escape text start c).get? x.name ↔
      (if (tokensAt ctx.patterns.delimiters c).isEmpty then ends else behind) = true := by
  by_cases here : c.rest = []
  · have hidden : ¬ isVisible c.after = true := by simp [Cursor.after, here, isVisible]
    rw [if_pos ((tokensAt_isEmpty unmarked.visible).2 here), placedFrom, placedFrom,
      if_neg hidden, if_neg hidden,
      filledFrom_alike_iff widens shown unmarked unmarked' set (absurd here) (absurd here) inside
        visible text, tokensAt_end here, ← last here]
    simp [keptText]
  · obtain ⟨b, rest, split⟩ := List.exists_cons_of_ne_nil here
    have shown : isVisible c.after = true := by
      simp [Cursor.after, split, isVisible, unmarked.visible b (by simp [split])]
    rw [if_neg (by rwa [tokensAt_isEmpty unmarked.visible]), placedFrom, placedFrom,
      if_pos shown, if_pos shown]
    exact more here

end

/-! ## Token after token -/

section

variable {ctx : Context} {table : Table} {x : OptionDecl} {c : Cursor}

def AlikeFrom (ctx : Context) (table : Table) (x : OptionDecl) (c : Cursor) : Prop :=
  ∀ held escape run, (∀ b ∈ heldText held, isBlank b = false) → EscapesAt ctx c run escape →
    ((foundFrom ctx held escape c).get? x.name =
        (foundFrom { ctx with table := table } held escape c).get? x.name ↔
      readsAlike ctx.patterns.delimiters run (tokensAt ctx.patterns.delimiters c) = true)

theorem heldText_visible {held : Option Held} (shown : ∀ b ∈ heldText held, isBlank b = false)
    {text : List Char} (visible : ∀ b ∈ text, isGap b = false) (start : Cursor) :
    ∀ b ∈ heldText (holding held text start), isBlank b = false := by
  intro b member
  rw [heldText_holding] at member
  exact (List.mem_append.1 member).elim (shown b) fun member => isBlank_of_isGap (visible b member)

theorem escapesNext_eq {ctx : Context} (plainLast : ctx.config.plainLast = none)
    {held : Option Held} {escape : Option (Cursor × Nat)} {next : Option Char} :
    ctx.patterns.delimiters.escapesNext none next =
      (!((next.bind Quote.ofChar?).isSome && (waiting ctx held escape).quotesArePlain ctx) &&
        ctx.patterns.delimiters.escapesNext none next) := by
  simp [quotesArePlain, plainLast]

theorem Widens.textEscapes (widens : Widens ctx table x) :
    ∃ e, ctx.patterns.delimiters.textEscapes none = some e := by
  rw [Delimiters.textEscapes, if_pos widens.active]
  exact ⟨_, rfl⟩

theorem Widens.goes (widens : Widens ctx table x) :
    (initial ctx).stops ctx = false ∧
      (initial { ctx with table := table }).stops { ctx with table := table } = false :=
  ⟨stops_of_goesOn widens.goesOn _,
    @stops_of_goesOn { ctx with table := table } widens.goesOn _⟩

variable (widens : Widens ctx table x) (unmarked : Unmarked ctx c)
  (unmarked' : Unmarked { ctx with table := table } c) (inside : c.In ctx.content)
  {text rest : List Char} (split : c.rest = text ++ rest)
include widens unmarked unmarked' inside split

theorem alikeFrom_word (front : TokenFront ctx.patterns.delimiters .word text rest)
    (found : tokenAt? ctx.patterns.delimiters c.rest = some (.word, text.length)) :
    AlikeFrom ctx table x c := by
  intro held escape run shown escapes
  obtain ⟨e, set⟩ := widens.textEscapes
  have before : isVisible (c.past text rest).before = true := by
    obtain ⟨b, member, last⟩ := c.exists_before front.ne_nil rest
    simp [last, isVisible, front.visible (by simp) b member]
  have passed : EscapesAt ctx (c.past text rest) 0 escape := escapes.past front.ne_nil
  have alike := unescape_eq_keptText_iff set widens.active c unmarked.visible
  rw [keptText_token split found, kept_of_other split (by simp)] at alike
  rw [foundFrom_word widens.goes.1 split found, foundFrom_word widens.goes.2 split found,
    filledFrom_alike_iff widens shown (unmarked.token split found) (unmarked'.token split found)
      set (fun _ => before) (fun _ => .of_passed passed) inside unmarked.visible, alike,
    tokensAt_token split found]
  rfl

variable (behind : AlikeFrom ctx table x (c.past text rest))
include behind

theorem alikeFrom_marker {count : Nat} {opening : Opening} {name : String}
    (front : TokenFront ctx.patterns.delimiters (.marker count opening name) text rest)
    (found : tokenAt? ctx.patterns.delimiters c.rest =
      some (.marker count opening name, text.length)) : AlikeFrom ctx table x c := by
  intro held escape run shown escapes
  obtain ⟨e, set⟩ := widens.textEscapes
  have opensNone := (unmarked.undeclared.token split found).1 _ _ _ rfl
  have opensNone' := (unmarked'.undeclared.token split found).1 _ _ _ rfl
  have last (ends : rest = []) := unescape_last_iff set widens.active split found ends
    unmarked.visible
  rw [kept_of_other split (by simp)] at last
  rw [foundFrom_marker widens.goes.1 split found opensNone,
    foundFrom_marker widens.goes.2 split found opensNone', tokensAt_token split found]
  exact placedFrom_alike_iff widens shown (unmarked.token split found)
    (unmarked'.token split found) set inside unmarked.visible last fun _ =>
      behind _ _ _ (heldText_visible shown (front.visible (by simp)) c) (escapes.past front.ne_nil)

theorem alikeFrom_delimiter {y : Char}
    (isDelimiter : isDelimiterChar ctx.patterns.delimiters y = true) (single : text = [y])
    (found : tokenAt? ctx.patterns.delimiters c.rest = some (.delimiter y, text.length)) :
    AlikeFrom ctx table x c := by
  intro held escape run shown escapes
  obtain ⟨e, set⟩ := widens.textEscapes
  have later := unmarked.token split found
  have later' := unmarked'.token split found
  subst single
  have visible : ∀ b ∈ [y], isGap b = false := by
    simpa using isGap_of_isDelimiterChar isDelimiter
  rw [tokensAt_token split found]
  cases escapes with
  | passed earlier =>
      have noQuote := ofChar?_eq_none_of_isDelimiterChar isDelimiter
        (unmarked.noQuote y (by simp [split]))
      have unescaped (start : Cursor) : escape ≠ some (start, c.offset) :=
        fun escaped => absurd (earlier start _ escaped) (Nat.lt_irrefl _)
      have last (ends : rest = []) := unescape_last_iff set widens.active split found ends
        unmarked.visible
      rw [kept_of_other split (by simp)] at last
      rw [foundFrom_delimiterText widens.goes.1 split found unescaped unmarked.plainLast noQuote,
        foundFrom_delimiterText widens.goes.2 split found unescaped unmarked'.plainLast noQuote]
      exact placedFrom_alike_iff widens shown later later' set inside unmarked.visible last
        fun _ => behind _ _ _ (heldText_visible shown visible c) (.none ctx _)
  | @here start run positive insideStart whole =>
      have visible' : ∀ b ∈ start.rest, isGap b = false := by
        rw [whole, List.forall_mem_append]
        exact ⟨backslashes_visible, unmarked.visible⟩
      have last (ends : rest = []) : unescape e start.rest = [y] ↔ decide (run ≤ 1) = true := by
        rw [whole, split, ends, List.append_nil, unescape_escaped_iff set isDelimiter run,
          decide_eq_true_iff]
      rw [foundFrom_escaped widens.goes.1 split found, foundFrom_escaped widens.goes.2 split found]
      exact placedFrom_alike_iff widens shown later later' set insideStart visible' last
        fun _ => behind _ _ _ (heldText_visible shown visible start) (.none ctx _)

theorem alikeFrom_backslashes {count : Nat}
    (front : TokenFront ctx.patterns.delimiters (.backslashes count) text rest)
    (found : tokenAt? ctx.patterns.delimiters c.rest = some (.backslashes count, text.length)) :
    AlikeFrom ctx table x c := by
  intro held escape run shown escapes
  obtain ⟨e, set⟩ := widens.textEscapes
  obtain ⟨positive, -, -, rfl⟩ := front.backslashes_inv
  let special := ctx.patterns.delimiters.escapesNext none rest.head?
  have escapes' := escapes.backslashes inside positive split (count % 2 == 1 && special)
  have reads : readsAlike ctx.patterns.delimiters run
        (tokensAt ctx.patterns.delimiters c) =
      readsAlike ctx.patterns.delimiters (if count % 2 == 1 && special then count else 0)
        (tokensAt ctx.patterns.delimiters (c.past (backslashes count) rest)) := by
    rw [tokensAt_token split found]
    rfl
  rw [foundFrom_backslashes widens.goes.1 split found (escapesNext_eq unmarked.plainLast),
    foundFrom_backslashes widens.goes.2 split found (escapesNext_eq unmarked'.plainLast), reads]
  by_cases lost : keptCount count special = 0
  · rw [if_pos lost, if_pos lost]
    exact behind _ _ _ shown escapes'
  · have last (ends : rest = []) :
        unescape e c.rest = backslashes (keptCount count special) ↔ true = true := by
      have kept : (Token.reading (.backslashes count) c (backslashes count) rest).kept
          ctx.patterns.delimiters = backslashes (keptCount count special) := rfl
      have isAlike : (Token.reading (.backslashes count) c (backslashes count) rest).isAlike
          ctx.patterns.delimiters = (count == 1 || special) := rfl
      have atEnd : special = true := by
        simp only [special, ends]
        exact escapesNext_none set
      rw [← kept, unescape_last_iff set widens.active split found ends unmarked.visible, isAlike,
        atEnd, Bool.or_true]
    rw [if_neg lost, if_neg lost, placedFrom_alike_iff widens shown (unmarked.token split found)
      (unmarked'.token split found) set inside unmarked.visible last fun _ =>
        behind _ _ _ (heldText_visible shown backslashes_visible c) escapes']
    cases tokensAt ctx.patterns.delimiters (c.past (backslashes count) rest) with
    | nil => simp [readsAlike]
    | cons => exact Iff.rfl

end

/-- Behind every place of a text that opens nothing the first slot takes the same, just where the
tokens are read alike. -/
theorem alikeFrom {ctx : Context} {table : Table} {x : OptionDecl} (widens : Widens ctx table x)
    {c : Cursor} (unmarked : Unmarked ctx c) (unmarked' : Unmarked { ctx with table := table } c)
    (inside : c.In ctx.content) : AlikeFrom ctx table x c := by
  induction c using tokensAt_induction ctx.patterns.delimiters with
  | finish c ends =>
      intro held escape run _ _
      simp [foundFrom_end ends, tokensAt_end ends, readsAlike]
  | skip c b rest split gap _ _ =>
      rw [unmarked.visible b (by simp [split])] at gap
      contradiction
  | token c kind text rest split front found ih =>
      have behind := ih (unmarked.token split found) (unmarked'.token split found)
        (inside.past split)
      cases kind with
      | word => exact alikeFrom_word widens unmarked unmarked' inside split front found
      | marker => exact alikeFrom_marker widens unmarked unmarked' inside split behind front found
      | backslashes =>
          exact alikeFrom_backslashes widens unmarked unmarked' inside split behind front found
      | delimiter y =>
          cases front with
          | delimiter isDelimiter =>
              exact alikeFrom_delimiter widens unmarked unmarked' inside split behind isDelimiter
                rfl found
      | lineFeeds => exact absurd rfl (unmarked.ne_lineFeeds split front)

end State

end Parse

open Parse Text

namespace Command

/-- A second slot leaves the value of the first one as it is in a text without blanks, quotes and
markers of options, if its tokens are read alike. If they are not, it does only where the choices of
the option hide it. -/
theorem parse_secondSlot_iff {one two : Command} {shared : Config} {x y : OptionDecl}
    {front back : List OptionDecl} (options : one.options = front ++ back)
    (wider : two = { one with options := front ++ y :: back })
    (only : (Table.ofCommand one).slots = [x]) (both : (Table.ofCommand two).slots = [x, y])
    (distinct : y.name ≠ x.name) {config : Config}
    (configured : (Table.ofCommand one).configFor shared = config)
    (plainLast : config.plainLast = none) (goesOn : config.stopWhenFilled = false)
    (noReply : config.replyFilling = none) (active : config.delimiters.isActive = true)
    {content : String} (visible : ∀ c ∈ content.toList, isGap c = false)
    (noQuote : ∀ c ∈ content.toList, config.delimiters.isQuoteChar c = false)
    (opensNone : OpensNone (Table.ofCommand two) config.delimiters content.toList)
    (message : Option Message) :
    (readsAlike config.delimiters 0 (tokens config.delimiters content.toList) = true →
        (one.parse shared content message).values.get? x.name =
          (two.parse shared content message).values.get? x.name) ∧
      ((∀ o ∈ one.options, o.name = x.name → o.choices = []) →
        (one.parse shared content message).values.get? x.name =
          (two.parse shared content message).values.get? x.name →
        readsAlike config.delimiters 0 (tokens config.delimiters content.toList) = true) := by
  let ctx : Context := ⟨content.toList, .ofCommand one, config, .ofConfig config⟩
  have options' : two.options = front ++ y :: back := by rw [wider]
  have configured' : (Table.ofCommand two).configFor shared = config := by
    rw [wider]
    exact configured
  have opensNone' : OpensNone (Table.ofCommand one) config.delimiters content.toList := by
    intro t member escapes opening name marker
    have none := Table.option?_eq_none_iff.1 (opensNone t member escapes opening name marker)
    refine Table.option?_eq_none_iff.2 fun o declared => none o ?_
    rw [options] at declared
    rw [options']
    simpa using (List.mem_append.1 declared).imp_right .inr
  have start : Unmarked ctx (Cursor.start ctx.content) :=
    ⟨plainLast, visible, noQuote, fun _ member => opensNone'.tokensAt member⟩
  have start' : Unmarked { ctx with table := .ofCommand two } (Cursor.start ctx.content) :=
    ⟨plainLast, visible, noQuote, fun _ member => opensNone.tokensAt member⟩
  have alike := State.alikeFrom (x := x) ⟨only, ⟨y, [], both⟩, goesOn, active⟩ start start'
    (Cursor.start_in ctx.content) none none 0 (by simp) (.none ctx _)
  have own : (Table.ofCommand one).choices.filter (·.option == x.name) =
      (Table.ofCommand two).choices.filter (·.option == x.name) := by
    rw [Table.filter_choices, Table.filter_choices, options, options', List.filter_append,
      List.filter_append, List.filter_cons_of_neg (by simp [distinct])]
  rw [parse_foundFrom (Table.optionCount_pos_of_slot (o := x) (by simp [only])) configured noReply,
    parse_foundFrom (Table.optionCount_pos_of_slot (o := x) (by simp [both])) configured' noReply]
  refine ⟨fun tokens => get?_matchChoices_congr own (alike.2 tokens) _, fun noChoices same => ?_⟩
  have other : (Table.ofCommand one).choices.filter (·.option == x.name) = [] := by
    rw [Table.filter_choices, List.map_eq_nil_iff, List.filter_eq_nil_iff]
    intro o declared
    by_cases named : o.name = x.name
    · simp [noChoices o declared named]
    · simp [named]
  have other' := own ▸ other
  simp only [List.filter_eq_nil_iff, beq_iff_eq] at other other'
  rw [get?_matchChoices_of_other other, get?_matchChoices_of_other other'] at same
  exact alike.1 same

theorem eq_false_of_all {p : Char → Bool} {cs : List Char} (all : cs.all (!p ·) = true) :
    ∀ c ∈ cs, p c = false := by
  simpa using all

/-- Escapes of a colon and at the end are read alike, behind what looks like a marker. -/
theorem parse_secondSlot_iff_colon :
    (Command.parse ⟨"say", [{ name := "x" }], none⟩ {} "-a\\:b\\\\" none).values.get? "x" =
        some "-a:b\\" ∧
      (Command.parse ⟨"say", [{ name := "x" }, { name := "y" }], none⟩ {} "-a\\:b\\\\"
        none).values.get? "x" = some "-a:b\\" := by
  have alike := (@parse_secondSlot_iff ⟨"say", [{ name := "x" }], none⟩
    ⟨"say", [{ name := "x" }, { name := "y" }], none⟩ {} { name := "x" } { name := "y" }
    [{ name := "x" }] [] rfl rfl rfl rfl (by decide) {} rfl rfl rfl rfl rfl "-a\\:b\\\\"
    (eq_false_of_all rfl) (eq_false_of_all rfl) (by decide +kernel) none).1 (by decide +kernel)
  have value : (Command.parse ⟨"say", [{ name := "x" }], none⟩ {} "-a\\:b\\\\"
      none).values.get? "x" = some "-a:b\\" := by
    decide +kernel
  exact ⟨value, alike.symm.trans value⟩

/-- Of three backslashes in front of a hyphen one is held, and if the slot is the only one, it takes
them all behind it. -/
theorem not_parse_secondSlot_alike :
    ¬ ∀ (one two : Command) (x y : OptionDecl) (front back : List OptionDecl) (content : String),
      one.options = front ++ back → two = { one with options := front ++ y :: back } →
      (Table.ofCommand one).slots = [x] → (Table.ofCommand two).slots = [x, y] →
      y.name ≠ x.name → (Table.ofCommand one).configFor {} = {} → content ≠ "" →
      (∀ c ∈ content.toList, isGap c = false) →
      (∀ c ∈ content.toList, ({} : Delimiters).isQuoteChar c = false) →
      OpensNone (Table.ofCommand two) {} content.toList →
      (one.parse {} content none).values.get? x.name =
        (two.parse {} content none).values.get? x.name := by
  intro always
  have same := always ⟨"say", [{ name := "x" }], none⟩
    ⟨"say", [{ name := "x" }, { name := "y" }], none⟩ { name := "x" } { name := "y" }
    [{ name := "x" }] [] "\\\\\\-" rfl rfl rfl rfl (by decide) rfl (by decide)
    (eq_false_of_all rfl) (eq_false_of_all rfl) (by decide +kernel)
  exact absurd same (by decide +kernel)

end Command

end ChatArgs
