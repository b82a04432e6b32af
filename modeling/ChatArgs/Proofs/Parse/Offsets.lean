import ChatArgs.Proofs.Parse.Keys
import ChatArgs.Proofs.Text.Boundaries

/-!
# Offsets in a result

`Located ctx bound s` holds of every state of a parse: whatever it remembers starts at a boundary
of the text, at `bound` or in front of it, and a span does not end in front of its start. There
is one exception: both line feeds around the code of a block are left out, and where they are the
same one the block has no code and its span ends a byte too early (`EmptyBlock`).
-/

namespace ChatArgs

open Text

/-- The span of a code block without code: behind its three quotes stands at most the name of a
language with its line feed, and one line feed is taken for the first and for the last. -/
def EmptyBlock (text : List Char) (span : Span) : Prop :=
  ∃ front language feeds rest,
    text = front ++ (['`', '`', '`'] ++ (language ++ (feeds ++ (['`', '`'] ++ rest)))) ∧
      (∀ c ∈ language, isBlank c = false) ∧
      (feeds = ['\n'] ∨ feeds = ['\n', '\n'] ∧ language ≠ []) ∧
      span.start = byteLength (front ++ (['`', '`', '`'] ++ (language ++ feeds))) ∧
      span.stop + 1 = span.start

/-- Both ends are boundaries of the text, in order, and the first is not behind `bound`. -/
structure Span.Sound (text : List Char) (bound : Nat) (span : Span) : Prop where
  start : IsBoundary text span.start
  stop : IsBoundary text span.stop
  reached : span.start ≤ bound
  ordered : span.start ≤ span.stop ∨ EmptyBlock text span

namespace Parse

variable {ctx : Context} {bound stop : Nat}

def Reached (ctx : Context) (bound : Nat) (c : Cursor) : Prop :=
  c.In ctx.content ∧ c.offset ≤ bound

theorem Reached.sound {c : Cursor} (reached : Reached ctx bound c)
    (boundary : IsBoundary ctx.content stop) (ordered : c.offset ≤ stop) :
    Span.Sound ctx.content bound ⟨c.offset, stop⟩ :=
  ⟨reached.1.isBoundary, boundary, reached.2, .inl ordered⟩

theorem byteLength_backslashes (count : Nat) : byteLength (backslashes count) = count := by
  induction count with
  | zero => rfl
  | succ count ih =>
      have size : '\\'.utf8Size = 1 := by decide
      rw [backslashes, List.replicate_succ, byteLength_cons, size, ← backslashes, ih, Nat.add_comm]

theorem TokenFront.escapes_isBoundary {d : Delimiters} {escapes : Nat} {opening : Opening}
    {name : String} {text rest : List Char} {c : Cursor}
    (token : TokenFront d (.marker escapes opening name) text rest) (place : c.In ctx.content)
    (split : c.rest = text ++ rest) : IsBoundary ctx.content (c.offset + escapes) := by
  obtain ⟨marker, rfl⟩ : ∃ marker, text = Parse.backslashes escapes ++ marker := by
    cases token with
    | hyphens => exact ⟨_, rfl⟩
    | colon => exact ⟨_, rfl⟩
  rw [List.append_assoc] at split
  have behind := (place.past split).isBoundary
  rwa [Cursor.past_offset, byteLength_backslashes] at behind

/-- A run of quotes that may close a long text: it stands behind other text, with the quote
twice. -/
structure LongText.Closes (ctx : Context) (bound : Nat) (long : LongText) (first : Cursor) :
    Prop where
  reached : Reached ctx bound first
  behind : long.body.offset < first.offset
  twice : ∃ rest, first.rest = long.quote.char :: long.quote.char :: rest

/-- A long text was opened by a run of one quote, which is switched on. -/
structure LongText.Opened (ctx : Context) (bound : Nat) (long : LongText) : Prop where
  body : Reached ctx bound long.body
  enabled : ctx.patterns.delimiters.isQuoteChar long.quote.char = true
  quotes : ∃ front count,
    ctx.content = front ++ (List.replicate (count + 1) long.quote.char ++ long.body.rest) ∧
      long.body.offset = long.start + count
  closing : ∀ run ∈ long.closing, long.Closes ctx bound run.first

namespace LongText

variable {long : LongText} {bound' : Nat}

theorem Closes.mono {first : Cursor} (closes : long.Closes ctx bound first)
    (later : bound ≤ bound') : long.Closes ctx bound' first :=
  { closes with reached := closes.reached.imp_right (·.trans later) }

theorem Opened.mono (opened : long.Opened ctx bound) (later : bound ≤ bound') :
    long.Opened ctx bound' :=
  { opened with
    body := opened.body.imp_right (·.trans later)
    closing := fun run known => (opened.closing run known).mono later }

theorem Opened.withClosing (opened : long.Opened ctx bound) {run : ClosingRun}
    (closes : long.Closes ctx bound run.first) :
    LongText.Opened ctx bound { long with closing := some run } := by
  refine { opened with closing := ?_ }
  intro run' known
  rw [← Option.some.inj known]
  exact ⟨closes.reached, closes.behind, closes.twice⟩

theorem Opened.withQuote {t : Token} (opened : long.Opened ctx t.start.offset) (inside : t.In ctx)
    (here : long.body.offset = t.start.offset)
    (char : t.start.rest = long.quote.char :: t.stop.rest)
    (next : t.stop.offset = t.start.offset + 1) :
    LongText.Opened ctx t.stop.offset { long with body := t.stop } := by
  obtain ⟨front, count, whole, length⟩ := opened.quotes
  refine ⟨⟨inside.stop, Nat.le_refl _⟩, opened.enabled, ⟨front, count + 1, ?_, ?_⟩, ?_⟩
  · rw [whole, opened.body.1.rest_congr inside.start here, char,
      List.replicate_succ' (n := count + 1)]
    simp
  · simp only
    omega
  · intro run known
    have closes := opened.closing run known
    exact absurd (here ▸ closes.reached.2) (Nat.not_le.2 closes.behind)

end LongText

namespace State

variable {s : State}

structure Located (ctx : Context) (bound : Nat) (s : State) : Prop where
  spans : ∀ name span, s.spans.get? name = some span → span.Sound ctx.content bound
  held : ∀ held ∈ s.held, Reached ctx bound held.start
  escape : ∀ escape ∈ s.escape, Reached ctx bound escape.1
  long : ∀ long ∈ s.longText, long.Opened ctx bound ∧
    ∀ held ∈ s.held, held.start.offset ≤ long.body.offset
  named : ∀ named ∈ s.named, Reached ctx bound named.start ∧
    IsBoundary ctx.content named.nameStart ∧ named.nameStart ≤ named.start.offset
  lastSlot : ∀ slot ∈ s.lastSlot, IsBoundary ctx.content slot.spanStart ∧ slot.spanStart ≤ bound

namespace Located

theorem initial (ctx : Context) : Located ctx 0 (State.initial ctx) := by
  constructor <;> simp [State.initial, Entries.get?, Entries.find]

theorem mono {bound' : Nat} (located : Located ctx bound s) (later : bound ≤ bound') :
    Located ctx bound' s where
  spans := fun name span found =>
    { located.spans name span found with
      reached := (located.spans name span found).reached.trans later }
  held := fun held filled => (located.held held filled).imp_right (·.trans later)
  escape := fun escape member => (located.escape escape member).imp_right (·.trans later)
  long := fun long opened => (located.long long opened).imp_left (·.mono later)
  named := fun named opened => (located.named named opened).imp_left (·.imp_right (·.trans later))
  lastSlot := fun slot opened => (located.lastSlot slot opened).imp_right (·.trans later)

theorem congr {s' : State} (located : Located ctx bound s) (spans : s'.spans = s.spans)
    (held : s'.held = s.held) (escape : s'.escape = s.escape)
    (longText : s'.longText = s.longText) (named : s'.named = s.named)
    (lastSlot : s'.lastSlot = s.lastSlot) : Located ctx bound s' := by
  constructor
  · rw [spans]
    exact located.spans
  · rw [held]
    exact located.held
  · rw [escape]
    exact located.escape
  · rw [longText, held]
    exact located.long
  · rw [named]
    exact located.named
  · rw [lastSlot]
    exact located.lastSlot

theorem closed (located : Located ctx bound s) :
    Located ctx bound { s with longText := none, justClosed := true } :=
  { located with long := by simp }

theorem unheld (located : Located ctx bound s) : Located ctx bound { s with held := none } where
  spans := located.spans
  held := by simp
  escape := located.escape
  long := fun long opened => ⟨(located.long long opened).1, by simp⟩
  named := located.named
  lastSlot := located.lastSlot

theorem held_sound (located : Located ctx bound s) (boundary : IsBoundary ctx.content stop)
    (later : bound ≤ stop) :
    ∀ held ∈ s.held, Span.Sound ctx.content bound ⟨held.start.offset, stop⟩ := by
  intro held filled
  have reached := located.held held filled
  exact reached.sound boundary (reached.2.trans later)

/-! ## Giving a value -/

theorem setValue {start : Nat} (located : Located ctx bound s)
    (sound : Span.Sound ctx.content bound ⟨start, stop⟩) (name value : String) :
    Located ctx bound (s.setValue name value start stop) := by
  refine { located with spans := ?_ }
  intro other old found
  rw [State.setValue, Entries.get?_insert] at found
  split at found
  · rw [← Option.some.inj found]
    exact sound
  · exact located.spans other old found

theorem append (located : Located ctx bound s) (boundary : IsBoundary ctx.content stop)
    (later : bound ≤ stop) (name text : String) :
    Located ctx bound (s.append name text stop) := by
  refine { located with spans := ?_ }
  intro other span found
  rw [State.append, Entries.get?_modify] at found
  split at found
  · obtain ⟨old, known, rfl⟩ := Option.map_eq_some_iff.1 found
    have sound := located.spans other old known
    exact ⟨sound.start, boundary, sound.reached, .inl (sound.reached.trans later)⟩
  · exact located.spans other span found

theorem take (located : Located ctx bound s) (slot : Nat) : Located ctx bound (s.take slot) := by
  rw [take_frame]
  exact located.congr rfl rfl rfl rfl rfl rfl

theorem markFilled (located : Located ctx bound s) (option : OptionDecl) :
    Located ctx bound (s.markFilled ctx option) := by
  rw [markFilled_frame]
  exact located.congr rfl rfl rfl rfl rfl rfl

theorem fillSlot (located : Located ctx bound s) (value : String) {start : Cursor}
    (sound : s.held = none → Span.Sound ctx.content bound ⟨start.offset, stop⟩)
    (held : ∀ held ∈ s.held, Span.Sound ctx.content bound ⟨held.start.offset, stop⟩)
    (long : Bool) : Located ctx bound (s.fillSlot ctx value start stop long) := by
  refine fillSlot_cases located fun slot option value spanStart lastSlot _ _ from' last => ?_
  have sound' : Span.Sound ctx.content bound ⟨spanStart, stop⟩ := by
    cases from' with
    | alone noHeld => exact sound noHeld
    | held filled => exact held _ filled
  have waits : Located ctx bound
      { s with held := none, lastSlot := lastSlot, lastFilled := some option.name } := by
    refine { located.unheld with lastSlot := fun slot opened => ?_ }
    cases last with
    | same => exact located.lastSlot slot opened
    | opens =>
        rw [← Option.some.inj opened]
        exact ⟨sound'.start, sound'.reached⟩
  exact (waits.setValue sound' option.name value).take slot

theorem fillNamed {start : Nat} (located : Located ctx bound s) (named : Named) (value : String)
    (sound : Span.Sound ctx.content bound ⟨start, stop⟩) :
    Located ctx bound (s.fillNamed ctx named value start stop) := by
  have dropped : Located ctx bound
      { s with named := none, justClosed := true, lastFilled := some named.option.name } :=
    { located with named := by simp }
  exact (dropped.setValue sound named.option.name value).markFilled named.option

theorem place (located : Located ctx bound s) (value : String) {start : Cursor}
    (sound : Span.Sound ctx.content bound ⟨start.offset, stop⟩)
    (held : ∀ held ∈ s.held, Span.Sound ctx.content bound ⟨held.start.offset, stop⟩) :
    Located ctx bound (s.place ctx value start stop false) := by
  refine place_cases ?named ?apart ?slot
  case named => exact fun named _ => located.fillNamed named value sound
  case apart => simp
  case slot => exact fun _ _ => located.fillSlot value (fun _ => sound) held false

theorem placeLong (located : Located ctx bound s) (value : String) {start : Cursor}
    (reached : Reached ctx bound start)
    (sound : Span.Sound ctx.content bound ⟨start.offset, stop⟩)
    (held : ∀ held ∈ s.held, held.start.offset ≤ start.offset) :
    Located ctx bound (s.place ctx value start stop true) := by
  refine place_cases ?named ?apart ?slot
  case named => exact fun named _ => located.fillNamed named value sound
  case apart =>
    intro held' _ _ filled
    have behind : Span.Sound ctx.content bound ⟨held'.start.offset, start.offset⟩ :=
      (located.held held' filled).sound reached.1.isBoundary (held held' filled)
    have first := located.unheld.fillSlot held'.text (fun _ => behind) (by simp) true
    refine first.fillSlot value (fun _ => sound) ?_ true
    rw [fillSlot_held rfl]
    simp
  case slot =>
    exact fun _ noHeld => located.fillSlot value (fun _ => sound) (by simp [noHeld rfl]) true

/-! ## Closing what is open -/

theorem closeLastSlot (located : Located ctx bound s) (boundary : IsBoundary ctx.content stop)
    (later : bound ≤ stop) (post : List Char) :
    Located ctx bound (s.closeLastSlot ctx stop post) := by
  refine closeLastSlot_cases (fun _ => located) fun slot value opened => ?_
  obtain ⟨start, reached⟩ := located.lastSlot slot opened
  have dropped : Located ctx bound { s with lastSlot := none, lastSlotClosed := true } :=
    { located with lastSlot := by simp }
  exact dropped.setValue ⟨start, boundary, reached, .inl (reached.trans later)⟩ _ _

theorem closeLongText (located : Located ctx bound s) (boundary : IsBoundary ctx.content stop)
    (later : ∀ long ∈ s.longText, long.body.offset ≤ stop) :
    Located ctx bound (s.closeLongText ctx stop) := by
  refine closeLongText_cases (fun _ => located) fun long value opened => ?_
  obtain ⟨opened', behind⟩ := located.long long opened
  exact located.closed.placeLong _ opened'.body
    (opened'.body.sound boundary (later long opened)) behind

theorem closeNamed (located : Located ctx bound s) (boundary : IsBoundary ctx.content stop)
    (later : ∀ named ∈ s.named, named.start.offset ≤ stop) :
    Located ctx bound (s.closeNamed ctx stop) := by
  refine closeNamed_cases (fun _ => located) fun named value start stop' opened ends => ?_
  obtain ⟨reached, name, ordered⟩ := located.named named opened
  apply located.fillNamed
  rcases ends with ⟨rfl, rfl⟩ | ⟨rfl, rfl⟩
  · exact reached.sound boundary (later named opened)
  · exact ⟨name, reached.1.isBoundary, ordered.trans reached.2, .inl ordered⟩

/-! ## Text between words -/

theorem hold (located : Located ctx bound s) (noLong : s.longText = none) (text : String)
    {start : Cursor} (reached : Reached ctx bound start) :
    Located ctx bound (s.hold text start) := by
  have holding (held : Held) (reached : Reached ctx bound held.start) :
      Located ctx bound { s with held := some held } := by
    refine { located with held := ?_, long := by simp [noLong] }
    intro held' member
    rwa [← Option.some.inj member]
  exact hold_cases (fun held filled => holding _ (located.held held filled))
    fun _ => holding _ reached

theorem flushHeld (located : Located ctx bound s) (boundary : IsBoundary ctx.content stop)
    (later : bound ≤ stop) : Located ctx bound (s.flushHeld ctx stop) :=
  flushHeld_cases (fun _ => located) fun held filled =>
    located.unheld.place held.text (located.held_sound boundary later held filled) (by simp)

theorem placeText (located : Located ctx bound s) (noLong : s.longText = none) (text : String)
    {start : Cursor} (reached : Reached ctx bound start) (boundary : IsBoundary ctx.content stop)
    (later : bound ≤ stop) (next : Option Char) (justClosed : Bool) :
    Located ctx bound (s.placeText ctx text start stop next justClosed) := by
  refine placeText_cases ?passed ?glued ?held ?placed
  case passed => exact fun _ => located
  case glued => exact fun last _ _ _ _ _ => located.append boundary later last text
  case held => exact fun _ _ _ => located.hold noLong text reached
  case placed =>
    exact fun _ _ _ => located.place text (reached.sound boundary (reached.2.trans later))
      (located.held_sound boundary later)

/-! ## Markers -/

theorem openNamed {t : Token} {escapes : Nat} (located : Located ctx t.start.offset s)
    (inside : t.In ctx) (noLong : s.longText = none)
    (name : IsBoundary ctx.content (t.start.offset + escapes))
    (ahead : t.start.offset + escapes ≤ t.stop.offset) (family : Family) (option : OptionDecl)
    (justClosed : Bool) :
    Located ctx t.stop.offset (s.openNamed ctx t escapes family option justClosed) := by
  have here : Reached ctx t.start.offset t.start := ⟨inside.start, Nat.le_refl _⟩
  have start : IsBoundary ctx.content t.start.offset := inside.start.isBoundary
  refine openNamed_cases (Located ctx t.start.offset) (Located ctx t.start.offset) located
    ?placed ?busy ?flushed ?opened
  case placed => exact fun _ _ => located.placeText noLong _ here name (Nat.le_add_right ..) _ _
  case busy => exact fun _ placed _ => placed
  case flushed => exact fun _ placed _ _ => placed.flushHeld start (Nat.le_refl _)
  case opened =>
    intro s stop post flushed ends
    have closed : Located ctx t.start.offset (s.closeNamed ctx stop) := by
      have before (named : Named) (opened : s.named = some named) :
          named.start.offset ≤ t.start.offset := (flushed.named named opened).1.2
      rcases ends with rfl | rfl
      · exact flushed.closeNamed start before
      · exact flushed.closeNamed name fun named opened =>
          (before named opened).trans (Nat.le_add_right ..)
    have done := (closed.closeLastSlot start (Nat.le_refl _) post).mono inside.ahead.le
    refine { done with named := fun named member => ?_ }
    rw [← Option.some.inj member]
    exact ⟨⟨inside.stop, Nat.le_refl _⟩, name, ahead⟩

theorem onMarker {t : Token} {escapes : Nat} (located : Located ctx t.start.offset s)
    (inside : t.In ctx) (noLong : s.longText = none)
    (name : IsBoundary ctx.content (t.start.offset + escapes))
    (ahead : t.start.offset + escapes ≤ t.stop.offset) (opening : Opening) (word : String)
    (justClosed : Bool) :
    Located ctx t.stop.offset (s.onMarker ctx t escapes opening word justClosed) := by
  have locked (family : Option Family) :
      Located ctx t.start.offset { s with family := family } :=
    located.congr rfl rfl rfl rfl rfl rfl
  refine onMarker_cases ?passed ?placed ?opened
  case passed => exact fun family _ _ => (locked family).mono inside.ahead.le
  case placed =>
    exact fun family text _ _ => ((locked family).placeText noLong text
      ⟨inside.start, Nat.le_refl _⟩ inside.stop.isBoundary inside.ahead.le _ _).mono inside.ahead.le
  case opened =>
    exact fun family option _ _ _ _ => (locked family).openNamed inside noLong name ahead _ _ _

/-! ## Long texts -/

theorem openLong {long : LongText} (located : Located ctx bound s) (opened : long.Opened ctx bound)
    (behind : ∀ held ∈ s.held, held.start.offset ≤ long.body.offset) :
    Located ctx bound { s with longText := some long } := by
  refine { located with long := ?_ }
  intro long' member
  rw [← Option.some.inj member]
  exact ⟨opened, behind⟩

end Located

/-- A line feed in front of a place is left out. -/
theorem beforeFeed_isBoundary {text : List Char} {closing : Cursor} (place : closing.In text) :
    IsBoundary text (Block.beforeFeed closing) ∧ closing.offset ≤ Block.beforeFeed closing + 1 := by
  have lineFeed : '\n'.utf8Size = 1 := by decide
  unfold Block.beforeFeed
  split
  · rename_i feed
    obtain ⟨boundary, size⟩ := place.isBoundary_before (by simpa using feed)
    rw [lineFeed] at boundary size
    exact ⟨boundary, by omega⟩
  · exact ⟨place.isBoundary, Nat.le_succ _⟩

/-- The line feeds around code do not belong to it. It ends in front of its start only where
both are the same line feed, or where the first one ended the line in front of the code. -/
theorem feeds_around {text code : List Char} {front closing : Cursor} (place : front.In text)
    (split : front.rest = code ++ closing.rest) (ends : closing = front.past code closing.rest)
    (quote : closing.after = some '`') {body : Cursor} {stop : Nat}
    (bodyIs : Block.behindFeed front = body) (stopIs : Block.beforeFeed closing = stop) :
    body.offset ≤ closing.offset ∧
      (body.offset ≤ stop ∨ stop + 1 = body.offset ∧
        body.offset = closing.offset ∧ (code = ['\n'] ∨ code = [] ∧ front.before = some '\n')) := by
  have lineFeed : '\n'.utf8Size = 1 := by decide
  have place' : closing.In text := by
    rw [ends]
    exact place.past split
  have offset : closing.offset = front.offset + byteLength code := by rw [ends, Cursor.past_offset]
  have late := (beforeFeed_isBoundary place').2
  rw [stopIs] at late
  cases code with
  | nil =>
      have here : closing = front := by
        rw [ends, ← List.nil_append closing.rest, ← split]
        exact front.past_nil
      have same : body = front := by
        rw [← bodyIs, Block.behindFeed, ← here, quote, if_neg (by decide)]
      rw [same, ← here]
      refine ⟨Nat.le_refl _, ?_⟩
      unfold Block.beforeFeed at stopIs
      split at stopIs
      · rename_i feed
        have feed : closing.before = some '\n' := by simpa using feed
        have size := (place'.isBoundary_before feed).2
        exact .inr ⟨by omega, rfl, .inr ⟨rfl, feed⟩⟩
      · exact .inl stopIs.le
  | cons c code =>
      have after : front.after = some c := by rw [Cursor.after, split]; rfl
      rw [byteLength_cons] at offset
      have positive := c.utf8Size_pos
      by_cases feed : c = '\n'
      · subst feed
        have moved : body = front.past ['\n'] (code ++ closing.rest) := by
          rw [← bodyIs, Block.behindFeed, after, if_pos (by simp), Cursor.next_eq_past split]
          rfl
        have there : body.offset = front.offset + 1 := by simp [moved, lineFeed]
        refine ⟨by omega, ?_⟩
        cases code with
        | nil =>
            rw [byteLength_nil] at offset
            have before : closing.before = some '\n' := by rw [ends]; rfl
            rw [Block.beforeFeed, before, if_pos (by simp)] at stopIs
            exact .inr ⟨by omega, by omega, .inl rfl⟩
        | cons d code =>
            have positive := d.utf8Size_pos
            rw [byteLength_cons] at offset
            exact .inl (by omega)
      · have same : body = front := by
          rw [← bodyIs, Block.behindFeed, after, if_neg (by simpa using feed)]
        rw [same]
        exact ⟨by omega, .inl (by omega)⟩

/-- The code of a block stands behind the line with its language, if there is one. -/
theorem exists_code {start closing : Cursor} {block : List Char}
    (inner : start.rest = block ++ closing.rest) :
    ∃ line code, block = line ++ code ∧
      Block.codeLines start block = start.past line (code ++ closing.rest) ∧
      (line = [] ∨ line = Block.language block ++ ['\n'] ∧ Block.language block ≠ []) := by
  obtain ⟨rest, blockIs, drop, -⟩ := exists_span (fun c => !isBlank c) block
  unfold Block.codeLines
  cases known : Block.hasLanguage block with
  | false =>
      refine ⟨[], block, rfl, ?_, .inl rfl⟩
      rw [← inner, Cursor.past_nil]
      rfl
  | true =>
      simp only [Block.hasLanguage, Bool.and_eq_true, Bool.not_eq_true', beq_iff_eq,
        List.isEmpty_eq_false_iff] at known
      obtain ⟨code, behindLanguage⟩ := List.head?_eq_some_iff.1 known.2
      have lines : block = Block.language block ++ ['\n'] ++ code := by
        rw [List.append_assoc, List.singleton_append, ← behindLanguage]
        exact blockIs.trans (congrArg _ drop.symm)
      refine ⟨_, code, lines, ?_, .inr ⟨rfl, known.1⟩⟩
      have split : start.rest = Block.language block ++ ['\n'] ++ (code ++ closing.rest) := by
        rw [← List.append_assoc _ code, ← lines, inner]
      have moved := Cursor.forward_eq_past split
      simpa [Block.behindLanguage] using moved

/-- A block whose code is one line feed, or none behind the line of its language. -/
theorem exists_feeds {block line code : List Char} (lines : block = line ++ code)
    (lineIs : line = [] ∨ line = Block.language block ++ ['\n'] ∧ Block.language block ≠ [])
    (codeIs : code = ['\n'] ∨ code = []) (filled : block ≠ []) :
    ∃ name feeds, block = name ++ feeds ∧ (∀ c ∈ name, isBlank c = false) ∧
      (feeds = ['\n'] ∨ feeds = ['\n', '\n'] ∧ name ≠ []) := by
  have visible : ∀ c ∈ Block.language block, isBlank c = false := by
    intro c member
    simpa using List.all_eq_true.1 List.all_takeWhile c member
  generalize Block.language block = language at visible lineIs
  rcases lineIs with rfl | ⟨rfl, named⟩
  · rcases codeIs with rfl | rfl
    · exact ⟨[], ['\n'], lines, by simp, .inl rfl⟩
    · exact absurd lines filled
  · rcases codeIs with rfl | rfl
    · exact ⟨language, ['\n', '\n'], by simp [lines], visible, .inr ⟨rfl, named⟩⟩
    · exact ⟨language, ['\n'], by simp [lines], visible, .inl rfl⟩

/-- The code between two fences has a sound span, and stands behind the first one. -/
theorem code_sound {long : LongText} {closing : Cursor} (opened : long.Opened ctx bound)
    (backtick : long.quote = .backtick) (three : long.body.offset - long.start = 2)
    (closes : long.Closes ctx bound closing) :
    let lines := Block.codeLines long.body (long.body.textTo closing.offset)
    let body := Block.behindFeed lines
    lines.In ctx.content ∧ Reached ctx bound body ∧
      Span.Sound ctx.content bound ⟨body.offset, Block.beforeFeed closing⟩ := by
  intro lines body
  obtain ⟨before, count, whole, length⟩ := opened.quotes
  obtain ⟨ends, ahead, after, twice⟩ := closes
  have twice : closing.rest = '`' :: '`' :: after := by rw [twice, backtick]; rfl
  obtain rfl : count = 2 := by omega
  obtain ⟨block, inner, behindBlock⟩ := opened.body.1.exists_past ends.1 ahead.le
  have filled : block ≠ [] := by
    rintro rfl
    rw [behindBlock, Cursor.past_offset, byteLength_nil] at ahead
    omega
  have slice : long.body.textTo closing.offset = block := by
    rw [behindBlock, Cursor.past_offset]
    exact Cursor.textTo_eq_front inner
  obtain ⟨line, code, blockIs, front, lineIs⟩ := exists_code inner
  have front : lines = long.body.past line (code ++ closing.rest) := by
    unfold lines
    rw [slice, front]
  have lines' : lines.In ctx.content := by
    rw [front]
    apply opened.body.1.past
    rw [inner, blockIs, List.append_assoc]
  have closing' : closing = lines.past code closing.rest := by
    rw [front, Cursor.past_past, ← blockIs]
    exact behindBlock
  have quote : closing.after = some '`' := by rw [Cursor.after, twice]; rfl
  obtain ⟨end', ordered⟩ :=
    feeds_around lines' (by rw [front]; rfl) closing' quote (Eq.refl body) rfl
  have reached : Reached ctx bound body := ⟨Block.behindFeed_in lines', end'.trans ends.2⟩
  refine ⟨lines', reached, reached.1.isBoundary, (beforeFeed_isBoundary ends.1).1, reached.2,
    ordered.imp_right ?_⟩
  rintro ⟨early, same, cause⟩
  obtain ⟨name, feeds, split, visible, feeds'⟩ :=
    exists_feeds blockIs lineIs (cause.imp_right And.left) filled
  have text : ctx.content =
      before ++ (['`', '`', '`'] ++ (name ++ (feeds ++ (['`', '`'] ++ after)))) := by
    rw [whole, inner, twice, split, backtick, List.append_assoc]
    rfl
  refine ⟨before, name, feeds, after, text, visible, feeds', ?_, early⟩
  have total := ends.1.offset_add
  rw [text, twice] at total
  change body.offset = _
  simp only [byteLength_append, byteLength_cons, byteLength_nil] at total ⊢
  omega

namespace Located

theorem placeLanguage {long : LongText} (located : Located ctx bound s)
    (opened : s.longText = some long) {stop : Nat} (behind : IsBoundary ctx.content stop)
    (ahead : long.body.offset ≤ stop) (language : List Char) (hasLanguage : Bool) :
    Located ctx bound (s.placeLanguage ctx language hasLanguage long.body stop) ∧
      (s.placeLanguage ctx language hasLanguage long.body stop).longText = some long := by
  obtain ⟨opened', held⟩ := located.long long opened
  have sound (c : Cursor) (reached : Reached ctx bound c) (le : c.offset ≤ long.body.offset) :=
    reached.sound behind (le.trans ahead)
  refine placeLanguage_cases ?passed ?placed ?taken
  case passed => exact ⟨located, opened⟩
  case placed =>
    intro _ _
    refine ⟨located.place _ (sound _ opened'.body (Nat.le_refl _)) ?_, ?_⟩
    · exact fun text filled => sound _ (located.held text filled) (held text filled)
    · exact (puts_place ..).keeps.longText.trans opened
  case taken => exact fun slot _ => ⟨located.take _, ((Keeps.refl s).take _).longText.trans opened⟩

theorem closeCodeBlock {long : LongText} {closing : Cursor} (located : Located ctx bound s)
    (opened : s.longText = some long) (backtick : long.quote = .backtick)
    (three : long.body.offset - long.start = 2) (closes : long.Closes ctx bound closing) :
    Located ctx bound (s.closeCodeBlock ctx long closing) := by
  obtain ⟨lines, reached, sound⟩ := code_sound (located.long long opened).1 backtick three closes
  have start := Block.le_codeLines_offset long.body (long.body.textTo closing.offset)
  obtain ⟨placed, same⟩ := located.placeLanguage opened lines.isBoundary start
    (Block.language (long.body.textTo closing.offset))
    (Block.hasLanguage (long.body.textTo closing.offset))
  rw [closeCodeBlock_eq]
  exact placed.closed.placeLong _ reached sound fun text filled =>
    ((placed.long long same).2 text filled).trans (start.trans (Block.le_behindFeed_offset _))

/-- What a quote notes is opened by quotes, and a run that may close it starts with two. -/
theorem noteQuote {t : Token} {quote : Quote} {long : LongText}
    (located : Located ctx t.start.offset s) (inside : t.In ctx)
    (enabled : ctx.patterns.delimiters.isQuoteChar quote.char = true)
    (char : t.start.rest = quote.char :: t.stop.rest)
    (next : t.stop.offset = t.start.offset + 1) (notes : Notes t quote s.longText long) :
    Located ctx t.stop.offset { s with longText := some long } := by
  have moved := located.mono inside.ahead.le
  generalize before : s.longText = open' at notes
  cases notes with
  | opens =>
      obtain ⟨front, whole, -⟩ := inside.start
      refine moved.openLong ⟨⟨inside.stop, Nat.le_refl _⟩, enabled, ⟨front, 0, ?_, rfl⟩, by simp⟩ ?_
      · rw [whole, char]
        rfl
      · exact fun text filled => (moved.held text filled).2
  | @again long same here =>
      obtain ⟨opened, held⟩ := located.long long before
      exact moved.openLong (opened.withQuote inside here (same ▸ char) next) fun text filled =>
        (held text filled).trans (here ▸ inside.ahead.le)
  | @starts long same behind twice =>
      obtain ⟨opened, held⟩ := located.long long before
      obtain ⟨rest, follows⟩ := List.head?_eq_some_iff.1 twice
      exact moved.openLong ((opened.mono inside.ahead.le).withClosing
        ⟨⟨inside.start, inside.ahead.le⟩, lt_of_le_of_ne opened.body.2 behind, rest,
          by rw [char, follows, same]⟩) held
  | @goesOn long run _ _ known =>
      obtain ⟨opened, held⟩ := located.long long before
      have opened := opened.mono inside.ahead.le
      have closes := opened.closing run known
      exact moved.openLong (opened.withClosing ⟨closes.reached, closes.behind, closes.twice⟩) held

theorem onQuote {t : Token} {quote : Quote} {rest : List Char}
    (located : Located ctx t.start.offset s) (inside : t.In ctx)
    (enabled : ctx.patterns.delimiters.isQuoteChar quote.char = true)
    (split : t.start.rest = quote.char :: rest) (stop : t.stop = t.start.past [quote.char] rest) :
    Located ctx t.stop.offset (s.onQuote ctx t quote) := by
  have size : quote.char.utf8Size = 1 := by cases quote <;> decide
  have next : t.stop.offset = t.start.offset + 1 := by simp [stop, size]
  have split' : t.start.rest = quote.char :: t.stop.rest := by rw [split, stop, Cursor.past_rest]
  have moved := located.mono inside.ahead.le
  refine onQuote_cases ?noted ?passed ?closed ?block
  case noted => exact fun long notes => located.noteQuote inside enabled split' next notes
  case passed => exact fun _ => moved
  case closed =>
    intro long stop opened closes
    obtain ⟨opened', -⟩ := located.long long opened
    have ends : IsBoundary ctx.content stop ∧ long.body.offset ≤ stop := by
      rcases closes with rfl | ⟨run, known, rfl⟩
      · exact ⟨inside.start.isBoundary, opened'.body.2⟩
      · have closes := opened'.closing run known
        exact ⟨closes.reached.1.isBoundary, closes.behind.le⟩
    refine moved.closeLongText ends.1 fun long' known => ?_
    rw [← Option.some.inj (opened.symm.trans known)]
    exact ends.2
  case block =>
    intro long run opened backtick three known _
    exact moved.closeCodeBlock opened backtick three ((moved.long long opened).1.closing run known)

/-! ## Other tokens -/

theorem onDelimiter {t : Token} {c : Char} {rest : List Char}
    (located : Located ctx t.start.offset s) (inside : t.In ctx)
    (enabled : isDelimiterChar ctx.patterns.delimiters c = true) (split : t.start.rest = c :: rest)
    (stop : t.stop = t.start.past [c] rest) (justClosed : Bool) :
    Located ctx t.stop.offset (s.onDelimiter ctx t c justClosed) := by
  have cleared : Located ctx t.start.offset { s with escape := none } :=
    { located with escape := by simp }
  have here : Reached ctx t.start.offset t.start := ⟨inside.start, Nat.le_refl _⟩
  have boundary : IsBoundary ctx.content t.stop.offset := inside.stop.isBoundary
  have text {start : Cursor} (noLong : s.longText = none)
      (reached : Reached ctx t.start.offset start) :=
    (cleared.placeText noLong (String.ofList [c]) reached boundary inside.ahead.le t.stop.after
      justClosed).mono inside.ahead.le
  refine onDelimiter_cases ?passed ?escaped ?text ?value ?quoted
  case passed => exact fun _ => cleared.mono inside.ahead.le
  case escaped => exact fun start noLong escaped => text noLong (located.escape _ escaped)
  case text => exact fun noLong _ => text noLong here
  case value =>
    exact fun _ _ => (cleared.place _ (here.sound boundary inside.ahead.le)
      (cleared.held_sound boundary inside.ahead.le)).mono inside.ahead.le
  case quoted =>
    intro quote found
    obtain rfl := Quote.char_of_ofChar? found
    exact cleared.onQuote inside (isQuoteChar_of_isDelimiterChar enabled) split stop

theorem onWord {t : Token} (located : Located ctx t.start.offset s) (inside : t.In ctx)
    (justClosed : Bool) : Located ctx t.stop.offset (s.onWord ctx t justClosed) := by
  have here : Reached ctx t.start.offset t.start := ⟨inside.start, Nat.le_refl _⟩
  have boundary : IsBoundary ctx.content t.stop.offset := inside.stop.isBoundary
  have placed := located.place (String.ofList t.text) (here.sound boundary inside.ahead.le)
    (located.held_sound boundary inside.ahead.le)
  refine onWord_cases ?glued ?placed
  case glued =>
    exact fun last _ _ _ =>
      (located.append boundary inside.ahead.le last _).mono inside.ahead.le
  case placed => exact placed.mono inside.ahead.le

theorem onBackslashes {t : Token} (located : Located ctx t.start.offset s) (inside : t.In ctx)
    (count : Nat) (justClosed : Bool) :
    Located ctx t.stop.offset (s.onBackslashes ctx t count justClosed) := by
  have here : Reached ctx t.start.offset t.start := ⟨inside.start, Nat.le_refl _⟩
  have noted {escape : Option (Cursor × Nat)}
      (known : escape = s.escape ∨ escape = some (t.start, t.stop.offset)) :
      Located ctx t.start.offset { s with escape := escape } := by
    rcases known with rfl | rfl
    · exact located
    · refine { located with escape := fun escape member => ?_ }
      rwa [← Option.some.inj member]
  refine Located.mono ?_ inside.ahead.le
  refine onBackslashes_cases ?passed ?placed
  case passed => exact fun escape known _ => noted known
  case placed =>
    exact fun escape text known noLong => (noted known).placeText noLong _ here
      inside.stop.isBoundary inside.ahead.le _ _

theorem onOther {t : Token} {text rest : List Char} (located : Located ctx t.start.offset s)
    (inside : t.In ctx) (token : TokenFront ctx.patterns.delimiters t.kind text rest)
    (split : t.start.rest = text ++ rest) (stop : t.stop = t.start.past text rest)
    (justClosed : Bool) : Located ctx t.stop.offset (s.onOther ctx t justClosed) := by
  have moved := located.mono inside.ahead.le
  refine onOther_cases ?line ?passed ?backslashes ?delimiter ?word
  case line =>
    intro named found
    obtain ⟨opened, -⟩ := openSingle?_eq_some.1 found
    refine moved.closeNamed (located.named named opened).1.1.isBoundary ?_
    intro named' opened'
    rw [Option.some.inj (opened.symm.trans opened')]
  case passed => exact fun _ => moved
  case backslashes => exact fun count _ _ => located.onBackslashes inside count justClosed
  case delimiter =>
    intro c kind _
    rw [kind] at token
    cases token with
    | delimiter enabled => exact located.onDelimiter inside enabled split stop justClosed
  case word => exact fun _ _ _ => located.onWord inside justClosed

/-! ## Runs -/

theorem step {c : Cursor} {kind : TokenKind} {text rest : List Char}
    (located : Located ctx c.offset s) (place : c.In ctx.content)
    (token : TokenFront ctx.patterns.delimiters kind text rest) (split : c.rest = text ++ rest) :
    Located ctx (c.past text rest).offset (s.step ctx (.reading kind c text rest)) := by
  have inside : (Token.reading kind c text rest).In ctx := Token.reading_in place token split
  have quiet : Located ctx (Token.reading kind c text rest).start.offset
      { s with justClosed := false } := located.congr rfl rfl rfl rfl rfl rfl
  refine step_cases ?marker ?other
  case marker =>
    intro escapes opening name marker noLong
    obtain rfl : kind = .marker escapes opening name := marker
    refine quiet.onMarker inside noLong (token.escapes_isBoundary place split) ?_ _ _ _
    rw [Token.reading, Cursor.past_offset]
    exact Nat.add_le_add_left token.escapes_le _
  case other => exact fun _ => quiet.onOther inside token split rfl s.justClosed

theorem sweep {c : Cursor} (located : Located ctx c.offset s) (inside : c.In ctx.content) :
    Located ctx ctx.length (s.sweep ctx c) := by
  induction c, s using sweep_induction ctx with
  | finish c s ends =>
      rcases ends with ends | stops
      · rw [sweep_end ends]
        exact located.mono inside.offset_le
      · rw [sweep_of_stops stops]
        exact located.mono inside.offset_le
  | skip c s x rest split _ none _ ih =>
      rw [sweep_skip split none]
      refine ih (located.mono ?_) (inside.past split)
      rw [Cursor.past_offset]
      exact Nat.le_add_right ..
  | token c s kind text rest split front found stops ih =>
      rw [sweep_token split found stops]
      exact ih (located.step inside front split) (inside.past split)

theorem closeAll (located : Located ctx ctx.length s) :
    Located ctx ctx.length (s.closeAll ctx) := by
  have boundary : IsBoundary ctx.content ctx.length := isBoundary_length ctx.content
  have last := located.closeLastSlot boundary (Nat.le_refl _) []
  have named := last.closeNamed boundary fun named opened => (last.named named opened).1.2
  exact named.closeLongText boundary fun long opened => (named.long long opened).1.body.2

theorem fillReplied? {message : Option Message}
    (filled : (State.initial ctx).fillReplied? ctx message = some s) : Located ctx 0 s := by
  obtain ⟨option, replied, slot, -, -, rfl⟩ := fillReplied?_eq_some filled
  rw [take_frame]
  exact (initial ctx).congr rfl rfl rfl rfl rfl rfl

theorem run (ctx : Context) (message : Option Message) :
    Located ctx ctx.length (State.run ctx message) := by
  have whole {s : State} (located : Located ctx 0 s) :
      Located ctx ctx.length ((s.sweep ctx (Cursor.start ctx.content)).closeAll ctx) :=
    closeAll (sweep located (Cursor.start_in ctx.content))
  unfold State.run
  extract_lets s tokens
  split
  · rename_i s filled
    have located : Located ctx 0 s := .fillReplied? filled
    split
    · exact located.mono (Nat.zero_le _)
    · exact whole located
  · exact whole (initial ctx)

end Located

end State

end Parse

open Parse

/-- Every span that a parse answers is one of the text. -/
theorem Table.parse_span_sound (table : Table) (config : Config) (patterns : Patterns)
    (content : String) (message : Option Message) {name : String} {span : Span}
    (found : (table.parse config patterns content message).span? name = some span) :
    span.Sound content.toList content.utf8ByteSize := by
  unfold Table.parse at found
  split at found
  · simp [Args.span?, Args.ofContent, Entries.get?, Entries.find] at found
  · rw [← byteLength_toList]
    exact (State.Located.run _ message).spans name span found

theorem Command.parse_span_sound (command : Command) (shared : Config) (content : String)
    (message : Option Message) {name : String} {span : Span}
    (found : (command.parse shared content message).span? name = some span) :
    span.Sound content.toList content.utf8ByteSize :=
  Table.parse_span_sound _ _ _ content message found

/-- Both ends of a span lie in the text, and the text can be cut there. -/
theorem Command.parse_span_valid (command : Command) (shared : Config) (content : String)
    (message : Option Message) {name : String} {span : Span}
    (found : (command.parse shared content message).span? name = some span) :
    (span.start ≤ content.utf8ByteSize ∧ span.stop ≤ content.utf8ByteSize) ∧
      String.Pos.Raw.IsValid content ⟨span.start⟩ ∧
      String.Pos.Raw.IsValid content ⟨span.stop⟩ := by
  obtain ⟨start, stop, -, -⟩ := command.parse_span_sound shared content message found
  rw [← byteLength_toList]
  exact ⟨⟨start.le_length, stop.le_length⟩, start.isValid, stop.isValid⟩

/-- In a block of code with a language, next to characters of two bytes. -/
theorem Command.parse_span_valid_block :
    (Command.parse ⟨"c", [{ name := "x" }], none⟩ {} "```rs\né\n```é" none).span? "x" =
        some ⟨6, 8⟩ ∧
      String.Pos.Raw.IsValid "```rs\né\n```é" ⟨6⟩ ∧
      String.Pos.Raw.IsValid "```rs\né\n```é" ⟨8⟩ := by
  have found : (Command.parse ⟨"c", [{ name := "x" }], none⟩ {} "```rs\né\n```é" none).span? "x" =
      some ⟨6, 8⟩ := by decide +kernel
  exact ⟨found, (Command.parse_span_valid _ {} "```rs\né\n```é" none found).2⟩

theorem Command.parse_content (command : Command) (shared : Config) (content : String)
    (message : Option Message) : (command.parse shared content message).content = content := by
  unfold Command.parse Table.parse
  simp only
  split <;> rfl

/-- A span is in order and has a slice, unless it is the one of a block without code: then it
ends a byte in front of its start, and there is no slice. -/
theorem Command.parse_span_ordered (command : Command) (shared : Config) (content : String)
    (message : Option Message) {name : String} {span : Span}
    (found : (command.parse shared content message).span? name = some span) :
    (span.start ≤ span.stop ∧
        ((command.parse shared content message).slice? name).isSome = true) ∨
      (EmptyBlock content.toList span ∧
        (command.parse shared content message).slice? name = none) := by
  obtain ⟨start, stop, -, ordered⟩ := command.parse_span_sound shared content message found
  unfold Args.slice?
  rw [found, command.parse_content]
  rcases ordered with ordered | empty
  · refine .inl ⟨ordered, ?_⟩
    simpa using sliceBytes?_isSome start stop ordered
  · have reversed : span.stop < span.start := by
      obtain ⟨_, _, _, _, -, -, -, -, early⟩ := empty
      omega
    refine .inr ⟨empty, ?_⟩
    simp [sliceBytes?, reversed]

/-- One line feed between the quotes of a block is taken twice. -/
theorem Command.parse_span_ordered_block :
    (Command.parse ⟨"c", [{ name := "x" }], none⟩ {} "```\n```" none).span? "x" = some ⟨4, 3⟩ ∧
      EmptyBlock "```\n```".toList ⟨4, 3⟩ := by
  have found : (Command.parse ⟨"c", [{ name := "x" }], none⟩ {} "```\n```" none).span? "x" =
      some ⟨4, 3⟩ := by decide +kernel
  refine ⟨found, ?_⟩
  rcases Command.parse_span_ordered _ {} "```\n```" none found with ⟨ordered, -⟩ | ⟨empty, -⟩
  · exact absurd ordered (by decide)
  · exact empty

/-- Not every span is in order and has a slice. -/
theorem Command.parse_span_reversed :
    ¬ ∀ (command : Command) (shared : Config) (content : String) (message : Option Message)
      (name : String) (span : Span),
      (command.parse shared content message).span? name = some span →
      span.start ≤ span.stop ∧
        ((command.parse shared content message).slice? name).isSome = true := by
  intro ordered
  have block := ordered ⟨"c", [{ name := "x" }], none⟩ {} "```\n```" none "x" ⟨4, 3⟩
    (by decide +kernel)
  exact absurd block.1 (by decide)

end ChatArgs
