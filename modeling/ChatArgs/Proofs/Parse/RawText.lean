import ChatArgs.Proofs.Parse.CodeBlock
import ChatArgs.Proofs.Parse.FirstValue

/-!
# Source code as it is written

Under the settings for source code the only slot takes the text as it is written from its first
token on, and the parse ends there. What is held in front of that token was read before: a run of
backslashes is halved, and one that escapes a delimiter is dropped. `keepsRaw` says of which tokens
nothing in front of the value is rewritten, and `foundFrom_raw_iff` that only then the value is the
text as it is written.
-/

namespace ChatArgs

namespace Parse

open Text

def escapesPlain (d : Delimiters) (next : Option Char) : Bool :=
  !(next.bind Quote.ofChar?).isSome && d.escapesNext none next

/-- Nothing in front of the slot is rewritten: its tokens are held as they are written, or they are
a part of the value. -/
def keepsRaw (d : Delimiters) : List Token → Bool
  | [] => false
  | t :: ts =>
      match t.kind with
      | .word | .delimiter _ => true
      | .lineFeeds => keepsRaw d ts
      | .marker .. => !isVisible t.stop.after || keepsRaw d ts
      | .backslashes count =>
          let escapes := escapesPlain d t.stop.after
          if !isVisible t.stop.after then count != 1 || !escapes
          -- A single backslash is kept, unless a delimiter is held behind it.
          else count == 1 && (if escapes then !isVisible t.stop.next.after else keepsRaw d ts)

section

variable (d : Delimiters) (c : Cursor) (text rest : List Char) (ts : List Token)

theorem keepsRaw_marker (escapes : Nat) (opening : Opening) (name : String) :
    keepsRaw d (.reading (.marker escapes opening name) c text rest :: ts) =
      (!isVisible rest.head? || keepsRaw d ts) := rfl

theorem keepsRaw_backslashes_hidden (count : Nat) (hidden : isVisible rest.head? = false) :
    keepsRaw d (.reading (.backslashes count) c text rest :: ts) =
      (count != 1 || !escapesPlain d rest.head?) := by
  have after : (Token.reading (.backslashes count) c text rest).stop.after = rest.head? := rfl
  have kind : (Token.reading (.backslashes count) c text rest).kind = .backslashes count := rfl
  simp [keepsRaw, kind, after, hidden]

theorem keepsRaw_backslashes_visible (count : Nat) {v : Char} (visible : isGap v = false) :
    keepsRaw d (.reading (.backslashes count) c text (v :: rest) :: ts) =
      (count == 1 &&
        (if escapesPlain d (some v) then !isVisible rest.head? else keepsRaw d ts)) := by
  have after : (Token.reading (.backslashes count) c text (v :: rest)).stop.after = some v := rfl
  have next : (Token.reading (.backslashes count) c text (v :: rest)).stop.next.after =
    rest.head? := rfl
  have kind :
      (Token.reading (.backslashes count) c text (v :: rest)).kind = .backslashes count := rfl
  simp [keepsRaw, kind, after, next, visible]

end

theorem dropWhile_of_visible {cs : List Char} (visible : isVisible cs.head? = true) :
    cs.dropWhile isGap = cs := by
  cases cs with
  | nil => rfl
  | cons v cs => exact List.dropWhile_cons_of_neg (by simpa using visible)

/-- The settings for source code, and one slot. -/
structure ReadsCode (ctx : Context) (x : OptionDecl) : Prop where
  slots : ctx.table.slots = [x]
  count : ctx.table.optionCount = 1
  active : ctx.patterns.delimiters.isActive = true
  plainLast : ctx.config.plainLast.isSome = true
  early : ctx.config.stopWhenFilled = true
  noFence : ¬ fence <:+: ctx.content

/-! ## How a value begins -/

/-- The text begins with no blank, and not with a backslash alone or in front of a blank. -/
inductive Begins : List Char → Prop
  | char {a : Char} {cs : List Char} : isBlank a = false → a ≠ '\\' → Begins (a :: cs)
  | pair {a b : Char} {cs : List Char} : isBlank a = false → isBlank b = false →
      Begins (a :: b :: cs)

theorem Begins.visible {cs : List Char} (begins : Begins cs) :
    ∃ a rest, cs = a :: rest ∧ isBlank a = false := by
  cases begins with
  | char visible _ => exact ⟨_, _, rfl, visible⟩
  | pair visible _ => exact ⟨_, _, rfl, visible⟩

theorem Begins.trim {cs : List Char} (begins : Begins cs) {front : List Char}
    (starts : StartsVisibly front) :
    ∃ more, Text.trim (front ++ cs) = front ++ more ∧ Begins more := by
  cases begins with
  | char visible other =>
      exact ⟨_, trim_append_of_visible starts visible _, .char visible other⟩
  | @pair a b cs visible visible' =>
      refine ⟨a :: b :: trimEnd cs, ?_, .pair visible visible'⟩
      rw [trim_append_of_visible starts visible]
      exact congrArg (front ++ a :: ·) (trimEnd_append_of_visible [] visible' cs)

theorem TokenFront.startsVisibly {d : Delimiters} {kind : TokenKind} {text rest : List Char}
    (front : TokenFront d kind text rest) (inLine : kind ≠ .lineFeeds) : StartsVisibly text :=
  .of_forall fun b member => isBlank_of_isGap (front.visible inLine b member)

theorem TokenFront.dropWhile_isGap {d : Delimiters} {kind : TokenKind} {text rest : List Char}
    (front : TokenFront d kind text rest) (inLine : kind ≠ .lineFeeds) :
    (text ++ rest).dropWhile isGap = text ++ rest := by
  obtain ⟨a, text, rfl⟩ := List.exists_cons_of_ne_nil front.ne_nil
  rw [List.cons_append, List.dropWhile_cons_of_neg]
  simp [front.visible inLine a List.mem_cons_self]

theorem startsVisibly_backslashes (count : Nat) : StartsVisibly (backslashes count) :=
  .of_forall fun b member => isBlank_of_isGap (backslashes_visible b member)

theorem trim_backslashes {front : List Char} (starts : StartsVisibly front) (count : Nat) {v : Char}
    (visible : isGap v = false) (cs : List Char) :
    trim (front ++ (backslashes count ++ v :: cs)) =
      front ++ (backslashes count ++ v :: trimEnd cs) := by
  have starts' := starts.append (startsVisibly_backslashes count)
  rw [← List.append_assoc, trim_append_of_visible starts' (isBlank_of_isGap visible),
    List.append_assoc]

theorem trim_backslashes_ne {front : List Char} (starts : StartsVisibly front) {m n : Nat}
    {v : Char} (visible : isGap v = false) (other : v ≠ '\\') (differ : m ≠ n)
    (cs more : List Char) :
    String.ofList (trim (front ++ (backslashes n ++ v :: cs))) ≠
      String.ofList (front ++ (backslashes m ++ v :: more)) := by
  rw [trim_backslashes starts n visible, ne_eq, String.ofList_inj, List.append_cancel_left_eq]
  exact fun same => differ (backslashes_append_inj other other same).symm

theorem begins_token {d : Delimiters} {kind : TokenKind} {text rest : List Char}
    (front : TokenFront d kind text rest) (active : d.isActive = true)
    (inLine : kind ≠ .lineFeeds) (other : ∀ count, kind ≠ .backslashes count)
    (more : List Char) : Begins (text ++ more) := by
  have shown := front.visible inLine
  have pair (long : 2 ≤ text.length) : Begins (text ++ more) := by
    match text, long with
    | a :: b :: text, _ =>
        exact .pair (isBlank_of_isGap (shown a (by simp))) (isBlank_of_isGap (shown b (by simp)))
  cases front with
  | hyphens count _ valid _ =>
      obtain ⟨⟨first, start, -⟩, -⟩ := valid
      have filled := List.length_pos_of_mem (List.mem_of_mem_head? start)
      apply pair
      simp only [List.length_append, List.length_replicate, length_backslashes]
      omega
  | colon _ filled _ _ =>
      have positive := List.length_pos_iff.2 filled
      apply pair
      simp only [List.length_append, List.length_singleton, length_backslashes]
      omega
  | delimiter isDelimiter =>
      exact .char (isBlank_of_isGap (shown _ List.mem_cons_self))
        (ne_backslash_of_isDelimiterChar isDelimiter)
  | word filled inside _ =>
      obtain ⟨a, text, rfl⟩ := List.exists_cons_of_ne_nil filled
      refine .char (isBlank_of_isGap (shown a List.mem_cons_self)) ?_
      rintro rfl
      simpa [isWordChar, active] using inside '\\' List.mem_cons_self
  | backslashes => exact absurd rfl (other _)
  | lineFeeds => exact absurd rfl inLine

theorem begins_backslashes {cs : List Char} (begins : Begins cs) {count : Nat}
    (positive : 0 < count) : Begins (backslashes count ++ cs) := by
  match count, positive with
  | 1, _ =>
      obtain ⟨a, rest, rfl, visible⟩ := begins.visible
      exact .pair (by decide) visible
  | count + 2, _ => exact .pair (by decide) (by decide)

theorem isDelimiterChar_of_escapesPlain {d : Delimiters} {v : Char}
    (special : escapesPlain d (some v) = true) (visible : isGap v = false) :
    isDelimiterChar d v = true ∧ d.isQuoteChar v = false := by
  simp only [escapesPlain, Option.bind_some, Bool.and_eq_true, Bool.not_eq_true'] at special
  constructor
  · exact (isDelimiterChar_of_escapesNext special.2).resolve_left (by
      simp [isBlank_of_isGap visible])
  · cases quoted : d.isQuoteChar v with
    | false => rfl
    | true =>
        obtain ⟨q, -, rfl⟩ := exists_quote_of_isQuoteChar quoted
        simp at special

theorem escapesPlain_of_hidden {d : Delimiters} (active : d.isActive = true)
    {next : Option Char} (hidden : isVisible next = false) :
    escapesPlain d next = true ∨ ∃ z, next = some z ∧ isBlank z = false := by
  cases next with
  | none =>
      exact .inl (by simp [escapesPlain, Delimiters.escapesNext, Delimiters.textEscapes, active])
  | some z =>
      cases blank : isBlank z with
      | false => exact .inr ⟨z, rfl, blank⟩
      | true =>
          have noQuote : Quote.ofChar? z = none := by
            cases found : Quote.ofChar? z with
            | none => rfl
            | some q =>
                obtain rfl := Quote.char_of_ofChar? found
                cases q <;> exact absurd blank (by decide)
          left
          simp [escapesPlain, noQuote, Delimiters.escapesNext, Delimiters.textEscapes, active,
            EscapeSet.contains, blank]

/-- A run that keeps a backslash begins visibly, also where it is the last one of its word. -/
theorem begins_keptBackslashes {d : Delimiters} (active : d.isActive = true) {count : Nat}
    {rest : List Char} (positive : 0 < count) (hidden : isVisible rest.head? = false)
    (kept : keptCount count (escapesPlain d rest.head?) ≠ 0) :
    Begins (backslashes count ++ rest) := by
  match count, positive with
  | 1, _ =>
      rcases escapesPlain_of_hidden active hidden with special | ⟨z, next, visible⟩
      · exact absurd ((keptCount_eq_zero_iff Nat.one_pos).2 ⟨rfl, special⟩) kept
      · obtain ⟨rest, rfl⟩ := List.head?_eq_some_iff.1 next
        exact .pair (by decide) visible
  | count + 2, _ => exact .pair (by decide) (by decide)

namespace State

variable {ctx : Context} {x : OptionDecl} {held : Option Held} {escape : Option (Cursor × Nat)}

/-! ## The slot -/

section

variable (reads : ReadsCode ctx x)
include reads

/-- Once the slot is filled, it takes the text as it is written. -/
theorem filledFrom_code (value : List Char) {start : Cursor} (inside : start.In ctx.content)
    (c : Cursor) :
    filledFrom ctx held escape value start c =
      ⟨[(x.name, String.ofList (trim (heldText held ++ start.rest)))]⟩ := by
  obtain ⟨span, filled⟩ := fillSlot_waiting reads.slots value start c.offset
  have stops : ((waiting ctx held escape).fillSlot ctx (String.ofList value) start c.offset
      false).stops ctx = true := by
    rw [filled]
    simp [State.stops, reads.early, allFilled, reads.count, State.filled]
  have raw : start.textTo ctx.length = start.rest := inside.textTo_end
  rw [filledFrom, sweep_of_stops stops, filled]
  simp [closeAll, closeLastSlot, closeNamed, closeLongText, State.filled, reads.plainLast,
    reads.early, raw, setValue, Entries.insert, Entries.put]

theorem placedFrom_code (text : List Char) {start : Cursor} (inside : start.In ctx.content)
    (c : Cursor) :
    placedFrom ctx held escape text start c =
      if isVisible c.after then foundFrom ctx (holding held text start) escape c
      else ⟨[(x.name, String.ofList (trim (heldText held ++ start.rest)))]⟩ := by
  rw [placedFrom, filledFrom_code reads text inside]

theorem quotesArePlain_waiting : (waiting ctx held escape).quotesArePlain ctx = true := by
  simp [quotesArePlain, reads.plainLast, waiting, initial, oneSlotLeft, remaining, reads.slots]

/-- Quotes are plain text, so that a run of backslashes escapes none. -/
theorem escapesPlain_eq {next : Option Char} :
    escapesPlain ctx.patterns.delimiters next =
      (!((next.bind Quote.ofChar?).isSome && (waiting ctx held escape).quotesArePlain ctx) &&
        ctx.patterns.delimiters.escapesNext none next) := by
  rw [quotesArePlain_waiting reads, Bool.and_true, escapesPlain]

theorem goes_initial : (initial ctx).stops ctx = false := by
  simp [State.stops, allFilled, reads.count, initial]

/-! ## Tokens in front of the slot -/

variable {c : Cursor} {text rest : List Char} (split : c.rest = text ++ rest)
include split

theorem code_backslashes (held : Option Held) (escape : Option (Cursor × Nat))
    (inside : c.In ctx.content) {count : Nat}
    (found : tokenAt? ctx.patterns.delimiters c.rest = some (.backslashes count, text.length)) :
    let escapes := escapesPlain ctx.patterns.delimiters rest.head?
    let kept := keptCount count escapes
    let behind := c.past text rest
    let escape' := if count % 2 == 1 && escapes then some (c, behind.offset) else escape
    foundFrom ctx held escape c =
      if kept = 0 then foundFrom ctx held escape' behind
      else if isVisible rest.head? then
        foundFrom ctx (holding held (backslashes kept) c) escape' behind
      else ⟨[(x.name, String.ofList (trim (heldText held ++ c.rest)))]⟩ := by
  intro escapes kept behind escape'
  rw [foundFrom_backslashes (goes_initial reads) split found (escapesPlain_eq reads),
    placedFrom_code reads _ inside]
  rfl

theorem code_bare (inside : c.In ctx.content) {y : Char}
    (found : tokenAt? ctx.patterns.delimiters c.rest = some (.delimiter y, text.length))
    (unescaped : ∀ start, escape ≠ some (start, c.offset)) :
    foundFrom ctx held escape c =
      ⟨[(x.name, String.ofList (trim (heldText held ++ c.rest)))]⟩ := by
  have isValue : (waiting ctx held none).delimiterIsValue ctx
      (.reading (.delimiter y) c text rest) = true := by
    obtain ⟨plain, plainLast⟩ := Option.isSome_iff_exists.1 reads.plainLast
    have noFence : fence.isPrefixOf c.rest = false := by
      rw [Bool.eq_false_iff, ne_eq, List.isPrefixOf_iff_prefix]
      intro front
      obtain ⟨before, whole, -, -⟩ := inside
      exact reads.noFence (front.isInfix.trans ⟨before, [], by simp [whole]⟩)
    have start : (Token.reading (.delimiter y) c text rest).start.rest = c.rest := rfl
    have noLong : (waiting ctx held none).longText.isNone = true := rfl
    have text : ['`', '`', '`'] = fence := rfl
    simp only [delimiterIsValue, plainLast, start, text, noFence, noLong,
      quotesArePlain_waiting reads, Bool.and_false, Bool.not_false, Bool.and_true]
  rw [foundFrom_delimiterValue (goes_initial reads) split found unescaped isValue,
    filledFrom_code reads [y] inside]

end

/-! ## What goes on behind held text -/

/-- If the option has a value, it is the text in front and what goes on behind it, which begins
visibly. -/
def Continues (values : Entries String) (name : String) (front : List Char) : Prop :=
  ∀ value, values.get? name = some value →
    ∃ more, value = String.ofList (front ++ more) ∧ Begins more

theorem Continues.behind {values : Entries String} {name : String} {front text : List Char}
    (continues : Continues values name (front ++ text))
    (begins : ∀ more, Begins more → Begins (text ++ more)) : Continues values name front := by
  intro value found
  obtain ⟨more, same, begins'⟩ := continues value found
  exact ⟨text ++ more, by rw [same, List.append_assoc], begins more begins'⟩

theorem Continues.filled {front rest : List Char} (starts : StartsVisibly front)
    (begins : Begins rest) (name : String) :
    Continues ⟨[(name, String.ofList (Text.trim (front ++ rest)))]⟩ name front := by
  intro value found
  obtain ⟨more, trimmed, begins'⟩ := begins.trim starts
  refine ⟨more, ?_, begins'⟩
  rw [trimmed, get?_single] at found
  exact (Option.some.inj found).symm

section

variable (reads : ReadsCode ctx x) {c : Cursor} (undeclared : Undeclared ctx c)
  (starts : StartsVisibly (heldText held))
include reads starts

theorem continues_placed {text : List Char} {start : Cursor} (inside : start.In ctx.content)
    (begins : isVisible c.after = false → Begins start.rest)
    (begins' : ∀ more, Begins more → Begins (text ++ more)) (visible : StartsVisibly text)
    (behind : ∀ held', StartsVisibly (heldText held') →
      Continues (foundFrom ctx held' escape c) x.name (heldText held')) :
    Continues (placedFrom ctx held escape text start c) x.name (heldText held) := by
  rw [placedFrom_code reads text inside]
  split
  · have further := behind (holding held text start) (by
      rw [heldText_holding]
      exact starts.append visible)
    rw [heldText_holding] at further
    exact further.behind begins'
  · rename_i hidden
    exact .filled starts (begins (by simpa using hidden)) x.name

theorem continues_delimiter {y : Char} {run : Nat} {text rest : List Char}
    (inside : c.In ctx.content) (split : c.rest = text ++ rest)
    (front : TokenFront ctx.patterns.delimiters (.delimiter y) text rest)
    (token : tokenAt? ctx.patterns.delimiters c.rest = some (.delimiter y, text.length))
    (escapes : EscapesAt ctx c run escape)
    (further : ∀ held' escape', StartsVisibly (heldText held') →
      EscapesAt ctx (c.past text rest) 0 escape' →
      Continues (foundFrom ctx held' escape' (c.past text rest)) x.name (heldText held')) :
    Continues (foundFrom ctx held escape c) x.name (heldText held) := by
  have goes := goes_initial reads
  have begins (more : List Char) : Begins (text ++ more) :=
    begins_token front reads.active (by simp) (by simp) more
  cases escapes with
  | passed before =>
      rw [code_bare reads split inside token fun start escaped =>
        absurd (before start _ escaped) (Nat.lt_irrefl _)]
      exact .filled starts (split ▸ begins rest) x.name
  | @here start run positive insideStart whole =>
      have single := front.startsVisibly (by simp)
      rw [foundFrom_escaped goes split token]
      cases front with
      | delimiter _ =>
          apply continues_placed reads starts insideStart _ (fun more _ => begins more) single
            fun held' starts' => further held' _ starts' (.none ctx _)
          intro _
          rw [whole, split]
          exact begins_backslashes (begins rest) positive

theorem continues_backslashes {count run : Nat} {text rest : List Char}
    (inside : c.In ctx.content) (split : c.rest = text ++ rest)
    (front : TokenFront ctx.patterns.delimiters (.backslashes count) text rest)
    (token : tokenAt? ctx.patterns.delimiters c.rest = some (.backslashes count, text.length))
    (escapes : EscapesAt ctx c run escape)
    (further : ∀ held' escape' run', StartsVisibly (heldText held') →
      EscapesAt ctx (c.past text rest) run' escape' →
      Continues (foundFrom ctx held' escape' (c.past text rest)) x.name (heldText held')) :
    Continues (foundFrom ctx held escape c) x.name (heldText held) := by
  obtain ⟨positive, -, -, rfl⟩ := front.backslashes_inv
  have escapes' := escapes.backslashes inside positive split
    (count % 2 == 1 && escapesPlain ctx.patterns.delimiters rest.head?)
  rw [foundFrom_backslashes (goes_initial reads) split token (escapesPlain_eq reads)]
  split
  · exact further _ _ _ starts escapes'
  · rename_i kept
    apply continues_placed reads starts inside _
      (fun more begins => begins_backslashes begins (Nat.pos_of_ne_zero kept))
      (startsVisibly_backslashes _) fun held' starts' => further held' _ _ starts' escapes'
    intro hidden
    rw [Cursor.past_after] at hidden
    rw [split]
    exact begins_keptBackslashes reads.active positive hidden kept

include undeclared

/-- Held text stays in front of the value, and what goes on behind it begins visibly. -/
theorem continues_foundFrom {run : Nat} (inside : c.In ctx.content)
    (escapes : EscapesAt ctx c run escape) :
    Continues (foundFrom ctx held escape c) x.name (heldText held) := by
  have goes := goes_initial reads
  induction c using tokensAt_induction ctx.patterns.delimiters generalizing held escape run with
  | finish c ends =>
      intro value found
      simp [foundFrom_end ends, Entries.get?, Entries.find] at found
  | skip c y rest split gap none ih =>
      rw [foundFrom_skip split none]
      exact ih (undeclared.skip split none) starts (inside.past split)
        (escapes.past (by simp))
  | token c kind text rest split front token ih =>
      obtain ⟨opensNone, undeclared⟩ := undeclared.token split token
      have behind := inside.past split
      have passed : EscapesAt ctx (c.past text rest) 0 escape := escapes.past front.ne_nil
      have begins (inLine : kind ≠ .lineFeeds) (other : ∀ count, kind ≠ .backslashes count)
          (more : List Char) : Begins (text ++ more) :=
        begins_token front reads.active inLine other more
      cases kind with
      | lineFeeds =>
          rw [foundFrom_lineFeeds goes split token]
          exact ih undeclared starts behind passed
      | word =>
          rw [foundFrom_word goes split token, filledFrom_code reads text inside]
          exact .filled starts (split ▸ begins (by simp) (by simp) rest) x.name
      | marker count opening name =>
          have begins := begins (by simp) (by simp)
          rw [foundFrom_marker goes split token (opensNone _ _ _ rfl)]
          exact continues_placed reads starts inside (fun _ => split ▸ begins rest)
            (fun more _ => begins more) (front.startsVisibly (by simp))
            fun _ starts' => ih undeclared starts' behind passed
      | delimiter y =>
          exact continues_delimiter reads starts inside split front token escapes
            fun _ _ starts' escapes' => ih undeclared starts' behind escapes'
      | backslashes count =>
          exact continues_backslashes reads starts inside split front token escapes
            fun _ _ _ starts' escapes' => ih undeclared starts' behind escapes'

/-- The value goes on behind held text with the visible character that stands there. -/
theorem foundFrom_visible (inside : c.In ctx.content) {v : Char} {cs : List Char}
    (here : c.rest = v :: cs) (visible : isGap v = false) (other : v ≠ '\\') {value : String}
    (found : (foundFrom ctx held none c).get? x.name = some value) :
    ∃ more, value = String.ofList (heldText held ++ v :: more) := by
  have goes := goes_initial reads
  have filled (got : (⟨[(x.name, String.ofList (Text.trim (heldText held ++ c.rest)))]⟩ :
        Entries String).get? x.name = some value) :
      ∃ more, value = String.ofList (heldText held ++ v :: more) := by
    rw [here, trim_append_of_visible starts (isBlank_of_isGap visible)] at got
    exact ⟨_, (Option.some.inj ((get?_single _).symm.trans got)).symm⟩
  rcases tokenAt?_cases ctx.patterns.delimiters v cs with
    ⟨-, gap⟩ | ⟨kind, text, rest, split, front, token⟩
  · simp [visible] at gap
  · obtain ⟨a, text, rfl⟩ := List.exists_cons_of_ne_nil front.ne_nil
    obtain rfl : v = a := (List.cons.inj split).1
    rw [← here] at split token
    cases kind with
    | word =>
        rw [foundFrom_word goes split token, filledFrom_code reads _ inside] at found
        exact filled found
    | delimiter y =>
        rw [code_bare reads split inside token (by simp)] at found
        exact filled found
    | marker count opening name =>
        obtain ⟨opensNone, undeclared⟩ := undeclared.token split token
        rw [foundFrom_marker goes split token (opensNone _ _ _ rfl),
          placedFrom_code reads _ inside] at found
        split at found
        · have starts' : StartsVisibly (heldText (holding held (v :: text) c)) := by
            rw [heldText_holding]
            exact starts.append (front.startsVisibly (by simp))
          obtain ⟨more, same, -⟩ := continues_foundFrom reads undeclared starts'
            (inside.past split) (.none ctx _) value found
          exact ⟨text ++ more, by rw [same, heldText_holding]; simp⟩
        · exact filled found
    | backslashes count => exact absurd rfl (front.ne_backslashes other count)
    | lineFeeds =>
        rw [front.lineFeed_of_mem List.mem_cons_self] at visible
        exact absurd visible (by decide)

end

/-! ## What is kept -/

/-- A run of backslashes in front of a visible character: some are held, and the delimiter behind
them may be escaped. -/
theorem foundFrom_run (reads : ReadsCode ctx x) (held : Option Held)
    (escape : Option (Cursor × Nat)) {c : Cursor} {count : Nat} {v : Char} {rest : List Char}
    (split : c.rest = backslashes count ++ v :: rest)
    (inside : c.In ctx.content) (visible : isGap v = false)
    (found : tokenAt? ctx.patterns.delimiters c.rest =
      some (.backslashes count, (backslashes count).length)) :
    let escapes := escapesPlain ctx.patterns.delimiters (some v)
    let behind := c.past (backslashes count) (v :: rest)
    ∃ held', heldText held' = heldText held ++ backslashes (keptCount count escapes) ∧
      foundFrom ctx held escape c =
        foundFrom ctx held'
          (if count % 2 == 1 && escapes then some (c, behind.offset) else escape) behind := by
  intro escapes behind
  have read := code_backslashes reads split held escape inside found
  by_cases none : keptCount count escapes = 0
  · exact ⟨held, by simp [none, backslashes], read.trans (if_pos none)⟩
  · have shown : isVisible (some v) = true := by simpa using visible
    exact ⟨holding held (backslashes (keptCount count escapes)) c, heldText_holding ..,
      read.trans ((if_neg none).trans (if_pos shown))⟩

/-- A lone backslash that escapes nothing visible is lost, and the text behind it is found behind
what is held. -/
theorem foundFrom_lost (reads : ReadsCode ctx x) {c : Cursor} {rest : List Char}
    (split : c.rest = '\\' :: rest) (inside : c.In ctx.content)
    (hidden : isVisible rest.head? = false)
    (special : escapesPlain ctx.patterns.delimiters rest.head? = true)
    (undeclared : Undeclared ctx (c.past ['\\'] rest))
    {run : Nat} (escapes : EscapesAt ctx (c.past ['\\'] rest) run escape)
    (starts : StartsVisibly (heldText held)) :
    (foundFrom ctx held escape (c.past ['\\'] rest)).get? x.name ≠
      some (String.ofList (trim (heldText held ++ c.rest))) := by
  intro found
  obtain ⟨more, same, begins⟩ := continues_foundFrom reads undeclared starts
    (inside.past split) escapes _ found
  rw [split, trim_append_of_visible starts (by decide), String.ofList_inj,
    List.append_cancel_left_eq] at same
  subst same
  generalize behind : trimEnd rest = cs at begins
  cases begins with
  | char _ other => exact other rfl
  | @pair _ b cs _ visible =>
      obtain ⟨back, rfl⟩ : b :: cs <+: rest := behind ▸ trimEnd_prefix rest
      have gap : isGap b = true := by simpa using hidden
      simp only [escapesPlain, List.cons_append, List.head?_cons, Bool.and_eq_true] at special
      rcases isDelimiterChar_of_escapesNext special.2 with blank | delimiter
      · simp [visible] at blank
      · simp [isGap_of_isDelimiterChar delimiter] at gap

/-- In front of what is not visible a run of backslashes is kept, unless it is a single one that
escapes. -/
theorem foundFrom_hidden_iff (reads : ReadsCode ctx x) {c : Cursor} {count : Nat}
    {rest : List Char} (split : c.rest = backslashes count ++ rest) (positive : 0 < count)
    (inside : c.In ctx.content) (hidden : isVisible rest.head? = false)
    (undeclared : Undeclared ctx (c.past (backslashes count) rest))
    (starts : StartsVisibly (heldText held))
    (found : tokenAt? ctx.patterns.delimiters c.rest =
      some (.backslashes count, (backslashes count).length)) :
    (foundFrom ctx held none c).get? x.name =
        some (String.ofList (trim (heldText held ++ c.rest))) ↔
      (count != 1 || !escapesPlain ctx.patterns.delimiters rest.head?) = true := by
  have read := code_backslashes reads split held none inside found
  dsimp only at read
  by_cases lost : count = 1 ∧ escapesPlain ctx.patterns.delimiters rest.head? = true
  · obtain ⟨rfl, special⟩ := lost
    rw [read, special]
    apply iff_of_false _ (by simp)
    exact foundFrom_lost reads split inside hidden special undeclared
      ((EscapesAt.none ctx c).backslashes inside positive split true) starts
  · have kept : keptCount count (escapesPlain ctx.patterns.delimiters rest.head?) ≠ 0 := by
      rwa [ne_eq, keptCount_eq_zero_iff positive]
    rw [read, if_neg kept, if_neg (by simp [hidden])]
    apply iff_of_true (get?_single _)
    by_cases single : count = 1
    · simpa [single] using lost
    · simp [single]

/-- Behind a run of which not all backslashes are held the value is not what is written. -/
theorem foundFrom_halved (reads : ReadsCode ctx x) {c : Cursor} {m n : Nat} {v : Char}
    {cs front : List Char} (inside : c.In ctx.content)
    (undeclared : Undeclared ctx c)
    (starts : StartsVisibly front) (holds : heldText held = front ++ backslashes m)
    (here : c.rest = v :: cs) (visible : isGap v = false) (other : v ≠ '\\') (differ : m ≠ n) :
    (foundFrom ctx held none c).get? x.name ≠
      some (String.ofList (trim (front ++ (backslashes n ++ v :: cs)))) := by
  intro found
  have starts' := starts.append (startsVisibly_backslashes m)
  obtain ⟨more, same⟩ := foundFrom_visible reads undeclared (holds ▸ starts') inside here visible
    other found
  rw [holds, List.append_assoc] at same
  exact trim_backslashes_ne starts visible other differ cs more same

/-- Behind an odd run a delimiter is held without a backslash, unless nothing visible follows: then
the slot takes the text from the run on. -/
theorem foundFrom_delimiter_iff (reads : ReadsCode ctx x) {c : Cursor} {count : Nat} {v : Char}
    {cs front : List Char} (split : c.rest = backslashes count ++ v :: cs)
    (positive : 0 < count) (inside : c.In ctx.content)
    (undeclared : Undeclared ctx (c.past (backslashes count) (v :: cs)))
    (starts : StartsVisibly front) (holds : heldText held = front ++ backslashes (count / 2))
    (visible : isGap v = false) (other : v ≠ '\\')
    (delimiter : tokenAt? ctx.patterns.delimiters (v :: cs) = some (.delimiter v, 1)) :
    (foundFrom ctx held (some (c, (c.past (backslashes count) (v :: cs)).offset))
        (c.past (backslashes count) (v :: cs))).get? x.name =
        some (String.ofList (trim (front ++ c.rest))) ↔
      (count == 1 && !isVisible cs.head?) = true := by
  have differ (m : Nat) (more : List Char) (fewer : m ≠ count) :
      String.ofList (trim (front ++ c.rest)) ≠
        String.ofList (front ++ (backslashes m ++ v :: more)) :=
    split ▸ trim_backslashes_ne starts visible other fewer cs more
  let behind := c.past (backslashes count) (v :: cs)
  have read : behind.rest = [v] ++ cs := rfl
  have token : tokenAt? ctx.patterns.delimiters behind.rest =
    some (.delimiter v, [v].length) := delimiter
  replace undeclared := undeclared.token read token
  rw [foundFrom_escaped (goes_initial reads) read token, placedFrom_code reads [v] inside,
    Cursor.past_after]
  by_cases follows : isVisible cs.head? = true
  · rw [if_pos follows]
    apply iff_of_false _ (by simp [follows])
    intro found
    have holds' : heldText (holding held [v] c) = front ++ (backslashes (count / 2) ++ [v]) := by
      rw [heldText_holding, holds, List.append_assoc]
    have starts'' : StartsVisibly (heldText (holding held [v] c)) := by
      rw [holds', ← List.append_assoc]
      exact (starts.append (startsVisibly_backslashes _)).append
        (.of_forall (by simpa using isBlank_of_isGap visible))
    obtain ⟨more, same, -⟩ := continues_foundFrom reads undeclared.2 starts''
      ((inside.past split).past read) (.none ctx _) _ found
    rw [holds', List.append_assoc, List.append_assoc] at same
    exact differ (count / 2) more (by omega) same
  · rw [if_neg follows]
    have taken : trim (heldText held ++ c.rest) =
        front ++ (backslashes (count / 2 + count) ++ v :: trimEnd cs) := by
      rw [holds, split, List.append_assoc, ← List.append_assoc (backslashes _), backslashes,
        backslashes, List.replicate_append_replicate]
      exact trim_backslashes starts _ visible cs
    by_cases single : count = 1
    · subst single
      apply iff_of_true _ (by simp [follows])
      rw [get?_single, holds]
      simp [backslashes]
    · apply iff_of_false _ (by simp [single])
      rw [taken]
      intro found
      exact differ (count / 2 + count) (trimEnd cs) (by omega)
        (Option.some.inj ((get?_single _).symm.trans found)).symm

/-- Where a run in front of a visible character is kept as it is written. -/
theorem foundFrom_visible_iff (reads : ReadsCode ctx x) {c : Cursor} {count : Nat} {v : Char}
    {cs : List Char} (split : c.rest = backslashes count ++ v :: cs) (positive : 0 < count)
    (inside : c.In ctx.content)
    (undeclared : Undeclared ctx (c.past (backslashes count) (v :: cs)))
    (starts : StartsVisibly (heldText held)) (visible : isGap v = false) (other : v ≠ '\\')
    (noMarker : hyphenMarker? ctx.patterns.delimiters 0 (v :: cs) = none)
    (found : tokenAt? ctx.patterns.delimiters c.rest =
      some (.backslashes count, (backslashes count).length)) {keeps : Bool}
    (further : ∀ held', heldText held' = heldText held ++ ['\\'] →
      ((foundFrom ctx held' none (c.past (backslashes count) (v :: cs))).get? x.name =
        some (String.ofList (trim (heldText held ++ '\\' :: v :: cs))) ↔ keeps = true)) :
    (foundFrom ctx held none c).get? x.name =
        some (String.ofList (trim (heldText held ++ c.rest))) ↔
      (count == 1 && (if escapesPlain ctx.patterns.delimiters (some v) then !isVisible cs.head?
        else keeps)) = true := by
  obtain ⟨held', holds, run⟩ := foundFrom_run reads held none split inside visible found
  have behind := inside.past split
  rw [run]
  cases special : escapesPlain ctx.patterns.delimiters (some v) with
  | false =>
      simp only [special, Bool.and_false, Bool.false_eq_true, if_false] at holds ⊢
      by_cases single : count = 1
      · subst single
        rw [split, beq_self_eq_true, Bool.true_and]
        exact further held' holds
      · apply iff_of_false _ (by simp [single])
        rw [split]
        apply foundFrom_halved reads behind undeclared starts holds rfl visible other
        simp only [keptCount, Bool.not_false, Bool.and_true, beq_iff_eq]
        split <;> omega
  | true =>
      simp only [special, Bool.and_true, if_true] at holds ⊢
      rcases Nat.mod_two_eq_zero_or_one count with even | odd
      · have notOdd : (count % 2 == 1) = false := by simp [even]
        rw [notOdd]
        apply iff_of_false _ (by
          simp only [Bool.and_eq_true, beq_iff_eq, not_and]
          omega)
        rw [split]
        apply foundFrom_halved reads behind undeclared starts holds rfl visible other
        simp only [keptCount, Bool.not_true, Bool.and_false, Bool.false_eq_true, if_false]
        omega
      · have isOdd : (count % 2 == 1) = true := by simp [odd]
        rw [isOdd, if_pos rfl]
        have half : keptCount count true = count / 2 := by simp [keptCount]
        rw [half] at holds
        obtain ⟨delimiter, plain⟩ := isDelimiterChar_of_escapesPlain special visible
        exact foundFrom_delimiter_iff reads split positive inside undeclared starts holds visible
          other (tokenAt?_delimiter delimiter plain noMarker)

/-! ## One token in front of the slot -/

/-- The value is the text as it is written just where the tokens from the cursor on keep it,
whatever is held in front of it. -/
def ReadsRaw (ctx : Context) (x : OptionDecl) (c : Cursor) : Prop :=
  ∀ held, StartsVisibly (heldText held) → (heldText held ≠ [] → isVisible c.after = true) →
    ((foundFrom ctx held none c).get? x.name =
        some (String.ofList (trim (heldText held ++ c.rest.dropWhile isGap))) ↔
      keepsRaw ctx.patterns.delimiters (tokensAt ctx.patterns.delimiters c) = true)

theorem heldText_eq_nil {c : Cursor} {y : Char} {rest : List Char} (here : c.rest = y :: rest)
    (gap : isGap y = true) (ahead : heldText held ≠ [] → isVisible c.after = true) :
    heldText held = [] := by
  by_contra holds
  simpa [Cursor.after, here, gap] using ahead holds

section

variable (reads : ReadsCode ctx x) {c : Cursor} {text rest : List Char}
  (split : c.rest = text ++ rest)
include reads split

theorem readsRaw_lineFeeds (front : TokenFront ctx.patterns.delimiters .lineFeeds text rest)
    (token : tokenAt? ctx.patterns.delimiters c.rest = some (.lineFeeds, text.length))
    (behind : ReadsRaw ctx x (c.past text rest)) : ReadsRaw ctx x c := by
  intro held starts ahead
  have gaps : ∀ y ∈ text, isGap y = true := by
    intro y member
    rw [front.lineFeed_of_mem member]
    decide
  obtain ⟨y, more, rfl⟩ := List.exists_cons_of_ne_nil front.ne_nil
  have noHeld := heldText_eq_nil split (gaps y List.mem_cons_self) ahead
  rw [tokensAt_token split token, foundFrom_lineFeeds (goes_initial reads) split token, split,
    List.dropWhile_append_of_pos gaps]
  exact behind held starts fun holds => absurd noHeld holds

theorem readsRaw_word (inside : c.In ctx.content)
    (front : TokenFront ctx.patterns.delimiters .word text rest)
    (token : tokenAt? ctx.patterns.delimiters c.rest = some (.word, text.length)) :
    ReadsRaw ctx x c := by
  intro held _ _
  rw [tokensAt_token split token, foundFrom_word (goes_initial reads) split token,
    filledFrom_code reads text inside, get?_single, split,
    front.dropWhile_isGap TokenKind.noConfusion]
  simp [keepsRaw, Token.reading]

theorem readsRaw_delimiter (inside : c.In ctx.content) {y : Char}
    (front : TokenFront ctx.patterns.delimiters (.delimiter y) text rest)
    (token : tokenAt? ctx.patterns.delimiters c.rest = some (.delimiter y, text.length)) :
    ReadsRaw ctx x c := by
  intro held _ _
  rw [tokensAt_token split token, code_bare reads split inside token (by simp), get?_single, split,
    front.dropWhile_isGap TokenKind.noConfusion]
  simp [keepsRaw, Token.reading]

theorem readsRaw_marker (inside : c.In ctx.content) {count : Nat} {opening : Opening}
    {name : String}
    (front : TokenFront ctx.patterns.delimiters (.marker count opening name) text rest)
    (token : tokenAt? ctx.patterns.delimiters c.rest =
      some (.marker count opening name, text.length))
    (undeclared : ctx.table.option? name = none)
    (behind : ReadsRaw ctx x (c.past text rest)) : ReadsRaw ctx x c := by
  intro held starts _
  rw [tokensAt_token split token, split, front.dropWhile_isGap TokenKind.noConfusion,
    ← split, foundFrom_marker (goes_initial reads) split token undeclared,
    placedFrom_code reads text inside, Cursor.past_after, keepsRaw_marker]
  by_cases visible : isVisible rest.head? = true
  · have further := behind (holding held text c)
      (by rw [heldText_holding]; exact starts.append (front.startsVisibly TokenKind.noConfusion))
      fun _ => visible
    rw [heldText_holding, Cursor.past_rest, dropWhile_of_visible visible, List.append_assoc,
      ← split] at further
    rw [if_pos visible, visible]
    exact further
  · rw [if_neg visible, get?_single]
    simp [visible]

theorem readsRaw_backslashes (inside : c.In ctx.content) {count : Nat}
    (front : TokenFront ctx.patterns.delimiters (.backslashes count) text rest)
    (token : tokenAt? ctx.patterns.delimiters c.rest = some (.backslashes count, text.length))
    (undeclared : Undeclared ctx (c.past text rest))
    (behind : ReadsRaw ctx x (c.past text rest)) : ReadsRaw ctx x c := by
  intro held starts _
  rw [tokensAt_token split token, split, front.dropWhile_isGap TokenKind.noConfusion,
    ← split]
  obtain ⟨positive, head, noMarker, rfl⟩ := front.backslashes_inv
  cases visible : isVisible rest.head? with
  | false =>
      rw [keepsRaw_backslashes_hidden _ _ _ _ _ _ visible]
      exact foundFrom_hidden_iff reads split positive inside visible undeclared starts token
  | true =>
      obtain ⟨v, cs, rfl⟩ : ∃ v cs, rest = v :: cs := by
        cases rest with
        | nil => simp [isVisible] at visible
        | cons v cs => exact ⟨v, cs, rfl⟩
      have shown : isGap v = false := by simpa using visible
      have other : v ≠ '\\' := fun same => head (by rw [same]; rfl)
      rw [keepsRaw_backslashes_visible _ _ _ _ _ _ shown]
      apply foundFrom_visible_iff reads split positive inside undeclared starts shown other noMarker
        token
      intro held' holds
      have further := behind held' (holds ▸ starts.append (startsVisibly_backslashes 1))
        fun _ => visible
      rw [holds, Cursor.past_rest, dropWhile_of_visible visible] at further
      simpa using further

end

/-- The value is the text as it is written just where nothing in front of the slot is rewritten. -/
theorem foundFrom_raw_iff (reads : ReadsCode ctx x) {c : Cursor} (inside : c.In ctx.content)
    (undeclared : Undeclared ctx c) : ReadsRaw ctx x c := by
  induction c using tokensAt_induction ctx.patterns.delimiters with
  | finish c ends =>
      intro held _ _
      simp [foundFrom_end ends, tokensAt_end ends, keepsRaw, Entries.get?, Entries.find]
  | skip c y rest split gap none ih =>
      intro held starts ahead
      have noHeld := heldText_eq_nil split gap ahead
      rw [tokensAt_skip split none, foundFrom_skip split none, split,
        List.dropWhile_cons_of_pos gap]
      exact ih (inside.past split) (undeclared.skip split none) held starts
        fun holds => absurd noHeld holds
  | token c kind text rest split front token ih =>
      obtain ⟨noMarker, undeclared⟩ := undeclared.token split token
      have behind := ih (inside.past split) undeclared
      cases kind with
      | lineFeeds => exact readsRaw_lineFeeds reads split front token behind
      | word => exact readsRaw_word reads split inside front token
      | delimiter _ => exact readsRaw_delimiter reads split inside front token
      | marker _ _ _ =>
          exact readsRaw_marker reads split inside front token (noMarker _ _ _ rfl) behind
      | backslashes _ =>
          exact readsRaw_backslashes reads split inside front token undeclared behind

end State

end Parse

open Parse Text

namespace Command

/-- Under the settings for source code the value of the only option is the text as it is written,
just where nothing in front of its first word or delimiter is rewritten. -/
theorem parse_code_iff {command : Command} {shared : Config} {x : OptionDecl}
    (config : (Table.ofCommand command).configFor shared = Config.ofOptions Options.forCode)
    (only : command.options.filter (·.isFillable) = [x]) (positional : x.flag = false)
    (noChoices : x.choices = []) {content : String}
    (noFence : ¬ fence <:+: content.toList)
    (opensNone : OpensNone (Table.ofCommand command) {} content.toList)
    (message : Option Message) :
    (command.parse shared content message).values.get? x.name =
        some (String.ofList (trim (content.toList.dropWhile isGap))) ↔
      keepsRaw {} (tokens {} content.toList) = true := by
  have slots : (Table.ofCommand command).slots = [x] := by
    simp [Table.ofCommand, only, positional]
  have choices : (Table.ofCommand command).choices = [] := by
    simp [Table.ofCommand, only, noChoices]
  have count : (Table.ofCommand command).optionCount = 1 := by
    simp [Table.ofCommand, only, Table.optionCount, Entries.size, Entries.ofList, Entries.insert,
      Entries.put, Entries.empty]
  let ctx : Context := ⟨content.toList, .ofCommand command, Config.ofOptions Options.forCode,
    .ofConfig (Config.ofOptions Options.forCode)⟩
  have reads : ReadsCode ctx x := ⟨slots, count, rfl, rfl, rfl, noFence⟩
  have undeclared : Undeclared ctx (Cursor.start ctx.content) :=
    fun _ member => opensNone.tokensAt member
  rw [parse_foundFrom (by omega) config rfl, choices, matchChoices_nil]
  exact State.foundFrom_raw_iff reads (Cursor.start_in ctx.content) undeclared none
    (by simp [StartsVisibly]) (by simp)

/-- Quotes, backslashes and markers of no option are kept behind a word. -/
theorem parse_code_iff_quotes :
    (Command.parse ⟨"run", [{ name := "code" }], none⟩ (Config.ofOptions Options.forCode)
      " f(\"a\\\\-n\", 'b') --c " none).values.get? "code" = some "f(\"a\\\\-n\", 'b') --c" := by
  have kept := (@parse_code_iff ⟨"run", [{ name := "code" }], none⟩
    (Config.ofOptions Options.forCode) { name := "code" } rfl rfl rfl rfl
    " f(\"a\\\\-n\", 'b') --c " (by decide +kernel) (by decide +kernel) none).2
    (by decide +kernel)
  exact kept

/-- Three backslashes in front of a hyphen are read as four: one is held, and the slot takes them
all behind it. -/
theorem not_parse_code_raw :
    ¬ ∀ (command : Command) (x : OptionDecl) (content : String),
      (Table.ofCommand command).configFor (Config.ofOptions Options.forCode) =
        Config.ofOptions Options.forCode →
      command.options.filter (·.isFillable) = [x] → x.flag = false → x.choices = [] →
      ¬ fence <:+: content.toList →
      OpensNone (Table.ofCommand command) {} content.toList →
      (∃ c ∈ content.toList, isGap c = false) →
      (command.parse (Config.ofOptions Options.forCode) content none).values.get? x.name =
        some (String.ofList (trim (content.toList.dropWhile isGap))) := by
  intro always
  have kept := always ⟨"run", [{ name := "code" }], none⟩ { name := "code" } "\\\\\\-" rfl rfl rfl
    rfl (by decide +kernel) (by decide +kernel) ⟨'-', by decide +kernel⟩
  exact absurd kept (by decide +kernel)

end Command

end ChatArgs
