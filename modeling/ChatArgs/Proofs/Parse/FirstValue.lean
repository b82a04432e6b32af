import ChatArgs.Proofs.Parse.Surplus

/-!
# In front of the first value

Until the first slot takes a value, text is held, and a run of backslashes may escape the
delimiter behind it. `waiting` is the state in front of the first value: here is what each token
makes of it, and what the first slot takes.
-/

namespace ChatArgs

namespace Parse

open Text

theorem backslashes_append_inj {m n : Nat} {v w : Char} {cs cs' : List Char} (hv : v ≠ '\\')
    (hw : w ≠ '\\') (same : backslashes m ++ v :: cs = backslashes n ++ w :: cs') : m = n := by
  have run (n : Nat) {v : Char} (hv : v ≠ '\\') (cs : List Char) :
      ((backslashes n ++ v :: cs).takeWhile (· == '\\')).length = n := by
    rw [takeWhile_append_stop (by simp [backslashes]) (by simpa using hv), length_backslashes]
  have lengths := congrArg (fun cs => (cs.takeWhile (· == '\\')).length) same
  simpa only [run m hv, run n hw] using lengths

theorem backslashes_visible {count : Nat} : ∀ b ∈ backslashes count, isGap b = false := by
  intro b member
  rw [List.eq_of_mem_replicate member]
  decide

theorem get?_single {name : String} (value : String) :
    (⟨[(name, value)]⟩ : Entries String).get? name = some value := by
  simp [Entries.get?, Entries.find]

/-- How many backslashes of a run are text: half of them, and the odd one unless it escapes. -/
def keptCount (count : Nat) (escapes : Bool) : Nat :=
  if count % 2 == 1 && !escapes then count / 2 + 1 else count / 2

theorem keptCount_eq_zero_iff {count : Nat} (positive : 0 < count) {escapes : Bool} :
    keptCount count escapes = 0 ↔ count = 1 ∧ escapes = true := by
  unfold keptCount
  cases escapes with
  | false =>
      rcases Nat.mod_two_eq_zero_or_one count with even | odd
      · simp [even]
        omega
      · simp [odd]
  | true =>
      simp
      omega

/-! ## What stands behind a place and in front of it -/

section

variable {ctx : Context} {c : Cursor}

def Undeclared (ctx : Context) (c : Cursor) : Prop :=
  ∀ t ∈ tokensAt ctx.patterns.delimiters c, ∀ escapes opening name,
    t.kind = .marker escapes opening name → ctx.table.option? name = none

theorem Undeclared.skip (undeclared : Undeclared ctx c) {y : Char} {rest : List Char}
    (split : c.rest = y :: rest) (none : tokenAt? ctx.patterns.delimiters c.rest = none) :
    Undeclared ctx (c.past [y] rest) := by
  rwa [Undeclared, tokensAt_skip split none] at undeclared

theorem Undeclared.token (undeclared : Undeclared ctx c) {kind : TokenKind}
    {text rest : List Char} (split : c.rest = text ++ rest)
    (found : tokenAt? ctx.patterns.delimiters c.rest = some (kind, text.length)) :
    (∀ escapes opening name, kind = .marker escapes opening name →
      ctx.table.option? name = none) ∧ Undeclared ctx (c.past text rest) := by
  rwa [Undeclared, tokensAt_token split found, List.forall_mem_cons] at undeclared

/-- How many backslashes stand in front of the place as an escape of what is there. -/
inductive EscapesAt (ctx : Context) (c : Cursor) : Nat → Option (Cursor × Nat) → Prop
  | passed {escape : Option (Cursor × Nat)} :
      (∀ start stop, escape = some (start, stop) → stop < c.offset) → EscapesAt ctx c 0 escape
  | here {start : Cursor} {run : Nat} : 0 < run → start.In ctx.content →
      start.rest = backslashes run ++ c.rest → EscapesAt ctx c run (some (start, c.offset))

namespace EscapesAt

variable {run : Nat} {escape : Option (Cursor × Nat)}

theorem none (ctx : Context) (c : Cursor) : EscapesAt ctx c 0 none :=
  .passed (by simp)

theorem le (escapes : EscapesAt ctx c run escape) {start : Cursor} {stop : Nat}
    (escaped : escape = some (start, stop)) : stop ≤ c.offset := by
  cases escapes with
  | passed before => exact Nat.le_of_lt (before start stop escaped)
  | here => exact Nat.le_of_eq (congrArg Prod.snd (Option.some.inj escaped)).symm

theorem past (escapes : EscapesAt ctx c run escape) {front rest : List Char}
    (nonempty : front ≠ []) : EscapesAt ctx (c.past front rest) 0 escape := by
  refine .passed fun start stop escaped => ?_
  have before := escapes.le escaped
  have positive := byteLength_pos nonempty
  rw [Cursor.past_offset]
  omega

theorem backslashes (escapes : EscapesAt ctx c run escape) (inside : c.In ctx.content)
    {count : Nat} {rest : List Char} (positive : 0 < count)
    (split : c.rest = Parse.backslashes count ++ rest) (escaping : Bool) :
    EscapesAt ctx (c.past (Parse.backslashes count) rest) (if escaping then count else 0)
      (if escaping then some (c, (c.past (Parse.backslashes count) rest).offset) else escape) := by
  cases escaping with
  | false =>
      apply escapes.past
      simp [Parse.backslashes]
      omega
  | true => exact .here positive inside split

end EscapesAt

end

namespace State

variable {ctx : Context} {held : Option Held} {escape : Option (Cursor × Nat)}

def waiting (ctx : Context) (held : Option Held) (escape : Option (Cursor × Nat)) : State :=
  { initial ctx with held := held, escape := escape }

def heldText : Option Held → List Char
  | some held => held.text.toList
  | none => []

def holding (held : Option Held) (text : List Char) (start : Cursor) : Option Held :=
  match held with
  | some held => some { held with text := held.text ++ String.ofList text }
  | none => some ⟨String.ofList text, start⟩

@[simp] theorem heldText_none : heldText none = [] := rfl

@[simp] theorem heldText_holding (held : Option Held) (text : List Char) (start : Cursor) :
    heldText (holding held text start) = heldText held ++ text := by
  cases held <;> simp [holding, heldText]

theorem place_waiting (value : String) (start : Cursor) (stop : Nat) :
    (waiting ctx held escape).place ctx value start stop false =
      (waiting ctx held escape).fillSlot ctx value start stop false := by
  cases held <;> simp [place, waiting, initial, openSingle?]

theorem placeText_waiting (text : List Char) (start : Cursor) (stop : Nat) (next : Option Char) :
    (waiting ctx held escape).placeText ctx (String.ofList text) start stop next false =
      if isVisible next then waiting ctx (holding held text start) escape
      else (waiting ctx held escape).fillSlot ctx (String.ofList text) start stop false := by
  have noNamed : (waiting ctx held escape).named = none := rfl
  have unfilled : (waiting ctx held escape).lastFilled = none := rfl
  rw [placeText, noNamed, unfilled, place_waiting]
  cases held <;> simp [waiting, hold, holding]

theorem onWord_waiting (t : Token) :
    (waiting ctx held escape).onWord ctx t false =
      (waiting ctx held escape).fillSlot ctx (String.ofList t.text) t.start t.stop.offset
        false := by
  have unfilled : (waiting ctx held escape).lastFilled = none := rfl
  simp [onWord, unfilled, place_waiting]

/-! ## Tokens where nothing is open -/

structure Idle (s : State) : Prop where
  noLong : s.longText = none
  noNamed : s.named = none
  noLast : s.lastSlot = none
  notClosed : s.justClosed = false

theorem waiting_idle (ctx : Context) (held : Option Held) (escape : Option (Cursor × Nat)) :
    Idle (waiting ctx held escape) := ⟨rfl, rfl, rfl, rfl⟩

namespace Idle

variable {s : State} (idle : Idle s) {c : Cursor} {text rest : List Char}
include idle

theorem step_eq (t : Token) :
    s.step ctx t = match t.kind with
      | .marker escapes opening name => s.onMarker ctx t escapes opening name false
      | .backslashes count => s.onBackslashes ctx t count false
      | .delimiter x => s.onDelimiter ctx t x false
      | .word => s.onWord ctx t false
      | .lineFeeds => s := by
  have same : ({ s with justClosed := false } : State) = s := by rw [← idle.notClosed]
  rw [step, same, idle.notClosed, idle.noLong]
  cases kind : t.kind <;>
    simp [onOther, openSingle?, kind, idle.noNamed, idle.noLast, idle.noLong]

theorem step_marker (split : c.rest = text ++ rest) {escapes : Nat} {opening : Opening}
    {name : String} (undeclared : ctx.table.option? name = none) :
    s.step ctx (.reading (.marker escapes opening name) c text rest) =
      s.placeText ctx (String.ofList text) c (c.past text rest).offset rest.head? false := by
  have read := Token.reading_text (.marker escapes opening name) split
  have opens : s.step ctx (.reading (.marker escapes opening name) c text rest) =
      s.onMarker ctx (.reading (.marker escapes opening name) c text rest) escapes opening name
        false := idle.step_eq _
  rw [opens, onMarker, undeclared]
  simp only [literalMarker, idle.noLast, read]
  rfl

/-- A run of backslashes escapes what is behind it, or some of it is text, or both. -/
theorem step_backslashes {count : Nat} {escapes : Bool}
    (special : escapes = (!((rest.head?.bind Quote.ofChar?).isSome && s.quotesArePlain ctx) &&
      ctx.patterns.delimiters.escapesNext s.family rest.head?)) :
    s.step ctx (.reading (.backslashes count) c text rest) =
      let s' : State := { s with
        escape := if count % 2 == 1 && escapes then some (c, (c.past text rest).offset)
          else s.escape }
      if keptCount count escapes = 0 then s'
      else s'.placeText ctx (String.ofList (backslashes (keptCount count escapes))) c
        (c.past text rest).offset rest.head? false := by
  have run : s.step ctx (.reading (.backslashes count) c text rest) =
      s.onBackslashes ctx (.reading (.backslashes count) c text rest) count false :=
    idle.step_eq _
  rw [run]
  unfold onBackslashes
  extract_lets next counts isQuote odd escaping marked kept s'
  have same : escaping = (odd && escapes) := by
    rw [special, ← Bool.and_assoc]
    rfl
  have state : marked = s' := by
    simp only [marked, same, s', odd]
    split <;> rfl
  have size : kept = backslashes (keptCount count escapes) := by
    simp only [kept, same, keptCount, odd]
    cases count % 2 == 1 <;> simp
  have isEmpty : kept.isEmpty = true ↔ keptCount count escapes = 0 := by
    rw [size, List.isEmpty_iff, ← List.length_eq_zero_iff, length_backslashes]
  have noLong : s'.longText.isSome = false := by simp [s', idle.noLong]
  have counted : counts = true := by simp [counts, idle.noLong]
  rw [counted, state, noLong]
  simp only [Bool.not_true, Bool.false_eq_true, if_false, isEmpty]
  rw [size]
  rfl

/-- A delimiter that a run of backslashes escapes is text, from the run on. -/
theorem step_escaped {x : Char} {start : Cursor} (escaped : s.escape = some (start, c.offset)) :
    s.step ctx (.reading (.delimiter x) c text rest) =
      ({ s with escape := none } : State).placeText ctx (String.ofList [x]) start
        (c.past text rest).offset rest.head? false := by
  have delimiter : s.step ctx (.reading (.delimiter x) c text rest) =
      s.onDelimiter ctx (.reading (.delimiter x) c text rest) x false := idle.step_eq _
  have place : (Token.reading (.delimiter x) c text rest).start.offset = c.offset := rfl
  have here : s.escape.filter (·.2 == c.offset) = some (start, c.offset) := by simp [escaped]
  rw [delimiter]
  unfold onDelimiter
  rw [place, here]
  simp only [idle.noLong]
  rfl

theorem step_bare {x : Char} (unescaped : ∀ start, s.escape ≠ some (start, c.offset)) :
    s.step ctx (.reading (.delimiter x) c text rest) =
      ({ s with escape := none } : State).onBareDelimiter ctx (.reading (.delimiter x) c text rest)
        x false := by
  have delimiter : s.step ctx (.reading (.delimiter x) c text rest) =
      s.onDelimiter ctx (.reading (.delimiter x) c text rest) x false := idle.step_eq _
  have place : (Token.reading (.delimiter x) c text rest).start.offset = c.offset := rfl
  have none : s.escape.filter (·.2 == c.offset) = none := by
    rw [Option.filter_eq_none_iff]
    rintro ⟨start, stop⟩ escaped here
    obtain rfl : stop = c.offset := by simpa using here
    exact unescaped start escaped
  rw [delimiter]
  unfold onDelimiter
  rw [place, none]

end Idle

/-! ## From a place on -/

/-- The values that a parse comes to from the place on, when nothing is filled in front of it. -/
def foundFrom (ctx : Context) (held : Option Held) (escape : Option (Cursor × Nat)) (c : Cursor) :
    Entries String :=
  (((waiting ctx held escape).sweep ctx c).closeAll ctx).values

/-- The values that a parse comes to from the place on, when the first slot takes the value in front
of it, which starts at `start`. -/
def filledFrom (ctx : Context) (held : Option Held) (escape : Option (Cursor × Nat))
    (value : List Char) (start c : Cursor) : Entries String :=
  ((((waiting ctx held escape).fillSlot ctx (String.ofList value) start c.offset false).sweep ctx
    c).closeAll ctx).values

/-- The values that a parse comes to from the place on, when text stands in front of it: it is held
if the text goes on, else the first slot takes it. -/
def placedFrom (ctx : Context) (held : Option Held) (escape : Option (Cursor × Nat))
    (text : List Char) (start c : Cursor) : Entries String :=
  if isVisible c.after then foundFrom ctx (holding held text start) escape c
  else filledFrom ctx held escape text start c

theorem values_placeText (text : List Char) (start c : Cursor) :
    ((((waiting ctx held escape).placeText ctx (String.ofList text) start c.offset c.after
      false).sweep ctx c).closeAll ctx).values = placedFrom ctx held escape text start c := by
  rw [placeText_waiting, placedFrom]
  split <;> rfl

theorem foundFrom_end {c : Cursor} (ends : c.rest = []) :
    foundFrom ctx held escape c = {} := by
  rw [foundFrom, sweep_end ends]
  rfl

theorem foundFrom_skip {c : Cursor} {y : Char} {rest : List Char} (split : c.rest = y :: rest)
    (none : tokenAt? ctx.patterns.delimiters c.rest = none) :
    foundFrom ctx held escape c = foundFrom ctx held escape (c.past [y] rest) := by
  rw [foundFrom, sweep_skip split none, foundFrom]

section

variable (goes : (initial ctx).stops ctx = false) {c : Cursor} {text rest : List Char}
  (split : c.rest = text ++ rest)
include goes split

theorem foundFrom_token {kind : TokenKind}
    (found : tokenAt? ctx.patterns.delimiters c.rest = some (kind, text.length)) :
    foundFrom ctx held escape c =
      ((((waiting ctx held escape).step ctx (.reading kind c text rest)).sweep ctx
        (c.past text rest)).closeAll ctx).values := by
  have goes' : (waiting ctx held escape).stops ctx = false := goes
  rw [foundFrom, sweep_token split found goes']

theorem foundFrom_lineFeeds
    (found : tokenAt? ctx.patterns.delimiters c.rest = some (.lineFeeds, text.length)) :
    foundFrom ctx held escape c = foundFrom ctx held escape (c.past text rest) := by
  have same : (waiting ctx held escape).step ctx (.reading .lineFeeds c text rest) =
      waiting ctx held escape := (waiting_idle ..).step_eq _
  rw [foundFrom_token goes split found, same, foundFrom]

theorem foundFrom_marker {escapes : Nat} {opening : Opening} {name : String}
    (found : tokenAt? ctx.patterns.delimiters c.rest =
      some (.marker escapes opening name, text.length))
    (undeclared : ctx.table.option? name = none) :
    foundFrom ctx held escape c = placedFrom ctx held escape text c (c.past text rest) := by
  rw [foundFrom_token goes split found, (waiting_idle ..).step_marker split undeclared]
  exact values_placeText text c (c.past text rest)

theorem foundFrom_word
    (found : tokenAt? ctx.patterns.delimiters c.rest = some (.word, text.length)) :
    foundFrom ctx held escape c = filledFrom ctx held escape text c (c.past text rest) := by
  have word : (waiting ctx held escape).step ctx (.reading .word c text rest) =
      (waiting ctx held escape).onWord ctx (.reading .word c text rest) false :=
    (waiting_idle ..).step_eq _
  rw [foundFrom_token goes split found, word, onWord_waiting, Token.reading_text .word split]
  rfl

theorem foundFrom_backslashes {count : Nat} {escapes : Bool}
    (found : tokenAt? ctx.patterns.delimiters c.rest = some (.backslashes count, text.length))
    (special : escapes = (!((rest.head?.bind Quote.ofChar?).isSome &&
        (waiting ctx held escape).quotesArePlain ctx) &&
      ctx.patterns.delimiters.escapesNext none rest.head?)) :
    let behind := c.past text rest
    let escape' := if count % 2 == 1 && escapes then some (c, behind.offset) else escape
    foundFrom ctx held escape c =
      if keptCount count escapes = 0 then foundFrom ctx held escape' behind
      else placedFrom ctx held escape' (backslashes (keptCount count escapes)) c behind := by
  rw [foundFrom_token goes split found, (waiting_idle ..).step_backslashes special]
  dsimp only
  split
  · rfl
  · exact values_placeText _ c (c.past text rest)

theorem foundFrom_escaped {x : Char} {start : Cursor}
    (found : tokenAt? ctx.patterns.delimiters c.rest = some (.delimiter x, text.length)) :
    foundFrom ctx held (some (start, c.offset)) c =
      placedFrom ctx held none [x] start (c.past text rest) := by
  rw [foundFrom_token goes split found, (waiting_idle ..).step_escaped rfl]
  exact values_placeText [x] start (c.past text rest)

section

variable {x : Char} (found : tokenAt? ctx.patterns.delimiters c.rest =
    some (.delimiter x, text.length))
  (unescaped : ∀ start, escape ≠ some (start, c.offset))
include found unescaped

theorem foundFrom_bare :
    foundFrom ctx held escape c =
      ((((waiting ctx held none).onBareDelimiter ctx (.reading (.delimiter x) c text rest) x
        false).sweep ctx (c.past text rest)).closeAll ctx).values := by
  rw [foundFrom_token goes split found, (waiting_idle ..).step_bare unescaped]
  rfl

theorem foundFrom_delimiterValue (isValue : (waiting ctx held none).delimiterIsValue ctx
      (.reading (.delimiter x) c text rest) = true) :
    foundFrom ctx held escape c = filledFrom ctx held none [x] c (c.past text rest) := by
  rw [foundFrom_bare goes split found unescaped, onBareDelimiter, if_pos isValue, place_waiting]
  rfl

theorem foundFrom_delimiterText (plainLast : ctx.config.plainLast = none)
    (noQuote : Quote.ofChar? x = none) :
    foundFrom ctx held escape c = placedFrom ctx held none [x] c (c.past text rest) := by
  have noValue : (waiting ctx held none).delimiterIsValue ctx
      (.reading (.delimiter x) c text rest) = false := by
    simp [delimiterIsValue, plainLast]
  rw [foundFrom_bare goes split found unescaped, onBareDelimiter, noValue, noQuote,
    ← values_placeText]
  rfl

end

end

/-! ## The first slot -/

/-- The first slot takes held text and the value; if it is the only one, it stays open. -/
theorem fillSlot_waiting {x : OptionDecl} {more : List OptionDecl}
    (slots : ctx.table.slots = x :: more) (value : List Char) (start : Cursor) (stop : Nat) :
    ∃ span, (waiting ctx held escape).fillSlot ctx (String.ofList value) start stop false =
      { filled ctx [⟨x.name, String.ofList (heldText held ++ value), span⟩] with
        escape := escape
        lastSlot :=
          if more = [] then some ⟨x.name, start, span.start, String.ofList (heldText held)⟩
          else none } := by
  refine ⟨⟨(held.map (·.start.offset)).getD start.offset, stop⟩, ?_⟩
  cases held <;> simp [fillSlot, waiting, initial, slots, freeSlot?, List.findIdx?_cons, remaining,
    filled, setValue, take, Entries.insert, Entries.put, heldText, List.map_const']

end State

end Parse

open Parse Text

/-- Where nobody replied to fills a slot, the values are those that are found from the start on. -/
theorem Command.parse_foundFrom {command : Command} {shared config : Config}
    (counted : 0 < (Table.ofCommand command).optionCount)
    (configured : (Table.ofCommand command).configFor shared = config)
    (noReply : config.replyFilling = none) (content : String) (message : Option Message) :
    (command.parse shared content message).values =
      matchChoices (Table.ofCommand command).choices config.choices
        (State.foundFrom ⟨content.toList, .ofCommand command, config, .ofConfig config⟩ none none
          (Cursor.start content.toList)) := by
  rw [Command.parse, configured, parse_values counted, State.run_of_noReply noReply, State.run_none]
  rfl

end ChatArgs
