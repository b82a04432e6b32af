import ChatArgs.Proofs.Parse.Checked
import ChatArgs.Proofs.Parse.Offsets

/-!
# No operation of a parse fails

In every state that a parse reaches the slots that are marked as taken are as many as were counted
(`Counted`), and what is open starts in front of the token that is read (`Located`). So a parse
whose operations can fail answers what the parse answers, for any declaration and any text.
-/

namespace ChatArgs

namespace Parse

open Text

structure Counted (ctx : Context) (s : State) : Prop where
  slots : s.taken.length = ctx.table.slots.length
  count : s.takenCount = s.taken.count true

def Succeeds (ctx : Context) (answer : Option State) (s : State) : Prop :=
  answer = some s ∧ Counted ctx s

namespace Succeeds

variable {ctx : Context} {s s' : State} {answer answer' : Option State}

theorem pure (counted : Counted ctx s) : Succeeds ctx (some s) s :=
  ⟨rfl, counted⟩

theorem bind {next : State → Option State} (first : Succeeds ctx answer s)
    (rest : Counted ctx s → Succeeds ctx (next s) s') : Succeeds ctx (answer >>= next) s' := by
  obtain ⟨rfl, counted⟩ := first
  exact rest counted

theorem ite {p : Prop} [Decidable p] (yes : p → Succeeds ctx answer s)
    (no : ¬ p → Succeeds ctx answer' s') :
    Succeeds ctx (if p then answer else answer') (if p then s else s') := by
  by_cases h : p
  · rw [if_pos h, if_pos h]
    exact yes h
  · rw [if_neg h, if_neg h]
    exact no h

end Succeeds

variable {ctx : Context} {s s' : State}

/-! ## Slices -/

theorem sliceFrom_past (front rest : List Char) :
    Checked.sliceFrom (front ++ rest) (byteLength front) = some rest := by
  have whole := takeBytes?_byteLength rest []
  rw [List.append_nil] at whole
  rw [Checked.sliceFrom, sliceBytes?, byteLength_append, if_neg (by omega), dropBytes?_byteLength]
  simp only [Nat.add_sub_cancel_left, whole]

theorem sliceFrom_place {c : Cursor} (place : c.In ctx.content) :
    Checked.sliceFrom ctx.content c.offset = some c.rest := by
  obtain ⟨front, split, offset, -⟩ := place
  rw [split, offset]
  exact sliceFrom_past front c.rest

/-- Backslashes and the sign behind them take one byte each. -/
theorem splitSign_eq (cs : List Char) : Checked.splitSign cs = some (State.splitSign cs) := by
  obtain ⟨rest, split, drop, -⟩ := exists_run '\\' cs
  unfold Checked.splitSign State.splitSign
  cases rest with
  | nil => simp only [drop]
  | cons c rest =>
      simp only [drop]
      by_cases sign : ((cs.takeWhile (· == '\\')).length != 0 && (c == '=' || c == ':')) = true
      · have small : c.utf8Size = 1 := by
          simp only [Bool.and_eq_true, Bool.or_eq_true, beq_iff_eq] at sign
          rcases sign.2 with rfl | rfl <;> decide
        have bytes : byteLength (backslashes (cs.takeWhile (· == '\\')).length ++ [c]) =
            (cs.takeWhile (· == '\\')).length + 1 := by
          simp [byteLength_backslashes, small]
        have whole : cs = backslashes (cs.takeWhile (· == '\\')).length ++ [c] ++ rest := by
          rw [List.append_assoc, List.singleton_append]
          exact split
        have slice := sliceFrom_past (backslashes (cs.takeWhile (· == '\\')).length ++ [c]) rest
        rw [bytes, ← whole] at slice
        simp only [sign, if_true, slice]
        rfl
      · simp only [sign, if_false, Bool.false_eq_true]

theorem namedValue_eq (named : Named) (stop : Nat) :
    Checked.namedValue ctx named stop s = some (s.namedValue ctx named stop) := by
  unfold Checked.namedValue State.namedValue
  cases named.family with
  | hyphen =>
      simp only [splitSign_eq]
      rfl
  | colon => rfl

/-! ## Slots -/

namespace Counted

theorem congr (counted : Counted ctx s) (taken : s'.taken = s.taken)
    (count : s'.takenCount = s.takenCount) : Counted ctx s' where
  slots := by rw [taken, counted.slots]
  count := by rw [taken, count, counted.count]

theorem initial (ctx : Context) : Counted ctx (State.initial ctx) where
  slots := by simp [State.initial]
  count := by simp [State.initial, List.map_const', List.count_replicate]

theorem remaining (counted : Counted ctx s) : Checked.remaining s = some s.remaining := by
  apply Nat.psub_eq_sub
  rw [counted.count]
  exact List.count_le_length

theorem oneSlotLeft (counted : Counted ctx s) : Checked.oneSlotLeft s = some s.oneSlotLeft := by
  rw [Checked.oneSlotLeft, counted.remaining]
  rfl

theorem freeSlot_lt (counted : Counted ctx s) {slot : Nat} (free : s.freeSlot? = some slot) :
    slot < s.taken.length ∧ slot < ctx.table.slots.length := by
  have inside : slot < s.taken.length := (List.findIdx?_eq_some_iff_getElem.1 free).1
  exact ⟨inside, counted.slots ▸ inside⟩

theorem take (counted : Counted ctx s) {slot : Nat} (inside : slot < s.taken.length) :
    Succeeds ctx (Checked.take slot s) (s.take slot) := by
  have there : s.taken[slot]? = some s.taken[slot] := List.getElem?_eq_getElem inside
  rw [Checked.take, State.take, there]
  cases taken : s.taken[slot] with
  | true => exact .pure counted
  | false =>
      apply Succeeds.pure
      constructor
      · simpa using counted.slots
      · show s.takenCount + 1 = (s.taken.set slot true).count true
        rw [List.count_set inside, taken, counted.count]
        rfl

theorem taken (counted : Counted ctx s) (slot : Nat) : Counted ctx (s.take slot) := by
  by_cases inside : slot < s.taken.length
  · exact (counted.take inside).2
  · have absent : s.taken[slot]? = none := List.getElem?_eq_none (by omega)
    rw [State.take, absent]
    exact counted

theorem markFilled (counted : Counted ctx s) (option : OptionDecl) :
    Succeeds ctx (Checked.markFilled ctx option s) (s.markFilled ctx option) := by
  unfold Checked.markFilled State.markFilled
  refine .ite (fun _ => .ite (fun _ => .pure counted) fun _ => .pure (counted.congr rfl rfl))
    fun _ => ?_
  cases found : ctx.table.slotOf? option.name with
  | none => exact .pure counted
  | some slot =>
      apply counted.take
      rw [counted.slots]
      exact (List.findIdx?_eq_some_iff_getElem.1 found).1

/-! ## Giving values to options -/

theorem fillSlot (counted : Counted ctx s) (value : String) (start : Cursor) (stop : Nat)
    (long : Bool) :
    Succeeds ctx (Checked.fillSlot ctx value start stop long s)
      (s.fillSlot ctx value start stop long) := by
  unfold Checked.fillSlot State.fillSlot
  cases free : s.freeSlot? with
  | none => exact .pure counted
  | some slot =>
      obtain ⟨inside, declared⟩ := counted.freeSlot_lt free
      simp only [List.getElem?_eq_getElem declared, counted.remaining]
      refine Counted.take ?_ inside
      exact counted.congr rfl rfl

theorem fillNamed (counted : Counted ctx s) (named : Named) (value : String) (start stop : Nat) :
    Succeeds ctx (Checked.fillNamed ctx named value start stop s)
      (s.fillNamed ctx named value start stop) := by
  refine Counted.markFilled ?_ named.option
  exact counted.congr rfl rfl

theorem place (counted : Counted ctx s) (value : String) (start : Cursor) (stop : Nat)
    (long : Bool) :
    Succeeds ctx (Checked.place ctx value start stop long s)
      (s.place ctx value start stop long) := by
  unfold Checked.place State.place
  cases s.openSingle? ctx with
  | some named => exact counted.fillNamed named value start.offset stop
  | none =>
      cases long with
      | false => cases s.held <;> exact counted.fillSlot value start stop false
      | true =>
          cases s.held with
          | none => exact counted.fillSlot value start stop true
          | some held =>
              have unheld : Counted ctx { s with held := none } := counted.congr rfl rfl
              exact (unheld.fillSlot held.text held.start start.offset true).bind
                fun counted => counted.fillSlot value start stop true

theorem closeLongText (counted : Counted ctx s) (stop : Nat) :
    Succeeds ctx (Checked.closeLongText ctx stop s) (s.closeLongText ctx stop) := by
  unfold Checked.closeLongText State.closeLongText
  cases s.longText with
  | none => exact .pure counted
  | some long =>
      refine Counted.place ?_ _ long.body stop true
      exact counted.congr rfl rfl

theorem closeNamed (counted : Counted ctx s) (stop : Nat) :
    Succeeds ctx (Checked.closeNamed ctx stop s) (s.closeNamed ctx stop) := by
  unfold Checked.closeNamed State.closeNamed
  cases s.named with
  | none => exact .pure counted
  | some named =>
      have closed : Counted ctx
          { s with named := none, justClosed := true, lastFilled := some named.option.name } :=
        counted.congr rfl rfl
      simp only [namedValue_eq]
      refine (closed.markFilled named.option).bind fun counted => ?_
      exact .ite (fun _ => ⟨rfl, counted.congr rfl rfl⟩) fun _ => ⟨rfl, counted.congr rfl rfl⟩

theorem closeLastSlot (counted : Counted ctx s) (stop : Nat) (post : List Char) :
    Counted ctx (s.closeLastSlot ctx stop post) := by
  rw [State.closeLastSlot_frame]
  exact counted.congr rfl rfl

theorem hold (counted : Counted ctx s) (text : String) (start : Cursor) :
    Counted ctx (s.hold text start) := by
  unfold State.hold
  split <;> exact counted.congr rfl rfl

theorem flushHeld (counted : Counted ctx s) (stop : Nat) :
    Succeeds ctx (Checked.flushHeld ctx stop s) (s.flushHeld ctx stop) := by
  unfold Checked.flushHeld State.flushHeld
  cases s.held with
  | none => exact .pure counted
  | some held =>
      refine Counted.place ?_ held.text held.start stop false
      exact counted.congr rfl rfl

theorem placeText (counted : Counted ctx s) (text : String) (start : Cursor) (stop : Nat)
    (next : Option Char) (justClosed : Bool) :
    Succeeds ctx (Checked.placeText ctx text start stop next justClosed s)
      (s.placeText ctx text start stop next justClosed) := by
  have apart : Succeeds ctx
      (if isVisible next then some (s.hold text start)
        else Checked.place ctx text start stop false s)
      (if isVisible next then s.hold text start else s.place ctx text start stop false) :=
    .ite (fun _ => .pure (counted.hold text start)) fun _ => counted.place text start stop false
  unfold Checked.placeText State.placeText
  refine .ite (fun _ => .pure counted) fun _ => ?_
  cases s.held.isNone && !justClosed && isVisible start.before with
  | false => exact apart
  | true =>
      cases s.lastFilled with
      | none => exact apart
      | some last => exact .pure (counted.congr rfl rfl)

/-! ## Markers -/

theorem literalMarker (counted : Counted ctx s) (t : Token) (justClosed : Bool) :
    Succeeds ctx (Checked.literalMarker ctx t justClosed s)
      (s.literalMarker ctx t justClosed) := by
  unfold Checked.literalMarker State.literalMarker
  exact .ite (fun _ => .pure counted) fun _ => counted.placeText ..

theorem openNamed (counted : Counted ctx s) (t : Token) (escapes : Nat) (family : Family)
    (option : OptionDecl) (justClosed : Bool) :
    Succeeds ctx (Checked.openNamed ctx t escapes family option justClosed s)
      (s.openNamed ctx t escapes family option justClosed) := by
  unfold Checked.openNamed State.openNamed
  refine Succeeds.bind (.ite (fun _ => counted.placeText ..) fun _ => .pure counted)
    fun counted => ?_
  refine Succeeds.bind (.ite (fun _ => counted.flushHeld _) fun _ => .pure counted)
    fun counted => ?_
  refine Succeeds.bind (counted.closeNamed _) fun counted => ?_
  exact .pure ((counted.closeLastSlot _ _).congr rfl rfl)

theorem declaredMarker (counted : Counted ctx s) (t : Token) (escapes : Nat) (opening : Opening)
    (option : OptionDecl) (name : String) (justClosed : Bool) :
    Succeeds ctx (Checked.declaredMarker ctx t escapes opening option name justClosed s)
      (s.declaredMarker ctx t escapes opening option name justClosed) := by
  unfold Checked.declaredMarker State.declaredMarker
  cases opening with
  | hyphens count =>
      exact .ite (fun _ => .ite (fun _ => counted.placeText ..) fun _ => .pure counted)
        fun _ => counted.openNamed ..
  | colon => exact counted.openNamed ..

theorem onMarker (counted : Counted ctx s) (t : Token) (escapes : Nat) (opening : Opening)
    (name : String) (justClosed : Bool) :
    Succeeds ctx (Checked.onMarker ctx t escapes opening name justClosed s)
      (s.onMarker ctx t escapes opening name justClosed) := by
  unfold Checked.onMarker State.onMarker
  cases ctx.table.option? name with
  | none => exact counted.literalMarker t justClosed
  | some option =>
      refine .ite (fun _ => ?_) fun _ => counted.declaredMarker ..
      cases s.family with
      | none =>
          refine Counted.declaredMarker ?_ ..
          exact counted.congr rfl rfl
      | some family =>
          exact .ite (fun _ => counted.declaredMarker ..) fun _ =>
            counted.literalMarker t justClosed

/-! ## Backslashes and delimiters -/

theorem quotesArePlain (counted : Counted ctx s) :
    Checked.quotesArePlain ctx s = some (s.quotesArePlain ctx) := by
  unfold Checked.quotesArePlain State.quotesArePlain
  rw [counted.oneSlotLeft]
  cases ctx.config.plainLast.isSome && s.named.isNone <;> rfl

theorem escaped (counted : Counted ctx s) (escaping : Bool) (run : Cursor × Nat) :
    Counted ctx (if escaping then { s with escape := some run } else s) := by
  split
  · exact counted.congr rfl rfl
  · exact counted

theorem onBackslashes (counted : Counted ctx s) (t : Token) (count : Nat) (justClosed : Bool) :
    Succeeds ctx (Checked.onBackslashes ctx t count justClosed s)
      (s.onBackslashes ctx t count justClosed) := by
  unfold Checked.onBackslashes State.onBackslashes
  refine .ite (fun _ => .pure counted) fun _ => ?_
  rw [counted.quotesArePlain]
  have counted := counted.escaped
    (count % 2 == 1 && !((t.stop.after.bind Quote.ofChar?).isSome && s.quotesArePlain ctx) &&
      ctx.patterns.delimiters.escapesNext s.family t.stop.after) (t.start, t.stop.offset)
  exact .ite (fun _ => .pure counted) fun _ => .ite (fun _ => .pure counted)
    fun _ => counted.placeText ..

theorem takeFree (counted : Counted ctx s) :
    Succeeds ctx (match s.freeSlot? with | some slot => Checked.take slot s | none => some s)
      (match s.freeSlot? with | some slot => s.take slot | none => s) := by
  cases free : s.freeSlot? with
  | none => exact .pure counted
  | some slot => exact counted.take (counted.freeSlot_lt free).1

theorem closeCodeBlock {closing : Cursor} (counted : Counted ctx s) (long : LongText)
    (place : closing.In ctx.content) :
    Succeeds ctx (Checked.closeCodeBlock ctx long closing s)
      (s.closeCodeBlock ctx long closing) := by
  have stop : (if closing.before == some '\n' then closing.offset.psub 1 else some closing.offset) =
      some (if closing.before == some '\n' then closing.offset - 1 else closing.offset) := by
    by_cases feed : closing.before = some '\n'
    · have positive : 1 ≤ closing.offset := (place.isBoundary_before feed).2
      rw [if_pos (by simp [feed]), if_pos (by simp [feed]), Nat.psub_eq_sub positive]
    · rw [if_neg (by simpa using feed), if_neg (by simpa using feed)]
  unfold Checked.closeCodeBlock State.closeCodeBlock
  rw [stop]
  refine Succeeds.bind (.ite (fun _ => .pure counted) fun _ => .ite (fun _ => counted.place ..)
    fun _ => counted.takeFree) fun counted => ?_
  simp only [Option.bind_eq_bind, Option.bind_some]
  refine Counted.closeLongText ?_ _
  exact counted.congr rfl rfl

theorem isCodeBlock {long : LongText} (opened : long.start ≤ long.body.offset) :
    Checked.isCodeBlock long =
      some (long.quote == .backtick && long.body.offset - long.start == 2) := by
  rw [Checked.isCodeBlock, Nat.psub_eq_sub opened]
  cases long.quote == .backtick <;> rfl

/-- The quotes that may close the text stand between those that opened it and this one. -/
theorem onSameQuote {t : Token} {long : LongText} (counted : Counted ctx s)
    (opened : long.Opened ctx t.start.offset) :
    Succeeds ctx (Checked.onSameQuote ctx t long s) (s.onSameQuote ctx t long) := by
  have start : long.start ≤ long.body.offset := by
    obtain ⟨front, count, -, offset⟩ := opened.quotes
    omega
  unfold Checked.onSameQuote State.onSameQuote
  rw [isCodeBlock start]
  refine .ite (fun _ => .pure (counted.congr rfl rfl)) fun _ => ?_
  simp only [Option.bind_eq_bind, Option.bind_some]
  cases closing : long.closing with
  | none =>
      cases t.stop.after == some long.quote.char with
      | true => exact .pure (counted.congr rfl rfl)
      | false =>
          cases long.quote == .backtick && long.body.offset - long.start == 2 with
          | false => exact counted.closeLongText t.start.offset
          | true => exact .pure counted
  | some run =>
      have reached := (opened.closing run closing).reached
      cases t.stop.after == some long.quote.char with
      | true =>
          exact .ite (fun _ => .pure (counted.congr rfl rfl)) fun _ =>
            .pure (counted.congr rfl rfl)
      | false =>
          cases long.quote == .backtick && long.body.offset - long.start == 2 with
          | false => exact counted.closeLongText run.first.offset
          | true =>
              show Succeeds ctx (t.start.offset.psub run.first.offset >>= fun length =>
                if length < 2 then some s else Checked.closeCodeBlock ctx long run.first s) _
              rw [Nat.psub_eq_sub reached.2]
              exact .ite (fun _ => .pure counted) fun _ => counted.closeCodeBlock long reached.1

theorem onQuote {t : Token} (counted : Counted ctx s)
    (opened : ∀ long ∈ s.longText, long.Opened ctx t.start.offset) (quote : Quote) :
    Succeeds ctx (Checked.onQuote ctx t quote s) (s.onQuote ctx t quote) := by
  unfold Checked.onQuote State.onQuote
  cases open' : s.longText with
  | none => exact .pure (counted.congr rfl rfl)
  | some long =>
      exact .ite (fun _ => counted.onSameQuote (opened long open')) fun _ => .pure counted

theorem opensCodeBlock {t : Token} {c : Char} {rest : List Char} (inside : t.start.In ctx.content)
    (front : t.start.rest = c :: rest) :
    Checked.opensCodeBlock ctx t c = some (['`', '`', '`'].isPrefixOf t.start.rest) := by
  unfold Checked.opensCodeBlock
  by_cases backtick : c = '`'
  · rw [if_pos (by simp [backtick]), sliceFrom_place inside]
    rfl
  · have other : ('`' == c) = false := by simpa using Ne.symm backtick
    rw [if_neg (by simpa using backtick), front, List.isPrefixOf, other, Bool.false_and]

theorem delimiterIsValue {t : Token} {c : Char} {rest : List Char} (counted : Counted ctx s)
    (inside : t.start.In ctx.content) (front : t.start.rest = c :: rest) :
    Checked.delimiterIsValue ctx t c s = some (s.delimiterIsValue ctx t) := by
  unfold Checked.delimiterIsValue State.delimiterIsValue State.quotesArePlain
  rw [opensCodeBlock inside front, counted.oneSlotLeft]
  cases ctx.config.plainLast with
  | none => rfl
  | some plain =>
      cases s.named <;> cases s.longText <;> simp [Bool.and_comm, Bool.or_comm]

theorem onBareDelimiter {t : Token} {c : Char} {rest : List Char} (counted : Counted ctx s)
    (inside : t.start.In ctx.content) (front : t.start.rest = c :: rest)
    (opened : ∀ long ∈ s.longText, long.Opened ctx t.start.offset) (justClosed : Bool) :
    Succeeds ctx (Checked.onBareDelimiter ctx t c justClosed s)
      (s.onBareDelimiter ctx t c justClosed) := by
  unfold Checked.onBareDelimiter State.onBareDelimiter
  rw [counted.delimiterIsValue inside front]
  refine .ite (fun _ => counted.place ..) fun _ => ?_
  cases Quote.ofChar? c with
  | none => exact .ite (fun _ => counted.placeText ..) fun _ => .pure counted
  | some quote => exact counted.onQuote opened quote

theorem onDelimiter {t : Token} {c : Char} {rest : List Char} (counted : Counted ctx s)
    (located : s.Located ctx t.start.offset) (inside : t.start.In ctx.content)
    (front : t.start.rest = c :: rest) (justClosed : Bool) :
    Succeeds ctx (Checked.onDelimiter ctx t c justClosed s)
      (s.onDelimiter ctx t c justClosed) := by
  have free : Counted ctx { s with escape := none } := counted.congr rfl rfl
  unfold Checked.onDelimiter State.onDelimiter
  cases escape : s.escape.filter (·.2 == t.start.offset) with
  | none =>
      exact free.onBareDelimiter inside front (fun long there => (located.long long there).1)
        justClosed
  | some run =>
      have before := (located.escape run (Option.filter_eq_some_iff.1 escape).1).2
      refine .ite (fun _ => ?_) fun _ => .pure free
      rw [Nat.psub_eq_sub before]
      exact free.placeText ..

/-! ## Steps and runs -/

theorem onWord (counted : Counted ctx s) (t : Token) (justClosed : Bool) :
    Succeeds ctx (Checked.onWord ctx t justClosed s) (s.onWord ctx t justClosed) := by
  have apart := counted.place (String.ofList t.text) t.start t.stop.offset false
  unfold Checked.onWord State.onWord
  dsimp only
  generalize (!(justClosed || s.held.isSome || _)) = glued
  cases glued with
  | false => exact apart
  | true =>
      cases s.lastFilled with
      | none => exact apart
      | some last => exact .pure (counted.congr rfl rfl)

theorem onOther {t : Token} {text rest : List Char} (counted : Counted ctx s)
    (located : s.Located ctx t.start.offset) (inside : t.start.In ctx.content)
    (front : TokenFront ctx.patterns.delimiters t.kind text rest)
    (split : t.start.rest = text ++ rest) (justClosed : Bool) :
    Succeeds ctx (Checked.onOther ctx t justClosed s) (s.onOther ctx t justClosed) := by
  unfold Checked.onOther State.onOther
  extract_lets single atLine
  cases atLine <;> cases opened : s.named
  case true.some named => exact counted.closeNamed named.start.offset
  -- No line ends a single value here, so what the token is decides.
  all_goals
    refine .ite (fun _ => .pure counted) fun _ => ?_
    cases kind : t.kind with
    | marker escapes opening name => exact .pure counted
    | backslashes count => exact counted.onBackslashes t count justClosed
    | delimiter c =>
        rw [kind] at front
        cases front with
        | delimiter => exact counted.onDelimiter located inside split justClosed
    | word =>
        exact .ite (fun _ => .pure counted) fun _ =>
          .ite (fun _ => counted.onWord t justClosed) fun _ => .pure counted
    | lineFeeds => exact .pure counted

theorem step {t : Token} {text rest : List Char} (counted : Counted ctx s)
    (located : s.Located ctx t.start.offset) (inside : t.start.In ctx.content)
    (front : TokenFront ctx.patterns.delimiters t.kind text rest)
    (split : t.start.rest = text ++ rest) :
    Succeeds ctx (Checked.step ctx s t) (s.step ctx t) := by
  unfold Checked.step State.step
  extract_lets justClosed quiet
  have counted : Counted ctx quiet := counted.congr rfl rfl
  have located : quiet.Located ctx t.start.offset := located.congr rfl rfl rfl rfl rfl rfl
  have other := counted.onOther located inside front split justClosed
  cases t.kind with
  | marker escapes opening name =>
      cases quiet.longText with
      | none => exact counted.onMarker t escapes opening name justClosed
      | some long => exact other
  | _ => exact other

/-- From token to token the count stays right, and what is open stays in front. -/
theorem steps {c : Cursor} (counted : Counted ctx s) (located : s.Located ctx c.offset)
    (inside : c.In ctx.content) :
    Succeeds ctx (Checked.steps ctx s (tokensAt ctx.patterns.delimiters c)) (s.sweep ctx c) := by
  induction c, s using State.sweep_induction ctx with
  | finish c s ends =>
      cases ends with
      | inl ends =>
          rw [State.sweep_end ends, tokensAt, ends]
          exact .pure counted
      | inr stops =>
          rw [State.sweep_of_stops stops]
          cases tokensAt ctx.patterns.delimiters c with
          | nil => exact .pure counted
          | cons t ts =>
              rw [Checked.steps, if_pos stops]
              exact .pure counted
  | skip c s x rest split _ none _ ih =>
      rw [State.sweep_skip split none, tokensAt_skip split none]
      refine ih counted (located.mono ?_) (inside.past split)
      rw [Cursor.past_offset]
      exact Nat.le_add_right ..
  | token c s kind text rest split front found stops ih =>
      rw [State.sweep_token split found stops, tokensAt_token split found, Checked.steps,
        if_neg (by simp [stops])]
      have stepped : Succeeds ctx (Checked.step ctx s (.reading kind c text rest))
          (s.step ctx (.reading kind c text rest)) :=
        counted.step (t := .reading kind c text rest) located inside front split
      exact stepped.bind fun counted =>
        ih counted (located.step inside front split) (inside.past split)

theorem closeAll (counted : Counted ctx s) :
    Succeeds ctx (Checked.closeAll ctx s) (s.closeAll ctx) :=
  ((counted.closeLastSlot ctx.length []).closeNamed ctx.length).bind fun counted =>
    counted.closeLongText ctx.length

end Counted

theorem fillReplied_eq (ctx : Context) (message : Option Message) :
    Checked.fillReplied ctx message (.initial ctx) =
      some ((State.initial ctx).fillReplied? ctx message) := by
  unfold Checked.fillReplied State.fillReplied?
  cases ctx.config.replyFilling with
  | none => rfl
  | some filling =>
      cases message with
      | none => rfl
      | some message =>
          cases repliedTo : message.repliedTo with
          | none => simp [repliedTo]
          | some replied =>
              simp only [repliedTo, Option.bind_some, Option.map_some, Option.bind_eq_bind]
              split
              · rfl
              · cases free : (State.initial ctx).freeSlot? with
                | none => rfl
                | some slot =>
                    obtain ⟨inside, declared⟩ := (Counted.initial ctx).freeSlot_lt free
                    simp only [List.getElem?_eq_getElem declared, Option.bind_some]
                    split
                    · have taken := Counted.take (s := { State.initial ctx with
                        values := (State.initial ctx).values.insert ctx.table.slots[slot].name
                          replied }) ((Counted.initial ctx).congr rfl rfl) inside
                      rw [taken.1]
                      rfl
                    · rfl

theorem fillReplied?_counted {message : Option Message}
    (filled : (State.initial ctx).fillReplied? ctx message = some s) : Counted ctx s := by
  obtain ⟨option, replied, slot, -, -, rfl⟩ := State.fillReplied?_eq_some filled
  refine Counted.taken ?_ slot
  exact (Counted.initial ctx).congr rfl rfl

theorem run_eq (ctx : Context) (message : Option Message) :
    Checked.run ctx message = some (State.run ctx message) := by
  have whole {s : State} (counted : Counted ctx s) (located : s.Located ctx 0) :
      (Checked.steps ctx s (tokens ctx.patterns.delimiters ctx.content) >>=
          Checked.closeAll ctx) =
        some ((s.steps ctx (tokens ctx.patterns.delimiters ctx.content)).closeAll ctx) :=
    ((counted.steps (c := .start ctx.content) located (Cursor.start_in _)).bind
      fun counted => counted.closeAll).1
  unfold Checked.run State.run
  rw [fillReplied_eq]
  cases filled : (State.initial ctx).fillReplied? ctx message with
  | none =>
      simp only [filled, Option.bind_eq_bind, Option.bind_some]
      exact whole (.initial ctx) (.initial ctx)
  | some s =>
      simp only [filled, Option.bind_eq_bind, Option.bind_some]
      split
      · rfl
      · exact whole (fillReplied?_counted filled) (.fillReplied? filled)

end Parse

open Parse

/-- A parse whose operations can fail does not fail, and answers what the parse answers: whatever
is declared, whatever the settings, the text and the message are. -/
theorem Command.checked_parse_eq (command : Command) (shared : Config) (content : String)
    (message : Option Message) :
    Checked.parse command shared content message =
      some (command.parse shared content message) := by
  unfold Checked.parse Command.parse Table.parse
  dsimp only
  split
  · rfl
  · rw [run_eq]
    rfl

end ChatArgs
