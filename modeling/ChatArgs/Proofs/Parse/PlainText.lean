import ChatArgs.Proofs.Command.Names
import ChatArgs.Proofs.Parse.Escaping
import ChatArgs.Proofs.Parse.Sweep
import ChatArgs.Proofs.Parse.Words

/-!
# Texts in which nothing is special

Undeclared markers, stray hyphens and colons and web addresses cut a word into several
tokens, which are held until the word ends; the last slot is left open instead. The main
statement is `parse_plainText`: all of this amounts to cutting the text at its gaps.
-/

namespace ChatArgs.Parse

open Text

/-- Nothing in a text escapes, and no marker in it belongs to an option. -/
structure PlainText (ctx : Context) (cs : List Char) : Prop where
  noBackslash : ctx.patterns.delimiters.isActive = true → '\\' ∉ cs
  noMarker : ∀ (front text rest : List Char) (escapes : Nat) (opening : Opening) (name : String),
    cs = front ++ (text ++ rest) →
    TokenFront ctx.patterns.delimiters (.marker escapes opening name) text rest →
    ctx.table.option? name = none

theorem PlainText.suffix {ctx : Context} {cs rest : List Char} (plain : PlainText ctx cs)
    (front : List Char) (split : cs = front ++ rest) : PlainText ctx rest where
  noBackslash active := by
    intro member
    rw [split] at plain
    exact plain.noBackslash active (List.mem_append_right front member)
  noMarker := by
    intro front' text rest' escapes opening name split' token
    apply plain.noMarker (front ++ front') text rest' escapes opening name _ token
    rw [split, split', List.append_assoc]

namespace State

variable {ctx : Context}

/-! ## The state between words -/

def filled (ctx : Context) (done : List Filling) : State where
  values := ⟨done.map fun f => (f.name, f.value)⟩
  spans := ⟨done.map fun f => (f.name, f.span)⟩
  taken := List.replicate done.length true ++
    List.replicate (ctx.table.slots.length - done.length) false
  takenCount := done.length
  lastFilled := done.getLast?.map (·.name)

def heldFrom (place : Cursor) : List Char → Option Held
  | [] => none
  | c :: cs => some ⟨String.ofList (c :: cs), place⟩

def inWord (ctx : Context) (done : List Filling) (place : Cursor) (pre : List Char) : State :=
  { filled ctx done with held := heldFrom place pre }

theorem initial_eq_filled (ctx : Context) : initial ctx = filled ctx [] := by
  simp [initial, filled, List.map_const']

section

variable {done : List Filling}

theorem findIdx?_taken (count free : Nat) :
    (List.replicate count true ++ List.replicate (free + 1) false).findIdx?
      (fun taken => !taken) = some count := by
  induction count with
  | zero => rfl
  | succ count ih =>
      rw [List.replicate_succ, List.cons_append, List.findIdx?_cons, ih]
      rfl

theorem set_taken (count free : Nat) :
    List.replicate count true ++ (List.replicate (free + 1) false).set 0 true =
      List.replicate (count + 1) true ++ List.replicate free false := by
  have last : List.replicate (count + 1) true = List.replicate count true ++ [true] :=
    List.replicate_succ'
  rw [last, List.append_assoc]
  rfl

theorem fillSlot_inWord {option : OptionDecl} {pre : List Char} {place start : Cursor}
    (slot : ctx.table.slots[done.length]? = some option)
    (fresh : option.name ∉ done.map (·.name))
    (hstart : start.offset = place.offset + byteLength pre) (value : String) (stop : Nat) :
    (inWord ctx done place pre).fillSlot ctx value start stop false =
      { filled ctx (done ++ [⟨option.name, String.ofList pre ++ value, ⟨place.offset, stop⟩⟩]) with
        lastSlot :=
          if done.length + 1 = ctx.table.slots.length then
            some ⟨option.name, start, place.offset, String.ofList pre⟩
          else none } := by
  have bound : done.length < ctx.table.slots.length := (List.getElem?_eq_some_iff.1 slot).1
  obtain ⟨free, hfree⟩ : ∃ free, ctx.table.slots.length - done.length = free + 1 :=
    ⟨ctx.table.slots.length - done.length - 1, by omega⟩
  have later : ctx.table.slots.length - (done.length + 1) = free := by omega
  have index := findIdx?_taken done.length free
  have last : free = 0 ↔ done.length + 1 = ctx.table.slots.length := by omega
  have freshValue : option.name ∉ (done.map fun f => (f.name, f.value)).map (·.1) := by
    simpa using fresh
  have freshSpan : option.name ∉ (done.map fun f => (f.name, f.span)).map (·.1) := by
    simpa using fresh
  cases pre with
  | nil =>
      have same : start.offset = place.offset := by simpa using hstart
      simp [inWord, heldFrom, fillSlot, freeSlot?, filled, hfree, index, slot, remaining, last,
        later, setValue, take, Entries.insert, Entries.put_of_notMem freshValue,
        Entries.put_of_notMem freshSpan, set_taken, same]
  | cons c pre =>
      simp [inWord, heldFrom, fillSlot, freeSlot?, filled, hfree, index, slot, remaining, last,
        later, setValue, take, Entries.insert, Entries.put_of_notMem freshValue,
        Entries.put_of_notMem freshSpan, set_taken]

theorem place_filled {option : OptionDecl} (slot : ctx.table.slots[done.length]? = some option)
    (fresh : option.name ∉ done.map (·.name)) (closed : Bool) (value : String) (start : Cursor)
    (stop : Nat) :
    ({ filled ctx done with justClosed := closed } : State).place ctx value start stop true =
      { filled ctx (done ++ [⟨option.name, value, ⟨start.offset, stop⟩⟩]) with
        justClosed := closed } := by
  have bound : done.length < ctx.table.slots.length := (List.getElem?_eq_some_iff.1 slot).1
  obtain ⟨free, hfree⟩ : ∃ free, ctx.table.slots.length - done.length = free + 1 :=
    ⟨ctx.table.slots.length - done.length - 1, by omega⟩
  have later : ctx.table.slots.length - (done.length + 1) = free := by omega
  have freshValue : option.name ∉ (done.map fun f => (f.name, f.value)).map (·.1) := by
    simpa using fresh
  have freshSpan : option.name ∉ (done.map fun f => (f.name, f.span)).map (·.1) := by
    simpa using fresh
  simp [place, openSingle?, filled, fillSlot, freeSlot?, hfree, findIdx?_taken done.length free,
    slot, later, setValue, take, Entries.insert, Entries.put_of_notMem freshValue,
    Entries.put_of_notMem freshSpan, set_taken]

/-! ## Tokens of a word -/

section

variable {place : Cursor} {pre text rest : List Char}

/-- Text that is neither glued nor placed is held, and so the word goes on. -/
theorem placeText_inWord (outside : isVisible place.before = false)
    (split : place.rest = pre ++ (text ++ rest)) (nonempty : text ≠ []) (stop : Nat) :
    (inWord ctx done place pre).placeText ctx (String.ofList text) (place.past pre (text ++ rest))
        stop rest.head? false =
      if isVisible rest.head? then inWord ctx done place (pre ++ text)
      else (inWord ctx done place pre).fillSlot ctx (String.ofList text)
        (place.past pre (text ++ rest)) stop false := by
  obtain ⟨c, cs, rfl⟩ := List.exists_cons_of_ne_nil nonempty
  cases pre with
  | nil =>
      have same : place.past [] (c :: cs ++ rest) = place := by
        rw [show c :: cs ++ rest = place.rest from split.symm]
        rfl
      rw [same]
      simp [placeText, inWord, filled, heldFrom, outside, hold, State.place, openSingle?]
  | cons c pre =>
      simp [placeText, inWord, filled, heldFrom, hold, State.place, openSingle?,
        String.append_assoc]

theorem onWord_inWord (outside : isVisible place.before = false)
    (first : place.before = none → done = []) :
    (inWord ctx done place pre).onWord ctx
        (.reading .word (place.past pre (text ++ rest)) text rest) false =
      (inWord ctx done place pre).fillSlot ctx (String.ofList text)
        (place.past pre (text ++ rest)) (place.past (pre ++ text) rest).offset false := by
  have word : (Token.reading .word (place.past pre (text ++ rest)) text rest).text = text :=
    Token.reading_text .word rfl
  have stop : (place.past (pre ++ text) rest).offset =
      ((place.past pre (text ++ rest)).past text rest).offset := by
    rw [Cursor.past_past]
  rw [onWord, word, stop]
  cases pre with
  | nil =>
      cases before : place.before with
      | none =>
          have fresh : done = [] := first before
          subst fresh
          simp [Token.reading, Cursor.past, before, inWord, filled, heldFrom, State.place,
            openSingle?]
      | some c =>
          have gap : isGap c = true := by simpa [before] using outside
          simp [Token.reading, Cursor.past, before, inWord, filled, heldFrom, State.place,
            openSingle?, gap]
  | cons c pre =>
      simp [Token.reading, inWord, filled, heldFrom, State.place, openSingle?]

theorem oneSlotLeft_inWord (place : Cursor) (pre : List Char)
    (bound : done.length < ctx.table.slots.length) :
    (inWord ctx done place pre).oneSlotLeft =
      decide (done.length + 1 = ctx.table.slots.length) := by
  rw [oneSlotLeft, decide_eq_decide]
  simp only [remaining, inWord, filled, List.length_append, List.length_replicate]
  omega

/-- A delimiter is placed at once in the last slot where quotes are plain there; else it is
treated like other text. -/
theorem onDelimiter_inWord {c : Char} {start : Cursor}
    (bound : done.length < ctx.table.slots.length)
    (delimiter : isDelimiterChar ctx.patterns.delimiters c = true)
    (quotes : ctx.patterns.delimiters.isQuoteChar c = false ∨
      ctx.config.plainLast = some ⟨false⟩ ∧ done.length + 1 = ctx.table.slots.length) :
    (inWord ctx done place pre).onDelimiter ctx (.reading (.delimiter c) start [c] rest) c false =
      (inWord ctx done place pre).placeText ctx (String.ofList [c]) start
        (start.past [c] rest).offset rest.head? false ∨
    done.length + 1 = ctx.table.slots.length ∧
      (inWord ctx done place pre).onDelimiter ctx (.reading (.delimiter c) start [c] rest) c
          false =
        (inWord ctx done place pre).fillSlot ctx (String.ofList [c]) start
          (start.past [c] rest).offset false := by
  have bare : (inWord ctx done place pre).onDelimiter ctx
        (.reading (.delimiter c) start [c] rest) c false =
      (inWord ctx done place pre).onBareDelimiter ctx
        (.reading (.delimiter c) start [c] rest) c false := rfl
  have slots := oneSlotLeft_inWord place pre bound
  rw [bare, onBareDelimiter]
  split
  · rename_i isValue
    right
    refine ⟨?_, rfl⟩
    unfold delimiterIsValue at isValue
    split at isValue
    · simp only [Bool.and_eq_true, quotesArePlain] at isValue
      have left : (inWord ctx done place pre).oneSlotLeft = true := isValue.2.2
      rw [slots, decide_eq_true_eq] at left
      exact left
    · simp at isValue
  · rename_i notValue
    cases found : Quote.ofChar? c with
    | none => exact .inl rfl
    | some q =>
        -- A quote that is switched on would be a value here.
        exfalso
        have char := Quote.char_of_ofChar? found
        have enabled : ctx.patterns.delimiters.isQuoteChar c = true := by
          simp only [isDelimiterChar, Bool.or_eq_true, Bool.and_eq_true, beq_iff_eq] at delimiter
          rcases delimiter with (enabled | ⟨-, rfl⟩) | ⟨-, rfl⟩
          · exact enabled
          · cases q <;> exact absurd char (by decide)
          · cases q <;> exact absurd char (by decide)
        rcases quotes with disabled | ⟨plain, last⟩
        · simp [enabled] at disabled
        · apply notValue
          have noLong : (inWord ctx done place pre).longText = none := rfl
          have noNamed : (inWord ctx done place pre).named = none := rfl
          simp [delimiterIsValue, plain, noLong, quotesArePlain, noNamed, slots, last]

/-! ## Steps through a word -/

end

/-- The word at `place` is read up to `pre`; `more` is left of it, and `after` stands behind
it. -/
structure WordRest (ctx : Context) (done : List Filling) (place : Cursor)
    (pre more after : List Char) : Prop where
  bound : done.length < ctx.table.slots.length
  counted : ctx.table.slots.length ≤ ctx.table.optionCount
  outside : isVisible place.before = false
  first : place.before = none → done = []
  split : place.rest = pre ++ (more ++ after)
  visible : ∀ c ∈ more, isGap c = false
  stop : ∀ c ∈ after.head?, isGap c = true
  plain : PlainText ctx (more ++ after)

/-- No quote in a text counts: there is none, or quotes are plain text in the last slot. -/
def QuotesArePlain (ctx : Context) (done : List Filling) (cs : List Char) : Prop :=
  (∀ c ∈ cs, ctx.patterns.delimiters.isQuoteChar c = false) ∨
    ctx.config.plainLast = some ⟨false⟩ ∧ done.length + 1 = ctx.table.slots.length

/-- What becomes of the token `text` of a word: it is held while the word goes on, or it is
placed, at the end of the word or in the last slot. -/
inductive Consumes (ctx : Context) (done : List Filling) (place : Cursor)
    (pre text more after : List Char) : State → Prop
  | held : more ≠ [] → Consumes ctx done place pre text more after
      (inWord ctx done place (pre ++ text))
  | placed : more = [] ∨ done.length + 1 = ctx.table.slots.length →
      Consumes ctx done place pre text more after
        ((inWord ctx done place pre).fillSlot ctx (String.ofList text)
          (place.past pre (text ++ (more ++ after)))
          (place.past (pre ++ text) (more ++ after)).offset false)

theorem QuotesArePlain.of_append {cs text rest : List Char} (quotes : QuotesArePlain ctx done cs)
    (split : cs = text ++ rest) : QuotesArePlain ctx done rest := by
  rcases quotes with disabled | last
  · left
    intro c member
    exact disabled c (by simp [split, member])
  · exact .inr last

namespace WordRest

variable {place : Cursor} {pre text more after : List Char}

theorem advance (word : WordRest ctx done place pre (text ++ more) after) :
    WordRest ctx done place (pre ++ text) more after where
  bound := word.bound
  counted := word.counted
  outside := word.outside
  first := word.first
  split := by rw [word.split, List.append_assoc, List.append_assoc]
  visible := fun c member => word.visible c (List.mem_append_right text member)
  stop := word.stop
  plain := word.plain.suffix text (List.append_assoc text more after)

theorem goesOn (word : WordRest ctx done place pre more after) :
    isVisible (more ++ after).head? = true ↔ more ≠ [] := by
  cases more with
  | nil =>
      cases after with
      | nil => simp [isVisible]
      | cons c after =>
          have gap : isGap c = true := word.stop c rfl
          simp [gap]
  | cons c more =>
      have shown : isGap c = false := word.visible c List.mem_cons_self
      simp [shown]

theorem placeText (word : WordRest ctx done place pre (text ++ more) after) (nonempty : text ≠ []) :
    Consumes ctx done place pre text more after
      ((inWord ctx done place pre).placeText ctx (String.ofList text)
        (place.past pre (text ++ (more ++ after)))
        (place.past (pre ++ text) (more ++ after)).offset (more ++ after).head? false) := by
  have split : place.rest = pre ++ (text ++ (more ++ after)) := by
    rw [word.split, List.append_assoc]
  have goesOn := word.advance.goesOn
  rw [placeText_inWord word.outside split nonempty]
  by_cases ends : more = []
  · rw [if_neg (by rw [goesOn]; exact not_not_intro ends)]
    exact .placed (.inl ends)
  · rw [if_pos (goesOn.2 ends)]
    exact .held ends

theorem step_undeclared {escapes : Nat} {opening : Opening} {name : String}
    (undeclared : ctx.table.option? name = none) :
    (inWord ctx done place pre).step ctx
        (.reading (.marker escapes opening name) (place.past pre (text ++ (more ++ after))) text
          (more ++ after)) =
      (inWord ctx done place pre).placeText ctx (String.ofList text)
        (place.past pre (text ++ (more ++ after)))
        (place.past (pre ++ text) (more ++ after)).offset (more ++ after).head? false := by
  have read : (Token.reading (.marker escapes opening name)
      (place.past pre (text ++ (more ++ after))) text (more ++ after)).text = text :=
    Token.reading_text _ rfl
  have opens : (inWord ctx done place pre).step ctx
        (.reading (.marker escapes opening name) (place.past pre (text ++ (more ++ after))) text
          (more ++ after)) =
      (inWord ctx done place pre).onMarker ctx
        (.reading (.marker escapes opening name) (place.past pre (text ++ (more ++ after))) text
          (more ++ after)) escapes opening name false := rfl
  rw [opens, onMarker, undeclared, ← Cursor.past_past]
  simp only [literalMarker, read]
  rfl

/-- A word token without quotes behind it goes up to the end of the word. -/
theorem ends_of_stops (word : WordRest ctx done place pre (text ++ more) after)
    (disabled : ∀ c ∈ text ++ more, ctx.patterns.delimiters.isQuoteChar c = false)
    (stops : ∀ c ∈ (more ++ after).head?, isWordChar ctx.patterns.delimiters c = false) :
    more = [] := by
  cases more with
  | nil => rfl
  | cons c more =>
      exfalso
      have noWord := stops c rfl
      have shown : isGap c = false := word.visible c (by simp)
      have noQuote := disabled c (by simp)
      have noBackslash : (ctx.patterns.delimiters.isActive && c == '\\') = false := by
        cases active : ctx.patterns.delimiters.isActive with
        | false => rfl
        | true =>
            have absent := word.plain.noBackslash active
            simp only [List.mem_append, List.mem_cons, not_or] at absent
            simpa using fun same : c = '\\' => absent.1.2.1 same.symm
      simp [isWordChar, shown, noQuote, noBackslash] at noWord

/-- Every token of a word is consumed. -/
theorem step (word : WordRest ctx done place pre (text ++ more) after) {kind : TokenKind}
    (quotes : QuotesArePlain ctx done (text ++ more))
    (token : TokenFront ctx.patterns.delimiters kind text (more ++ after)) :
    Consumes ctx done place pre text more after
      ((inWord ctx done place pre).step ctx
        (.reading kind (place.past pre (text ++ (more ++ after))) text (more ++ after))) := by
  have plain : PlainText ctx (text ++ (more ++ after)) :=
    word.plain.suffix [] (List.append_assoc text more after)
  have asText := word.placeText token.ne_nil
  have undeclared {escapes : Nat} {opening : Opening} {name : String} :=
    plain.noMarker [] text (more ++ after) escapes opening name rfl
  cases token with
  | hyphens hcount enabled valid hsign =>
      rw [step_undeclared (undeclared (.hyphens hcount enabled valid hsign))]
      exact asText
  | colon enabled filled parts address =>
      rw [step_undeclared (undeclared (.colon enabled filled parts address))]
      exact asText
  | delimiter enabled =>
      rename_i c
      have quotes' : ctx.patterns.delimiters.isQuoteChar c = false ∨
          ctx.config.plainLast = some ⟨false⟩ ∧ done.length + 1 = ctx.table.slots.length := by
        rcases quotes with disabled | last
        · exact .inl (disabled c (by simp))
        · exact .inr last
      rw [← Cursor.past_past] at asText
      rcases onDelimiter_inWord word.bound enabled quotes' with same | ⟨last, same⟩
      · rw [← same] at asText
        exact asText
      · have placed : Consumes ctx done place pre [c] more after _ := .placed (.inr last)
        rw [← Cursor.past_past, ← same] at placed
        exact placed
  | word filled inside stops =>
      have ends : more = [] ∨ done.length + 1 = ctx.table.slots.length := by
        rcases quotes with disabled | ⟨-, last⟩
        · exact .inl (word.ends_of_stops disabled stops)
        · exact .inr last
      have placed : Consumes ctx done place pre text more after _ := .placed ends
      rw [← onWord_inWord word.outside word.first] at placed
      exact placed
  | backslashes positive active _ _ =>
      exfalso
      apply plain.noBackslash active
      apply List.mem_append_left
      simp [Parse.backslashes]
      omega
  | lineFeeds positive _ =>
      have shown := word.visible '\n' (by simp; omega)
      exact absurd shown (by decide)

end WordRest

end

end State

end ChatArgs.Parse
