import ChatArgs.Proofs.Parse.SingleWord
import ChatArgs.Proofs.Parse.SlotEscapes

/-!
# Backslashes in front of a quote

Half of the backslashes in front of a quote are text. Behind an even run the quote opens a long
text, in front of which the text of the run is a value of its own; behind an odd run the quote is
text itself, and the word behind it goes on.
-/

namespace ChatArgs

namespace Parse

open Text

theorem matchChoices_of_unchosen {command : Command} {values : Entries String}
    (noChoices : ∀ o ∈ command.options, o.name ∈ values.keys → o.choices = [])
    (matching : Option ChoiceMatching) :
    matchChoices (Table.ofCommand command).choices matching values = values := by
  apply matchChoices_of_notMem
  intro t member
  simp only [Table.ofCommand, List.mem_map, List.mem_filter] at member
  obtain ⟨o, ⟨⟨declared, -⟩, chosen⟩, rfl⟩ := member
  intro known
  simp [noChoices o declared known] at chosen

theorem tokenAt?_backslashes {d : Delimiters} {count : Nat} {x : Char} {rest : List Char}
    (positive : 0 < count) (active : d.isActive = true) (noName : isNamePart x = false)
    (noHyphen : x ≠ '-') (noBackslash : x ≠ '\\') :
    tokenAt? d (backslashes count ++ x :: rest) =
      some (.backslashes count, (backslashes count).length) := by
  have run : (backslashes count ++ x :: rest).takeWhile (· == '\\') = backslashes count := by
    apply takeWhile_append_stop
    · simp [backslashes]
    · simpa using noBackslash
  have unmarked (colons : Bool) : marker? d colons (backslashes count ++ x :: rest) = none := by
    have noMarker : hyphenMarker? d count (x :: rest) = none := by
      simp [hyphenMarker?, hyphensMarker?, List.replicate, noHyphen.symm]
    have noColon : colonMarker? count (x :: rest) = none := by simp [colonMarker?, noName]
    have behind : (backslashes count ++ x :: rest).drop count = x :: rest :=
      List.drop_left' (length_backslashes count)
    simp only [marker?, run, length_backslashes, behind, noMarker, noColon, ite_self]
  obtain ⟨fewer, rfl⟩ : ∃ fewer, count = fewer + 1 := ⟨count - 1, by omega⟩
  have noDelimiter : isDelimiterChar d '\\' = false := by simp [isDelimiterChar]
  have noWord : isWordChar d '\\' = false := by simp [isWordChar, active]
  rw [backslashes_succ, List.cons_append] at run unmarked ⊢
  simp [tokenAt?, matchAt?, unmarked, noDelimiter, noWord, run]

theorem Unmarked.of_end {ctx : Context} {c : Cursor} (plainLast : ctx.config.plainLast = none)
    (ends : c.rest = []) : Unmarked ctx c :=
  ⟨plainLast, by simp [ends], by simp [ends], by simp [Undeclared, tokensAt_end ends]⟩

namespace State

variable {ctx : Context} {s : State} {c : Cursor}

/-- A long text whose quote does not come again stays open to the end. -/
theorem sweep_unclosed {long : LongText} (reads : ReadsQuotes ctx long.quote)
    (inside : InQuote ctx long s) (unescaped : s.escape = none)
    (noQuote : long.quote.char ∉ c.rest) (noBackslash : '\\' ∉ c.rest) : s.sweep ctx c = s := by
  induction c using tokensAt_induction ctx.patterns.delimiters with
  | finish c ends => exact sweep_end ends
  | skip c x rest split gap none ih =>
      rw [split, List.mem_cons, not_or] at noQuote noBackslash
      rw [sweep_skip split none]
      exact ih noQuote.2 noBackslash.2
  | token c kind text rest split front found ih =>
      rw [split, List.mem_append, not_or] at noQuote noBackslash
      have passed : s.step ctx (.reading kind c text rest) = s := by
        apply step_inQuote reads inside unescaped
        · rintro rfl
          cases front
          exact noQuote.1 List.mem_cons_self
        · rintro count rfl
          obtain ⟨positive, -, -, rfl⟩ := front.backslashes_inv
          exact absurd (List.mem_replicate.2 ⟨positive.ne', rfl⟩) noBackslash.1
      rw [sweep_token split found (reads.stops s), passed]
      exact ih noQuote.2 noBackslash.2

/-! ## The first value -/

/-- A word at the end of the text is a value. -/
theorem foundFrom_lastWord {held : Option Held} {escape : Option (Cursor × Nat)}
    (goes : (initial ctx).stops ctx = false) {word : List Char} (filled : word ≠ [])
    (parts : ∀ x ∈ word, isNamePart x = true) (here : c.rest = word) :
    foundFrom ctx held escape c = filledFrom ctx held escape word c (c.past word []) := by
  have split : c.rest = word ++ [] := by simp [here]
  apply foundFrom_word goes split
  rw [split]
  exact tokenAt?_word _ filled parts (by simp)

theorem filledFrom_first_end (plainLast : ctx.config.plainLast = none)
    (goesOn : ctx.config.stopWhenFilled = false) {first second : OptionDecl}
    {more : List OptionDecl} (slots : ctx.table.slots = first :: second :: more)
    (ends : c.rest = []) (held : Option Held) (escape : Option (Cursor × Nat))
    (value : List Char) (start : Cursor) :
    filledFrom ctx held escape value start c =
      .ofList [(first.name, String.ofList (heldText held ++ value))] := by
  rw [filledFrom_first (.of_end plainLast ends) goesOn slots (absurd ends) (absurd ends),
    tokensAt_end ends, keptText, List.flatMap_nil, List.append_nil]
  rfl

variable {quote : Quote} (reads : ReadsQuotes ctx quote)

def heldRun (count : Nat) (start : Cursor) : Option Held :=
  if count / 2 = 0 then none else holding none (backslashes (count / 2)) start

theorem heldText_heldRun (count : Nat) (start : Cursor) :
    heldText (heldRun count start) = backslashes (count / 2) := by
  unfold heldRun
  split
  · rename_i none
    rw [none]
    rfl
  · simp

include reads in
/-- Half of the backslashes are held, and an odd one escapes the quote. -/
theorem foundFrom_backslashes_quote {count : Nat} {rest : List Char} (positive : 0 < count)
    (split : c.rest = backslashes count ++ quote.char :: rest) :
    let quoteAt := c.past (backslashes count) (quote.char :: rest)
    foundFrom ctx none none c = foundFrom ctx (heldRun count c)
      (if count % 2 == 1 then some (c, quoteAt.offset) else none) quoteAt := by
  intro quoteAt
  obtain ⟨noName, noHyphen, noBackslash, visible⟩ : isNamePart quote.char = false ∧
      quote.char ≠ '-' ∧ quote.char ≠ '\\' ∧ isGap quote.char = false := by
    cases quote <;> decide
  have found : tokenAt? ctx.patterns.delimiters c.rest =
      some (.backslashes count, (backslashes count).length) := by
    rw [split]
    exact tokenAt?_backslashes positive reads.isActive noName noHyphen noBackslash
  have special : true = (!(((quote.char :: rest).head?.bind Quote.ofChar?).isSome &&
      (waiting ctx none none).quotesArePlain ctx) &&
        ctx.patterns.delimiters.escapesNext none (quote.char :: rest).head?) := by
    simp [quotesArePlain, reads.plainLast, reads.escapesNext]
  have kept : keptCount count true = count / 2 := by simp [keptCount]
  have shown : isVisible quoteAt.after = true := by simp [quoteAt, isVisible, visible]
  rw [foundFrom_backslashes (reads.stops _) split found special]
  simp only [Bool.and_true, kept, heldRun]
  split
  · rfl
  · rw [placedFrom, if_pos shown]

section

variable {first second : OptionDecl} {more : List OptionDecl}
  (slots : ctx.table.slots = first :: second :: more) {word : List Char}
  (parts : ∀ x ∈ word, isNamePart x = true) (split : c.rest = quote.char :: word)
include reads slots parts split

/-- A quote that is escaped is text, and the word behind it is glued to it. -/
theorem foundFrom_escapedQuote (held : Option Held) (start : Cursor) :
    foundFrom ctx held (some (start, c.offset)) c =
      .ofList [(first.name, String.ofList (heldText held ++ quote.char :: word))] := by
  have split' : c.rest = [quote.char] ++ word := split
  have found : tokenAt? ctx.patterns.delimiters c.rest =
      some (.delimiter quote.char, [quote.char].length) := by
    rw [split]
    exact tokenAt?_quote reads.isQuoteChar word
  have finished {c : Cursor} (ends : c.rest = []) (held : Option Held) (value : List Char)
      (start : Cursor) : filledFrom ctx held none value start c =
        .ofList [(first.name, String.ofList (heldText held ++ value))] :=
    filledFrom_first_end reads.plainLast reads.goesOn slots ends held none value start
  rw [foundFrom_escaped (reads.stops _) split' found, placedFrom]
  cases word with
  | nil =>
      rw [if_neg (by simp [isVisible])]
      exact finished rfl held [quote.char] start
  | cons x word =>
      have visible := isGap_of_isNamePart (parts x List.mem_cons_self)
      rw [if_pos (by simp [isVisible, visible]), foundFrom_lastWord (reads.stops _) (by simp) parts
        rfl, finished rfl, heldText_holding, List.append_assoc, List.singleton_append]

/-- A quote that is not escaped opens a long text; text in front of it is a value of its own. -/
theorem foundFrom_openingQuote (inside : c.In ctx.content) (held : Option Held) :
    foundFrom ctx held none c = .ofList (match held with
      | none => [(first.name, String.ofList word)]
      | some held => [(first.name, held.text), (second.name, String.ofList word)]) := by
  have split' : c.rest = [quote.char] ++ word := split
  have found : tokenAt? ctx.patterns.delimiters c.rest =
      some (.delimiter quote.char, [quote.char].length) := by
    rw [split]
    exact tokenAt?_quote reads.isQuoteChar word
  let body := c.past [quote.char] word
  let quoted : State :=
    { waiting ctx held none with longText := some ⟨quote, body.offset, body, none⟩ }
  have opens : (waiting ctx held none).onBareDelimiter ctx
      (.reading (.delimiter quote.char) c [quote.char] word) quote.char false = quoted := by
    simp [onBareDelimiter, delimiterIsValue, reads.plainLast, onQuote, waiting, initial, quoted,
      Token.reading, body]
  have passed : quoted.sweep ctx body = quoted := by
    have noQuote : quote.char ∉ word := by
      intro member
      have part := parts _ member
      cases quote <;> exact absurd part (by decide)
    have opened : InQuote ctx ⟨quote, body.offset, body, none⟩ quoted := ⟨rfl, rfl, rfl, rfl⟩
    exact sweep_unclosed reads opened rfl noQuote (backslash_notMem_of_nameParts parts)
  have raw : body.textTo ctx.length = word := (inside.past split').textTo_end
  have value := unescapeWith_of_notMem (ctx.patterns.delimiters.quoteEscapes quote)
    (backslash_notMem_of_nameParts parts)
  have closes : quoted.closeAll ctx = ({ waiting ctx held none with justClosed := true } :
      State).place ctx (String.ofList word) body ctx.length true := by
    simp [closeAll, closeLastSlot, closeNamed, closeLongText, quoted, waiting, initial, raw, value]
  rw [foundFrom_bare (reads.stops _) split' found (by simp), opens, passed, closes]
  cases held <;>
    simp [place, openSingle?, fillSlot, waiting, initial, slots, freeSlot?, List.findIdx?_cons,
      setValue, take, Entries.ofList, Entries.empty]

end

end State

end Parse

open Parse Text

namespace Command

/-- The parity of the backslashes in front of a quote decides what the quote is: behind an even run
it opens a long text, which ends with the text, and behind an odd run it is text. -/
theorem parse_backslashes_quote {command : Command} {shared : Config}
    (configured : (Table.ofCommand command).configFor shared = {}) {first second : OptionDecl}
    {more : List OptionDecl} (slots : (Table.ofCommand command).slots = first :: second :: more)
    (noChoices : ∀ o ∈ command.options, o.name = first.name ∨ o.name = second.name →
      o.choices = [])
    (count : Nat) (quote : Quote) {word : List Char} (plain : ∀ c ∈ word, c.isAlphanum = true)
    (message : Option Message) :
    (command.parse shared (String.ofList (backslashes count ++ quote.char :: word))
        message).values =
      .ofList (if count = 0 then [(first.name, String.ofList word)]
        else if count % 2 = 0 then
          [(first.name, String.ofList (backslashes (count / 2))),
            (second.name, String.ofList word)]
        else
          [(first.name, String.ofList (backslashes ((count - 1) / 2) ++ quote.char :: word))]) := by
  let content := String.ofList (backslashes count ++ quote.char :: word)
  let pairs := if count = 0 then [(first.name, String.ofList word)]
    else if count % 2 = 0 then
      [(first.name, String.ofList (backslashes (count / 2))), (second.name, String.ofList word)]
    else [(first.name, String.ofList (backslashes ((count - 1) / 2) ++ quote.char :: word))]
  let ctx : Context := ⟨content.toList, .ofCommand command, {}, .ofConfig {}⟩
  have parts (x : Char) (member : x ∈ word) : isNamePart x = true :=
    isNamePart_of_isAlphanum (plain x member)
  have reads : ReadsQuotes ctx quote := ⟨by cases quote <;> rfl, rfl, rfl⟩
  have all : (Cursor.start ctx.content).rest = backslashes count ++ quote.char :: word :=
    String.toList_ofList
  have found : State.foundFrom ctx none none (Cursor.start ctx.content) = .ofList pairs := by
    by_cases none : count = 0
    · subst none
      exact State.foundFrom_openingQuote reads slots parts all (Cursor.start_in ctx.content) _
    · rw [State.foundFrom_backslashes_quote reads (Nat.pos_of_ne_zero none) all]
      by_cases even : count % 2 = 0
      · have half : ¬ count / 2 = 0 := by omega
        rw [if_neg (by simp [even]), State.foundFrom_openingQuote reads slots parts rfl
          ((Cursor.start_in ctx.content).past all)]
        simp [State.heldRun, half, State.holding, pairs, none, even]
      · have odd : (count % 2 == 1) = true := by simpa using even
        have half : count / 2 = (count - 1) / 2 := by omega
        rw [if_pos odd, State.foundFrom_escapedQuote reads slots parts rfl,
          State.heldText_heldRun, half]
        simp only [pairs, if_neg none, if_neg even]
  have counted := Table.optionCount_pos_of_slot (c := command) (o := first) (by simp [slots])
  rw [parse_foundFrom counted configured rfl, found]
  have names : ∀ name ∈ pairs.map (·.1), name = first.name ∨ name = second.name := by
    by_cases none : count = 0
    · simp [pairs, none]
    · by_cases even : count % 2 = 0 <;> simp [pairs, none, even]
  exact matchChoices_of_unchosen (fun o declared known =>
    noChoices o declared (names o.name (Entries.mem_keys_ofList.1 known))) _

/-- Two backslashes in front of a quote leave one, and the quote opens a long text. -/
theorem parse_backslashes_quote_two :
    (Command.parse ⟨"say", [{ name := "x" }, { name := "y" }], none⟩ {} "\\\\\"ab"
      none).values = .ofList [("x", "\\"), ("y", "ab")] :=
  @parse_backslashes_quote ⟨"say", [{ name := "x" }, { name := "y" }], none⟩ {} rfl
    { name := "x" } { name := "y" } [] rfl (by decide) 2 .double ['a', 'b'] (by simp) none

end Command

end ChatArgs
