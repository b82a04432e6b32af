import ChatArgs.Proofs.Parse.OneFamily
import ChatArgs.Proofs.Parse.QuoteParity

/-!
# Markers behind an odd run of backslashes

A marker with hyphens behind an odd run of backslashes opens no option: it is text, from which one
backslash of the run and every second one is left out. The text is put together from the hyphens
and the name, so a sign of equality or a colon that the marker ends with is left out too.
-/

namespace ChatArgs

namespace Parse

open Text

/-! ## The token -/

def signedMarker (escapes count : Nat) (name : List Char) (sign : Char) : List Char :=
  backslashes escapes ++ (List.replicate count '-' ++ (name ++ [sign]))

theorem tokenAt?_signedMarker {d : Delimiters} {count : Nat} {name : List Char}
    (enabled : count = 1 ∧ d.hasSingleHyphen = true ∨ count = 2 ∧ d.hasDoubleHyphen = true)
    (valid : IsIdentifier name) {sign : Char} (isSign : sign = '=' ∨ sign = ':') (escapes : Nat)
    (rest : List Char) :
    tokenAt? d (signedMarker escapes count name sign ++ rest) =
      some (.marker escapes (.hyphens count) (String.ofList name),
        (signedMarker escapes count name sign).length) := by
  have noPart : isNamePart sign = false := by rcases isSign with rfl | rfl <;> decide
  have found := @tokenAt?_hyphens d count name (sign :: rest) enabled valid (by simpa using noPart)
    escapes
  have size : (signedMarker escapes count name sign).length =
      escapes + count + name.length + signLength (sign :: rest) := by
    simp [signedMarker, signLength, isSign]
    omega
  rw [size, ← found]
  simp [signedMarker, List.append_assoc]

namespace State

variable {ctx : Context} {s : State}

/-! ## No option is opened -/

theorem declaredMarker_escaped {escapes : Nat} (odd : escapes % 2 = 1) (t : Token) (count : Nat)
    (option : OptionDecl) (name : String) (justClosed : Bool) :
    s.declaredMarker ctx t escapes (.hyphens count) option name justClosed =
      if s.lastSlot.isNone then
        s.placeText ctx
          (String.ofList (backslashes (escapes / 2) ++ List.replicate count '-' ++ name.toList))
          t.start t.stop.offset t.stop.after justClosed
      else s := by
  simp only [declaredMarker, odd, beq_self_eq_true, if_true]

/-- Where every marker of a text has hyphens and is escaped, no option is ever open. -/
theorem named_of_escaped {message : Option Message}
    (escaped : ∀ t ∈ tokensAt ctx.patterns.delimiters (Cursor.start ctx.content),
      ∀ escapes opening name, t.kind = .marker escapes opening name →
        escapes % 2 = 1 ∧ ∃ count, opening = .hyphens count) :
    ∀ tr ∈ runTransitions ctx message, tr.after.named = none := by
  have keeps (t : Token)
      (member : t ∈ tokensAt ctx.patterns.delimiters (Cursor.start ctx.content)) (s : State)
      (closed : s.named = none) : (s.step ctx t).named = none := by
    refine Moves.invariant (p := fun s => s.named = none) (moves_step s t)
      (fun move closed => ?_) closed
    cases move with
    | write write => exact write.opensNothing.noNamed closed
    | decide => exact closed
    | openNamed marker _ _ unescaped =>
        obtain ⟨odd, count, hyphens⟩ := escaped t member _ _ _ marker
        exact absurd odd (unescaped count hyphens)
  intro tr member
  obtain ⟨inside, before, after⟩ := forall_runTransitions (p := fun s => s.named = none)
    (started_untouched ctx message).named keeps tr member
  rw [after]
  exact keeps tr.token inside tr.before before

/-! ## The text that stays -/

variable {held : Option Held} {escape : Option (Cursor × Nat)} {c : Cursor}

/-- What is left of the marker are its hyphens, its name, and half of the backslashes. -/
theorem foundFrom_escapedMarker (goes : (initial ctx).stops ctx = false)
    (anyFamily : ctx.config.oneFamily = false) {text rest : List Char}
    (split : c.rest = text ++ rest) {escapes count : Nat} {name : String}
    (found : tokenAt? ctx.patterns.delimiters c.rest =
      some (.marker escapes (.hyphens count) name, text.length))
    {option : OptionDecl} (declared : ctx.table.option? name = some option)
    (odd : escapes % 2 = 1) :
    foundFrom ctx held escape c = placedFrom ctx held escape
      (backslashes (escapes / 2) ++ List.replicate count '-' ++ name.toList) c
      (c.past text rest) := by
  have marker : (waiting ctx held escape).step ctx
        (.reading (.marker escapes (.hyphens count) name) c text rest) =
      (waiting ctx held escape).onMarker ctx
        (.reading (.marker escapes (.hyphens count) name) c text rest) escapes (.hyphens count)
        name false := (waiting_idle ..).step_eq _
  have noLast : (waiting ctx held escape).lastSlot = none := rfl
  rw [foundFrom_token goes split found, marker, onMarker, declared]
  simp only [anyFamily, Bool.false_eq_true, if_false, declaredMarker_escaped odd, noLast,
    Option.isNone_none, if_true]
  exact values_placeText _ c (c.past text rest)

/-- The first slot takes the last word of a text together with what is held in front of it. -/
theorem foundFrom_lastWord_of_held (plainLast : ctx.config.plainLast = none)
    (goesOn : ctx.config.stopWhenFilled = false) {x : OptionDecl} {more : List OptionDecl}
    (slots : ctx.table.slots = x :: more) (inside : c.In ctx.content)
    (shown : ∀ y ∈ heldText held, isGap y = false) {word : List Char} (filled : word ≠ [])
    (parts : ∀ y ∈ word, isNamePart y = true) (here : c.rest = word) :
    foundFrom ctx held escape c =
      .ofList [(x.name, String.ofList (heldText held ++ word))] := by
  rw [foundFrom_lastWord (stops_of_goesOn goesOn _) filled parts here]
  cases more with
  | nil =>
      have visible : ∀ y ∈ heldText held ++ word, isBlank y = false := by
        rw [List.forall_mem_append]
        exact ⟨fun y member => isBlank_of_isGap (shown y member),
          fun y member => isBlank_of_isNamePart (parts y member)⟩
      rw [filledFrom_only (.of_end plainLast rfl) slots inside, here,
        unescapeWith_of_notMem _ (backslash_notMem_of_nameParts parts), trim_of_visible visible]
      rfl
  | cons y more => exact filledFrom_first_end plainLast goesOn slots rfl held escape word c

section

variable {pairs count : Nat} {name word : List Char} {sign : Char}
  (enabled : count = 1 ∧ ctx.patterns.delimiters.hasSingleHyphen = true ∨
    count = 2 ∧ ctx.patterns.delimiters.hasDoubleHyphen = true)
  (valid : IsIdentifier name) (isSign : sign = '=' ∨ sign = ':') (filled : word ≠ [])
  (parts : ∀ y ∈ word, isNamePart y = true)
  (whole : ctx.content = signedMarker (2 * pairs + 1) count name sign ++ word)
include enabled valid isSign filled parts whole

theorem tokensAt_escapedMarker :
    ∃ marker after, tokensAt ctx.patterns.delimiters (Cursor.start ctx.content) = [marker, after] ∧
      marker.kind = .marker (2 * pairs + 1) (.hyphens count) (String.ofList name) ∧
      after.kind = .word := by
  have wordFound : tokenAt? ctx.patterns.delimiters word = some (.word, word.length) := by
    have found := @tokenAt?_word ctx.patterns.delimiters word [] filled parts (by simp)
    rwa [List.append_nil] at found
  have found := tokenAt?_signedMarker enabled valid isSign (2 * pairs + 1) word
  have split : (Cursor.start ctx.content).rest =
    signedMarker (2 * pairs + 1) count name sign ++ word := whole
  rw [← split] at found
  rw [tokensAt_token split found, tokensAt_token (List.append_nil word).symm wordFound,
    tokensAt_end rfl]
  exact ⟨_, _, rfl, rfl, rfl⟩

theorem named_of_escapedMarker {message : Option Message} :
    ∀ tr ∈ runTransitions ctx message, tr.after.named = none := by
  obtain ⟨marker, after, tokens, kind, kind'⟩ :=
    tokensAt_escapedMarker enabled valid isSign filled parts whole
  apply named_of_escaped
  intro t member escapes opening name opens
  rcases List.mem_pair.1 (tokens ▸ member) with rfl | rfl
  · rw [kind] at opens
    cases opens
    exact ⟨by omega, count, rfl⟩
  · rw [kind'] at opens
    contradiction

theorem foundFrom_escapedMarker_word (plainLast : ctx.config.plainLast = none)
    (goesOn : ctx.config.stopWhenFilled = false) (anyFamily : ctx.config.oneFamily = false)
    {x : OptionDecl} {more : List OptionDecl} (slots : ctx.table.slots = x :: more)
    {option : OptionDecl} (declared : ctx.table.option? (String.ofList name) = some option) :
    foundFrom ctx none none (Cursor.start ctx.content) = .ofList [(x.name,
      String.ofList (backslashes pairs ++ List.replicate count '-' ++ name ++ word))] := by
  have found := tokenAt?_signedMarker enabled valid isSign (2 * pairs + 1) word
  have split : (Cursor.start ctx.content).rest =
    signedMarker (2 * pairs + 1) count name sign ++ word := whole
  rw [← split] at found
  obtain ⟨y, rest, rfl⟩ := List.exists_cons_of_ne_nil filled
  have visible := isGap_of_isNamePart (parts y List.mem_cons_self)
  have half : (2 * pairs + 1) / 2 = pairs := by omega
  rw [foundFrom_escapedMarker (stops_of_goesOn goesOn _) anyFamily split found declared (by omega),
    placedFrom, if_pos (by simp [isVisible, visible]), half,
    foundFrom_lastWord_of_held plainLast goesOn slots ((Cursor.start_in _).past split) ?shown filled
      parts rfl]
  · simp
  case shown =>
    have dash : isGap '-' = false := by decide
    simp only [heldText_holding, heldText_none, List.nil_append, String.toList_ofList,
      List.forall_mem_append]
    exact ⟨⟨backslashes_visible, fun z member => List.eq_of_mem_replicate member ▸ dash⟩,
      fun z member => isGap_of_isNamePart (valid.2 z member)⟩

end

end State

end Parse

open Parse Text

namespace Command

/-- An escaped marker of an option opens nothing, and its hyphens and its name are the front of the
first value. The sign behind the name is lost. -/
theorem parse_escapedMarker {command : Command} {shared : Config}
    (configured : (Table.ofCommand command).configFor shared = {}) {x : OptionDecl}
    {more : List OptionDecl} (slots : (Table.ofCommand command).slots = x :: more)
    (noChoices : ∀ o ∈ command.options, o.name = x.name → o.choices = []) {name : List Char}
    (valid : IsIdentifier name) {option : OptionDecl}
    (declared : (Table.ofCommand command).option? (String.ofList name) = some option)
    (pairs : Nat) {count : Nat} (hyphens : count = 1 ∨ count = 2) {sign : Char}
    (isSign : sign = '=' ∨ sign = ':') {word : List Char} (filled : word ≠ [])
    (plain : ∀ c ∈ word, c.isAlphanum = true) (message : Option Message) :
    let content := String.ofList (signedMarker (2 * pairs + 1) count name sign ++ word)
    (∀ tr ∈ command.transitions shared content message, tr.after.named = none) ∧
      (command.parse shared content message).values = .ofList
        [(x.name,
          String.ofList (backslashes pairs ++ List.replicate count '-' ++ name ++ word))] := by
  intro content
  let ctx : Context := ⟨content.toList, .ofCommand command, {}, .ofConfig {}⟩
  have counted := Table.optionCount_pos_of_slot (c := command) (o := x) (by simp [slots])
  have parts (y : Char) (member : y ∈ word) : isNamePart y = true :=
    isNamePart_of_isAlphanum (plain y member)
  have enabled : count = 1 ∧ ({} : Delimiters).hasSingleHyphen = true ∨
      count = 2 ∧ ({} : Delimiters).hasDoubleHyphen = true :=
    hyphens.imp (⟨·, rfl⟩) (⟨·, rfl⟩)
  have whole : ctx.content = _ := String.toList_ofList
  constructor
  · rw [transitions_eq counted configured]
    exact State.named_of_escapedMarker enabled valid isSign filled parts whole
  · rw [parse_foundFrom counted configured rfl, State.foundFrom_escapedMarker_word enabled valid
      isSign filled parts whole rfl rfl rfl slots declared]
    exact matchChoices_of_unchosen (by simpa [Entries.mem_keys_ofList] using noChoices) _

/-- The marker of a flag is text, and the sign of equality is not. -/
theorem parse_escapedMarker_flag :
    (∀ tr ∈ Command.transitions ⟨"say", [{ name := "x" }, { name := "n", flag := true }], none⟩ {}
        "\\--n=w" none, tr.after.named = none) ∧
      (Command.parse ⟨"say", [{ name := "x" }, { name := "n", flag := true }], none⟩ {}
        "\\--n=w" none).values = .ofList [("x", "--nw")] :=
  @parse_escapedMarker ⟨"say", [{ name := "x" }, { name := "n", flag := true }], none⟩ {} rfl
    { name := "x" } [] rfl (by decide) ['n'] ⟨⟨'n', rfl, by decide⟩, by simp; decide⟩
    { name := "n", flag := true } rfl 0 2 (.inr rfl) '=' (.inl rfl) ['w'] (by decide) (by simp)
    none

/-- The sign of an escaped marker is not part of the first value. -/
theorem not_parse_escapedMarker_whole :
    ¬ ∀ (command : Command) (x option : OptionDecl) (name word : List Char) (sign : Char),
      (Table.ofCommand command).configFor {} = {} → (Table.ofCommand command).slots = [x] →
      (∀ o ∈ command.options, o.choices = []) → IsIdentifier name →
      (Table.ofCommand command).option? (String.ofList name) = some option →
      sign = '=' ∨ sign = ':' → word ≠ [] → (∀ c ∈ word, c.isAlphanum = true) →
      (command.parse {} (String.ofList (signedMarker 1 2 name sign ++ word)) none).values.get?
        x.name = some (String.ofList ('-' :: '-' :: name ++ sign :: word)) := by
  intro always
  have whole := always ⟨"say", [{ name := "x" }, { name := "n", flag := true }], none⟩
    { name := "x" } { name := "n", flag := true } ['n'] ['w'] '=' rfl rfl (by decide)
    ⟨⟨'n', rfl, by decide⟩, by simp; decide⟩ rfl (.inl rfl) (by decide) (by simp)
  exact absurd whole (by decide +kernel)

end Command

end ChatArgs
