import ChatArgs.Proofs.Parse.Alike

/-!
# Delimiters that are switched off

A quote that is switched off, and the hyphen where no marker starts with one, is an ordinary
character: a text with exclamation marks instead of it is parsed in the same way.
-/

namespace ChatArgs

open Text Parse

theorem Quote.char_injective {a b : Quote} (same : a.char = b.char) : a = b := by
  cases a <;> cases b <;> first | rfl | exact absurd same (by decide)

/-- A quote that is switched off, or the hyphen where no marker is written with hyphens. -/
def Delimiters.SwitchedOff (d : Delimiters) (c : Char) : Prop :=
  (∃ quote : Quote, quote.char = c ∧ quote ∉ d.quotes) ∨
    (c = '-' ∧ MarkerStyle.hyphen ∉ d.markers ∧ MarkerStyle.doubleHyphen ∉ d.markers)

namespace Parse

variable {d : Delimiters} {c : Char}

theorem isOrdinary_of_switchedOff (off : d.SwitchedOff c) : IsOrdinary d c := by
  rcases off with ⟨quote, rfl, off⟩ | ⟨rfl, single, double⟩
  · have disabled : d.isQuoteChar quote.char = false := by
      rw [Bool.eq_false_iff]
      intro enabled
      obtain ⟨quote', member, same⟩ := exists_quote_of_isQuoteChar enabled
      exact off (Quote.char_injective same ▸ member)
    have noDelimiter : isDelimiterChar d quote.char = false := by
      cases quote <;> simpa [isDelimiterChar, Quote.char] using disabled
    cases quote <;> exact ⟨by decide, by decide, by decide, noDelimiter⟩
  · have noQuote : d.isQuoteChar '-' = false := by
      rw [Bool.eq_false_iff]
      intro enabled
      obtain ⟨quote, -, same⟩ := exists_quote_of_isQuoteChar enabled
      cases quote <;> exact absurd same (by decide)
    refine ⟨by decide, by decide, by decide, ?_⟩
    simp [isDelimiterChar, noQuote, Delimiters.hasHyphen, Delimiters.hasSingleHyphen,
      Delimiters.hasDoubleHyphen, single, double]

theorem isOrdinary_exclamation (d : Delimiters) : IsOrdinary d '!' := by
  have noQuote : d.isQuoteChar '!' = false := by
    rw [Bool.eq_false_iff]
    intro enabled
    obtain ⟨quote, -, same⟩ := exists_quote_of_isQuoteChar enabled
    cases quote <;> exact absurd same (by decide)
  refine ⟨by decide, by decide, by decide, ?_⟩
  simp [isDelimiterChar, noQuote]

def exclaim (c : Char) (x : Char) : Char :=
  if x = c then '!' else x

theorem neutral_exclaim (off : d.SwitchedOff c) : Neutral d (exclaim c) := by
  refine Neutral.single (isOrdinary_of_switchedOff off) (isOrdinary_exclamation d) ?_
  rcases off with ⟨quote, rfl, -⟩ | ⟨rfl, -⟩
  · cases quote <;> decide
  · decide

theorem relates_char {r : Char → Char} {ctx : Context}
    (neutral : Neutral ctx.patterns.delimiters r) :
    Change.Relates { char := r } ctx ctx.table where
  neutral := neutral
  tail := .inl rfl
  slots := rfl
  optionCount := (Nat.zero_add _).symm
  option? := fun _ _ => rfl
  fresh := by simp [Change.Seats]
  unmarked := by simp [Change.Seats]

theorem State.run_map {r : Char → Char} (ctx : Context)
    (neutral : Neutral ctx.patterns.delimiters r) :
    State.run { ctx with content := ctx.content.map r } none =
      (State.run ctx none).image { char := r } := by
  have start : State.Alike { char := r } ctx ctx.table (.initial ctx)
      (.initial { ctx with content := ctx.content.map r }) :=
    .initial (relates_char neutral) rfl
  have same := (start.run rfl).same
  rwa [Change.context, List.append_nil, ← run_none] at same

end Parse

/-- Ordinary characters may be replaced by other ones: the spans stay, and the values are replaced
as the text is. -/
theorem Table.parse_map (table : Table) (config : Config) (patterns : Patterns) {r : Char → Char}
    (neutral : Neutral patterns.delimiters r) (noChoices : config.choices = none)
    (content : String) :
    (table.parse config patterns (content.map r) none).spans =
        (table.parse config patterns content none).spans ∧
      ∀ name, (table.parse config patterns (content.map r) none).values.get? name =
        ((table.parse config patterns content none).values.get? name).map (String.map r) := by
  unfold Table.parse
  split
  · exact ⟨rfl, fun _ => rfl⟩
  · have run := State.run_map ⟨content.toList, table, config, patterns⟩ neutral
    rw [← String.toList_map] at run
    simp only [noChoices, matchChoices, run]
    exact ⟨rfl, fun name => Change.entries_get? (by simp [Change.Seats]) _⟩

/-- A delimiter that is switched off is a character like an exclamation mark. -/
theorem Command.parse_switchedOff (command : Command) (shared : Config) (content : String)
    {c : Char} (noChoices : ((Table.ofCommand command).configFor shared).choices = none)
    (off : ((Table.ofCommand command).configFor shared).delimiters.SwitchedOff c) :
    (command.parse shared (content.map (exclaim c)) none).spans =
        (command.parse shared content none).spans ∧
      ∀ name, (command.parse shared (content.map (exclaim c)) none).values.get? name =
        ((command.parse shared content none).values.get? name).map (String.map (exclaim c)) :=
  Table.parse_map _ _ _ (neutral_exclaim off) noChoices content

/-- An apostrophe in quoted text, where texts stand in double quotes only. -/
theorem Command.parse_switchedOff_apostrophe :
    (Command.parse ⟨"c", [{ name := "x" }, { name := "y" }], none⟩
        { delimiters := { quotes := [.double] }, choices := none } "\"it's here\" isn't" none).get?
          "x" = some "it's here" ∧
      (Command.parse ⟨"c", [{ name := "x" }, { name := "y" }], none⟩
        { delimiters := { quotes := [.double] }, choices := none } "\"it!s here\" isn!t" none).get?
          "x" = some "it!s here" := by
  have same := Command.parse_switchedOff ⟨"c", [{ name := "x" }, { name := "y" }], none⟩
    { delimiters := { quotes := [.double] }, choices := none } "\"it's here\" isn't"
    (c := '\'') rfl (.inl ⟨.single, rfl, by decide⟩)
  have found : (Command.parse ⟨"c", [{ name := "x" }, { name := "y" }], none⟩
      { delimiters := { quotes := [.double] }, choices := none } "\"it's here\" isn't" none).get?
        "x" = some "it's here" := by decide +kernel
  have text : "\"it's here\" isn't".map (exclaim '\'') = "\"it!s here\" isn!t" := by
    decide +kernel
  have value : "it's here".map (exclaim '\'') = "it!s here" := by decide +kernel
  rw [text] at same
  refine ⟨found, (same.2 "x").trans ?_⟩
  rw [← value]
  exact congrArg _ found

end ChatArgs
