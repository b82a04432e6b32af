import ChatArgs.Proofs.Parse.PlainRun

/-!
# Plain texts are read word by word

The options of a command decide which texts are plain for it. `Command.parse_plain` says
that a parse of such a text is `wordArgs`, which looks at nothing but the gaps.
-/

namespace ChatArgs

namespace Parse

open Text

/-- How many words a text must have without quotes: one for each slot, apart from the last
slot where quotes are switched off in it. -/
def wordsWithoutQuotes (config : Config) (slots : List OptionDecl) : Nat :=
  if config.plainLast = some ⟨false⟩ then slots.length - 1 else slots.length

/-- A text in which no delimiter means anything to a command. -/
structure IsPlain (command : Command) (config : Config) (content : List Char) : Prop where
  noBackslash : config.delimiters.isActive = true → '\\' ∉ content
  noHyphens : config.delimiters.hasHyphen = true → ∀ o ∈ command.options,
    o.isFillable = true → ¬ '-' :: o.name.toList <:+: content
  colons : config.delimiters.hasColon = true → ∀ o ∈ command.options, o.isFillable = true →
    ∀ front rest, content = front ++ (o.name.toList ++ ':' :: rest) → isAddressRest rest = true
  noQuotes : ∀ place ∈ (wordStarts 0 none content).take
    (wordsWithoutQuotes config (Table.ofCommand command).slots),
    ∀ c ∈ wordAt place, config.delimiters.isQuoteChar c = false

theorem IsPlain.plainText {command : Command} {config : Config} {content : List Char}
    (plain : IsPlain command config content) :
    PlainText ⟨content, Table.ofCommand command, config, .ofConfig config⟩ content where
  noBackslash := plain.noBackslash
  noMarker := by
    intro front text rest escapes opening name split token
    cases known : (Table.ofCommand command).option? name with
    | none => rfl
    | some o =>
        exfalso
        obtain ⟨member, fillable, named⟩ := Table.option?_eq_some known
        cases token with
        | @hyphens escapes count name sign rest hcount enabled valid hsign =>
            have letters : o.name.toList = name := by rw [named, String.toList_ofList]
            apply plain.noHyphens enabled o member fillable
            obtain ⟨fewer, rfl⟩ : ∃ fewer, count = fewer + 1 := ⟨count - 1, by omega⟩
            refine ⟨front ++ (backslashes escapes ++ List.replicate fewer '-'), sign ++ rest, ?_⟩
            rw [split, letters, List.replicate_succ']
            simp only [List.append_assoc, List.cons_append, List.nil_append]
        | @colon escapes name rest enabled filled parts address =>
            have letters : o.name.toList = name := by rw [named, String.toList_ofList]
            have isAddress := plain.colons enabled o member fillable
              (front ++ backslashes escapes) rest (by simp [split, letters])
            rw [address] at isAddress
            exact absurd isAddress (by simp)

end Parse

open Parse Text

namespace Command

/-- In a plain text slots take words, and the last slot takes all that is left. -/
theorem parse_plain {command : Command} {shared : Config} {content : String}
    (sound : command.defect? = none) (slots : (Table.ofCommand command).slots ≠ [])
    (noChoices : (Table.ofCommand command).choices = [])
    (plain : IsPlain command ((Table.ofCommand command).configFor shared) content.toList) :
    command.parse shared content none = wordArgs (Table.ofCommand command).slots content := by
  rw [Command.parse]
  generalize (Table.ofCommand command).configFor shared = config at plain ⊢
  have distinct := names_nodup_of_defect? sound
  have counted := Table.slots_length_le_optionCount distinct
  have positive := List.length_pos_iff.2 slots
  have between : State.BetweenWords
      ⟨content.toList, Table.ofCommand command, config, .ofConfig config⟩
      (wordsWithoutQuotes config (Table.ofCommand command).slots) []
      (Cursor.start content.toList) := {
    names := rfl
    bound := positive
    total := by simp [Cursor.start, Context.length]
    outside := by simp [Cursor.start, isVisible]
    first := fun _ => rfl
    plain := plain.plainText
    noQuotes := plain.noQuotes }
  have enough : wordsWithoutQuotes config (Table.ofCommand command).slots =
        (Table.ofCommand command).slots.length ∨
      wordsWithoutQuotes config (Table.ofCommand command).slots + 1 =
          (Table.ofCommand command).slots.length ∧
        config.plainLast = some ⟨false⟩ := by
    unfold wordsWithoutQuotes
    split
    · rename_i plainLast
      exact .inr ⟨by omega, plainLast⟩
    · exact .inl rfl
  obtain ⟨values, spans⟩ :=
    State.closeAll_sweep_filled (Table.slot_names_nodup distinct) counted enough between
  rw [← State.initial_eq_filled] at values spans
  rw [parse_of_noChoices (Nat.lt_of_lt_of_le positive counted) noChoices, State.run_none, values,
    spans]
  rfl

/-- The tokens of `-x:` and of the address are put together again. -/
theorem parse_plain_address :
    (⟨"go", [{ name := "first" }, { name := "rest" }], none⟩ : Command).parse {}
        "-x: see http://a.b " none =
      ⟨"-x: see http://a.b ", ⟨[("first", "-x:"), ("rest", "see http://a.b")]⟩,
        ⟨[("first", ⟨0, 3⟩), ("rest", ⟨4, 19⟩)]⟩⟩ := by
  have noNames : ∀ o ∈ [({ name := "first" } : OptionDecl), { name := "rest" }],
      ¬ '-' :: o.name.toList <:+: "-x: see http://a.b ".toList ∧
      ¬ o.name.toList ++ [':'] <:+: "-x: see http://a.b ".toList := by decide +kernel
  have quoteFree : ((wordStarts 0 none "-x: see http://a.b ".toList).take 2).all
      (fun place => (wordAt place).all fun c => !({} : Delimiters).isQuoteChar c) = true := by
    decide +kernel
  have plain : IsPlain ⟨"go", [{ name := "first" }, { name := "rest" }], none⟩ {}
      "-x: see http://a.b ".toList := {
    noBackslash := fun _ => by decide +kernel
    noHyphens := fun _ o member _ => (noNames o member).1
    colons := by
      intro _ o member _ front rest split
      exact absurd ⟨front, rest, by simp [split]⟩ (noNames o member).2
    noQuotes := by
      intro place member c inside
      have word := List.all_eq_true.1 quoteFree place member
      have letter := List.all_eq_true.1 word c inside
      simpa using letter }
  exact parse_plain (by decide +kernel) (by decide) rfl plain

end Command

end ChatArgs
