import ChatArgs.Proofs.Parse.CodeBlock

/-!
# The language of a code block

Where the language of a block is a value, it goes to the first slot and the code to the second. A
block without a language leaves the first slot without a value, and the code goes to the second
slot all the same. Where it is no value, the language is dropped.
-/

namespace ChatArgs

namespace Parse

open Text

/-! ## The slots of a block -/

def blockValues (asValue : Bool) (first second language code : String) :
    List (String × String) :=
  if !asValue then [(first, code)]
  else if language = "" then [(second, code)]
  else [(first, language), (second, code)]

theorem mem_blockValues {asValue : Bool} {first second language code name : String}
    (member : name ∈ (blockValues asValue first second language code).map (·.1)) :
    name = first ∨ name = second := by
  unfold blockValues at member
  split at member
  · exact .inl (by simpa using member)
  · split at member
    · exact .inr (by simpa using member)
    · simpa using member

namespace State

variable {ctx : Context} {first second : OptionDecl} {others : List OptionDecl}

theorem closeAll_place_language (slots : ctx.table.slots = first :: second :: others)
    (long : LongText) (language code : String) (start body : Cursor) (behind stop : Nat) :
    ((({ ({ initial ctx with justClosed := false, longText := some long } : State).placeLanguage ctx
        language.toList (!language.toList.isEmpty) start behind with
          longText := none, justClosed := true } : State).place ctx
      code body stop true).closeAll ctx).values =
      Entries.ofList
        (blockValues ctx.config.languageAsValue first.name second.name language code) := by
  unfold placeLanguage blockValues
  cases asValue : ctx.config.languageAsValue
  case' true => by_cases empty : language = ""
  -- In each case, the state is computed slot by slot from the first one.
  all_goals
    simp [*, initial, place, openSingle?, fillSlot, freeSlot?, take, setValue, closeAll,
      closeLastSlot, closeNamed, closeLongText, Entries.ofList, List.findIdx?_cons]
    rfl

end State

end Parse

open Parse Text

namespace Command

variable {command : Command}

/-- A code block fills the first slot; where its language is a value, it fills the second slot, and
the first one takes the language, if there is one. -/
theorem parse_blockLanguage (shared : Config) (message : Option Message)
    {first second : OptionDecl} {others : List OptionDecl} {language code : String}
    (slots : (Table.ofCommand command).slots = first :: second :: others)
    (noChoices : ∀ o ∈ command.options, o.name = first.name ∨ o.name = second.name →
      o.choices = [])
    (enabled : ((Table.ofCommand command).configFor shared).delimiters.hasQuote .backtick = true)
    (plainLast : ((Table.ofCommand command).configFor shared).plainLast = none)
    (goesOn : ((Table.ofCommand command).configFor shared).stopWhenFilled = false)
    (noReply : ((Table.ofCommand command).configFor shared).replyFilling = none)
    (word : ∀ x ∈ language.toList, isBlank x = false ∧ x ≠ '`' ∧ x ≠ '\\')
    (filled : code ≠ "") (plain : ∀ x ∈ code.toList, x ≠ '`' ∧ x ≠ '\\')
    (lines : code.toList.head? ≠ some '\n') :
    let asValue := ((Table.ofCommand command).configFor shared).languageAsValue
    let values :=
      (command.parse shared ("```" ++ language ++ "\n" ++ code ++ "\n```") message).values
    (asValue = false → values = ⟨[(first.name, code)]⟩) ∧
      (asValue = true → language ≠ "" →
        values = Entries.ofList [(first.name, language), (second.name, code)]) ∧
      (asValue = true → language = "" → values = ⟨[(second.name, code)]⟩) := by
  intro asValue values
  have found : values = Entries.ofList
      (blockValues asValue first.name second.name language code) := by
    unfold values asValue
    rw [Command.parse]
    generalize (Table.ofCommand command).configFor shared = config
      at enabled plainLast goesOn noReply ⊢
    have counted : 0 < (Table.ofCommand command).optionCount :=
      Table.optionCount_pos_of_slot (by rw [slots]; exact List.mem_cons_self)
    have content : ("```" ++ language ++ "\n" ++ code ++ "\n```").toList =
        fence ++ (language.toList ++ '\n' :: (code.toList ++ '\n' :: (fence ++ []))) := by
      simp [fence]
    rw [parse_values counted, content, State.run_of_noReply noReply, State.run_none]
    obtain ⟨ctx, hctx⟩ : ∃ ctx : Context,
        (⟨fence ++ (language.toList ++ '\n' :: (code.toList ++ '\n' :: (fence ++ []))),
          Table.ofCommand command, config, .ofConfig config⟩ : Context) = ctx := ⟨_, rfl⟩
    rw [hctx]
    have reads : ReadsQuotes ctx .backtick := by
      rw [← hctx]
      exact ⟨enabled, plainLast, goesOn⟩
    have fits : FitsBlock code.toList :=
      .of_notMem (fun inside => (plain _ inside).2 rfl) fun inside => (plain _ inside).1 rfl
    have starts : language.toList ≠ [] → (code.toList ++ ['\n']).head? ≠ some '\n' := by
      obtain ⟨x, back, split⟩ := List.exists_cons_of_ne_nil
        (show code.toList ≠ [] by simpa using filled)
      rw [split] at lines ⊢
      exact fun _ => lines
    obtain ⟨long, start, behind, body, stop, swept⟩ := State.sweep_languageBlock reads
      (s := State.initial ctx) (c := Cursor.start ctx.content) ⟨rfl, rfl, rfl, rfl, rfl⟩
      (fun x inside => (word x inside).1) (fun inside => (word _ inside).2.2 rfl)
      (fun inside => (word _ inside).2.1 rfl) starts fits (by rw [← hctx]; rfl) (by simp)
    have slots' : ctx.table.slots = first :: second :: others := by rw [← hctx]; exact slots
    rw [swept, State.sweep_end rfl, String.ofList_toList,
      State.closeAll_place_language slots', ← hctx]
    apply matchChoices_of_notMem
    intro t member named
    obtain ⟨o, declared, some, rfl⟩ := Table.exists_of_mem_choices member
    exact some (noChoices o declared (mem_blockValues (Entries.mem_keys_ofList.1 named)))
  rw [found]
  refine ⟨fun off => ?_, fun on some => ?_, fun on none => ?_⟩
  · rw [off]
    rfl
  · simp [blockValues, on, some]
  · rw [on, none]
    rfl

/-- A block in a language, with quotes and a marker in its code. -/
theorem parse_blockLanguage_rust :
    ((⟨"run", [{ name := "lang" }, { name := "code" }], none⟩ : Command).parse
      { languageAsValue := true } ("```" ++ "rust" ++ "\n" ++ "f(\"--lang\")" ++ "\n```")
        none).values =
      ⟨[("lang", "rust"), ("code", "f(\"--lang\")")]⟩ := by
  have word : ∀ x ∈ "rust".toList, isBlank x = false ∧ x ≠ '`' ∧ x ≠ '\\' := fun x inside => by
    have all : "rust".toList.all (fun x => !isBlank x && x != '`' && x != '\\') = true := by
      decide +kernel
    simpa [and_assoc] using List.all_eq_true.1 all x inside
  have plain : ∀ x ∈ "f(\"--lang\")".toList, x ≠ '`' ∧ x ≠ '\\' := fun x inside => by
    have all : "f(\"--lang\")".toList.all (fun x => x != '`' && x != '\\') = true := by
      decide +kernel
    simpa using List.all_eq_true.1 all x inside
  have slots : (Table.ofCommand
      ⟨"run", [{ name := "lang" }, { name := "code" }], none⟩).slots =
        [{ name := "lang" }, { name := "code" }] := rfl
  exact (parse_blockLanguage { languageAsValue := true } none slots (by simp) rfl rfl rfl rfl
    word (by decide) plain (by decide +kernel)).2.1 rfl (by decide)

end Command

end ChatArgs
