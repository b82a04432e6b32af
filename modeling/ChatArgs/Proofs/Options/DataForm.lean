import ChatArgs.Options.File
import ChatArgs.Proofs.Document.Records

/-!
# Settings read as they were written

Every part of the settings has a data form, and reading it gives the part back, at any nesting depth
a file can have. The compact text of settings loads as the settings without repetitions in their
delimiter lists (`Options.ofJsonText_toJson`): a feature that is left out stays apart from one that
is switched off.
-/

namespace ChatArgs

open Document (Written Solid givenFields optional optional_map optional_asBool?_map
  solid_ofFields)

/-! ## Features with one field -/

def settingDocument (inner : String) : Setting (Option Bool) → Option Document
  | .unset => none
  | .off => some .null
  | .on value => some (.ofFields (givenField inner .bool value))

theorem settingField_append (name inner : String) (setting : Setting (Option Bool))
    (slots : List (String × Option Document)) :
    settingField name inner setting ++ givenFields slots =
      givenFields ((name, settingDocument inner setting) :: slots) := by
  cases setting <;> simp [settingField, settingDocument, Document.givenFields_cons]

theorem written_map_bool (value : Option Bool) : ∀ d, value.map .bool = some d → Written d := by
  intro d given
  obtain ⟨b, -, rfl⟩ := Option.map_eq_some_iff.mp given
  exact .bool b

theorem written_ofFields_bool (inner : String) (value : Option Bool) :
    Written (.ofFields (givenField inner .bool value)) := by
  rw [givenField_eq]
  apply Written.ofFields_givenFields
  simpa using written_map_bool value

theorem settingDocument_written (inner : String) (setting : Setting (Option Bool)) :
    ∀ d, settingDocument inner setting = some d → Written d := by
  intro d given
  cases setting with
  | unset => simp [settingDocument] at given
  | off =>
      cases given
      exact .null
  | on value =>
      cases given
      exact written_ofFields_bool inner value

/-- Left out, switched off and given with any details are three different things to read. -/
theorem readSetting?_settingDocument (format : Format) (inner : String)
    (setting : Setting (Option Bool)) :
    readSetting? format inner (settingDocument inner setting) = some setting := by
  cases setting with
  | unset => rfl
  | off => rfl
  | on value =>
      have back : readSetting?.readRecord format inner
          (.ofFields (givenField inner .bool value)) = some value := by
        have distinct : ([(inner, value.map Document.bool)].map (·.1)).Nodup := by simp
        have fields := Document.recordFields?_givenFields format distinct
        rw [List.map_singleton, List.map_singleton] at fields
        rw [givenField_eq, readSetting?.readRecord, fields]
        exact optional_asBool?_map value
      rw [settingDocument, readSetting?, Document.optional_of_solid (solid_ofFields _) back]
      rfl

/-! ## Delimiters -/

theorem Quote.asWord?_word (format : Format) (q : Quote) :
    Document.asWord? format Quote.words (.text q.word) = some q := by
  cases q <;> cases format <;> rfl

theorem MarkerStyle.asWord?_word (format : Format) (m : MarkerStyle) :
    Document.asWord? format MarkerStyle.words (.text m.word) = some m := by
  cases m <;> cases format <;> rfl

theorem written_map_list {α : Type} (word : α → String) (given : Option (List α)) :
    ∀ d, given.map (fun l => .list (l.map fun x => .text (word x))) = some d → Written d := by
  intro d shown
  obtain ⟨xs, -, rfl⟩ := Option.map_eq_some_iff.mp shown
  apply Written.list
  intro item member
  obtain ⟨x, -, rfl⟩ := List.mem_map.mp member
  exact .text _

theorem optional_asListOf?_map {α : Type} {read : Document → Option α} {word : α → String}
    (back : ∀ x, read (.text (word x)) = some x) (given : Option (List α)) :
    optional (Document.asListOf? read)
      (given.map fun l => .list (l.map fun x => .text (word x))) = some given :=
  optional_map (fun _ => Document.solid_list _)
    (fun xs => Document.asListOf?_map xs fun x _ => back x) given

namespace DelimiterOptions

def slots (o : DelimiterOptions) : List (String × Option Document) :=
  [("longTextTags", o.quotes.map fun l => .list (l.map fun q => .text q.word)),
    ("namedOptions", o.markers.map fun l => .list (l.map fun m => .text m.word))]

theorem toDocument_eq (o : DelimiterOptions) : o.toDocument = .ofFields (givenFields o.slots) := by
  rw [toDocument, givenField_eq "namedOptions", givenField_append]
  rfl

theorem toDocument_written (o : DelimiterOptions) : Written o.toDocument := by
  rw [toDocument_eq]
  apply Written.ofFields_givenFields
  simp only [slots, List.forall_mem_cons, List.not_mem_nil, false_imp_iff, implies_true, and_true]
  exact ⟨written_map_list Quote.word o.quotes, written_map_list MarkerStyle.word o.markers⟩

theorem toDocument_solid (o : DelimiterOptions) : Solid o.toDocument :=
  solid_ofFields _

theorem ofDocument?_toDocument (format : Format) (o : DelimiterOptions) :
    ofDocument? format o.toDocument = some o := by
  have distinct : (o.slots.map (·.1)).Nodup := by simp [slots]
  have fields := Document.recordFields?_givenFields format distinct
  rw [← toDocument_eq] at fields
  simp only [slots, List.map_cons, List.map_nil] at fields
  simp only [ofDocument?, fields, optional_asListOf?_map (Quote.asWord?_word format),
    optional_asListOf?_map (MarkerStyle.asWord?_word format), Option.bind_eq_bind,
    Option.bind_some]
  rfl

end DelimiterOptions

/-! ## The last-slot setting -/

namespace PlainLastOption

theorem toDocument_written (o : PlainLastOption) : Written o.toDocument := by
  cases o with
  | enabled value => exact .bool value
  | detailed keep => exact written_ofFields_bool _ keep

theorem toDocument_solid (o : PlainLastOption) : Solid o.toDocument := by
  cases o with
  | enabled value => exact Document.solid_bool value
  | detailed keep => exact solid_ofFields _

theorem toDocument_isTyped (o : PlainLastOption) : o.toDocument.isTyped = true := by
  cases o with
  | enabled value => rfl
  | detailed keep => cases keep <;> rfl

theorem toDocument_depth_le (o : PlainLastOption) : o.toDocument.depth ≤ 1 := by
  cases o with
  | enabled value => exact Nat.zero_le 1
  | detailed keep => cases keep <;> exact Nat.le_refl 1

theorem ofRecord?_toDocument (keep : Option Bool) :
    ofRecord? (toDocument (.detailed keep)) = some (.detailed keep) := by
  have distinct : ([("excludeCodeBlocks", keep.map Document.bool)].map (·.1)).Nodup := by simp
  have fields := Document.looseFields?_givenFields distinct
  rw [List.map_singleton, List.map_singleton] at fields
  rw [toDocument, givenField_eq, ofRecord?, fields]
  cases keep <;> rfl

/-- The form is found by looking at it, down to the nesting that a reader allows. -/
theorem ofDocument?_toDocument (format : Format) {outer : Nat} (shallow : outer ≤ 126)
    (o : PlainLastOption) : ofDocument? format outer o.toDocument = some o := by
  have depth := o.toDocument_depth_le
  have typed := o.toDocument_isTyped
  have fits : ∀ limit, 127 ≤ limit →
      (decide (limit < outer + o.toDocument.depth) || !o.toDocument.isTyped) = false := by
    intro limit room
    rw [typed, Bool.not_true, Bool.or_false, decide_eq_false_iff_not]
    omega
  unfold ofDocument?
  cases format
  all_goals
    rw [if_neg (by simp [fits])]
    cases o with
    | enabled value => rfl
    | detailed keep => exact ofRecord?_toDocument keep

end PlainLastOption

/-! ## Settings -/

namespace Options

def slots (o : Options) : List (String × Option Document) :=
  [("syntax", o.delimiters.map DelimiterOptions.toDocument),
    ("breakSearchOnConsumeAllOptions", o.stopWhenFilled.map .bool),
    ("useUniqueNamedSyntaxAtSameTime", o.oneFamily.map .bool),
    ("disableLongTextTagsInLastOption", o.plainLast.map PlainLastOption.toDocument),
    ("resolveCommandOptionsChoices", settingDocument "canUseDirectlyValue" o.choices),
    ("useRepliedUserAsAnOption", settingDocument "requirePing" o.replyFilling),
    ("useCodeBlockLangAsAnOption", o.languageAsValue.map .bool),
    ("useNamedWithSingleValue", o.singleValue.map .bool),
    ("logResult", o.logResult.map .bool)]

theorem toDocument_eq (o : Options) : o.toDocument = .ofFields (givenFields o.slots) := by
  rw [toDocument, givenField_eq "logResult"]
  simp only [givenField_append, settingField_append]
  rfl

theorem toDocument_written (o : Options) : Written o.toDocument := by
  have delimiters : ∀ d, o.delimiters.map DelimiterOptions.toDocument = some d → Written d := by
    intro d given
    obtain ⟨inner, -, rfl⟩ := Option.map_eq_some_iff.mp given
    exact inner.toDocument_written
  have plainLast : ∀ d, o.plainLast.map PlainLastOption.toDocument = some d → Written d := by
    intro d given
    obtain ⟨inner, -, rfl⟩ := Option.map_eq_some_iff.mp given
    exact inner.toDocument_written
  rw [toDocument_eq]
  apply Written.ofFields_givenFields
  simp only [slots, List.forall_mem_cons, List.not_mem_nil, false_imp_iff, implies_true, and_true]
  exact ⟨delimiters, written_map_bool _, written_map_bool _, plainLast,
    settingDocument_written _ _, settingDocument_written _ _, written_map_bool _,
    written_map_bool _, written_map_bool _⟩

theorem ofDocument?_toDocument (format : Format) {outer : Nat} (shallow : outer ≤ 125)
    (o : Options) : ofDocument? format outer o.toDocument = some o := by
  have fields : o.toDocument.recordFields? format fieldNames = some (o.slots.map (·.2)) := by
    have distinct : (o.slots.map (·.1)).Nodup := by
      show fieldNames.Nodup
      decide
    rw [toDocument_eq]
    exact Document.recordFields?_givenFields format distinct
  have delimiters := optional_map DelimiterOptions.toDocument_solid
    (DelimiterOptions.ofDocument?_toDocument format) o.delimiters
  have inside : outer + 1 ≤ 126 := Nat.succ_le_succ shallow
  have plainLast := optional_map PlainLastOption.toDocument_solid
    (PlainLastOption.ofDocument?_toDocument format inside) o.plainLast
  simp only [slots, List.map_cons, List.map_nil] at fields
  simp only [ofDocument?, fields, delimiters, plainLast, optional_asBool?_map,
    readSetting?_settingDocument, Option.bind_eq_bind, Option.bind_some]
  rfl

/-- The text of settings loads as the settings without repetitions. What is left out, switched off
or given in the nested features stays so. -/
theorem ofJsonText_toJson (o : Options) :
    ofJsonText o.toJson = .ok o.deduplicated ∧
      o.deduplicated.choices = o.choices ∧ o.deduplicated.replyFilling = o.replyFilling := by
  have read : ofJson? o.toJson = some o.deduplicated := by
    rw [ofJson?, toJson, Document.ofJson?_toJson o.toDocument_written, Option.bind_some,
      ofDocument?_toDocument .json (Nat.zero_le 125), Option.map_some]
  refine ⟨?_, rfl, rfl⟩
  rw [ofJsonText, read]

end Options

end ChatArgs
