import ChatArgs.Command.Form
import ChatArgs.Message
import ChatArgs.Proofs.Options.DataForm

/-!
# Declarations and messages read as they were written

A field that is left out is the one that its default restores, so the compact text of an option
whose choices have texts as values reads as the option. The text of a message reads as the message
without the result that is left with it.
-/

namespace ChatArgs

open Document (Written Solid givenFields optional_map optional_asBool?_map)

/-! ## Fields with texts and lists -/

theorem optional_asText?_map (value : Option String) :
    Document.optional Document.asText? (value.map Document.text) = some value :=
  @optional_map _ Document.asText? Document.text (fun _ => ⟨rfl, rfl⟩) (fun _ => rfl) value

theorem written_map_text (value : Option String) :
    ∀ d, value.map Document.text = some d → Written d := by
  intro d given
  obtain ⟨s, -, rfl⟩ := Option.map_eq_some_iff.mp given
  exact .text s

def listDocument {α : Type} (write : α → Document) (items : List α) : Option Document :=
  if items.isEmpty then none else some (.list (items.map write))

section

variable {α : Type} {write : α → Document} {read : Document → Option α} {items : List α}

theorem listField_append (name : String) (write : α → Document) (items : List α)
    (slots : List (String × Option Document)) :
    listField name write items ++ givenFields slots =
      givenFields ((name, listDocument write items) :: slots) := by
  cases items <;> simp [listField, listDocument, Document.givenFields_cons]

theorem listDocument_written (written : ∀ x ∈ items, Written (write x)) :
    ∀ d, listDocument write items = some d → Written d := by
  intro d given
  cases items with
  | nil => simp [listDocument] at given
  | cons x items =>
      cases given
      apply Written.list
      intro item member
      obtain ⟨y, inside, rfl⟩ := List.mem_map.mp member
      exact written y inside

theorem defaulted_some (default : α) (d : Document) :
    Document.defaulted default read (some d) = read d := rfl

/-- Where the default is the empty list, nothing is lost. -/
theorem defaulted_listDocument (back : ∀ x ∈ items, read (write x) = some x) :
    Document.defaulted [] (Document.asListOf? read) (listDocument write items) = some items := by
  cases items with
  | nil => rfl
  | cons x items => exact Document.asListOf?_map (x :: items) back

end

/-! ## Options -/

theorem ValueKind.asWord?_word (format : Format) (kind : ValueKind) :
    Document.asWord? format ValueKind.words (.text kind.word) = some kind := by
  have word : Document.word? format (.text kind.word) = some kind.word := by
    cases format <;> rfl
  rw [Document.asWord?, word, Option.bind_some, ValueKind.lookup_word]

namespace Choice

def HasText (c : Choice) : Prop :=
  ∃ s, c.value = .text s

variable {c : Choice}

theorem toDocument_eq (c : Choice) : c.toDocument = .ofFields (givenFields
    [("name", some (.text c.name)), ("value", some c.value.toDocument)]) := rfl

theorem toDocument_written (text : c.HasText) : Written c.toDocument := by
  obtain ⟨s, value⟩ := text
  rw [toDocument_eq, value]
  apply Written.ofFields_givenFields
  simp only [List.forall_mem_cons, List.not_mem_nil, false_imp_iff, implies_true, and_true]
  exact ⟨fun d given => Option.some.inj given ▸ .text _,
    fun d given => Option.some.inj given ▸ .text s⟩

theorem ofDocument?_toDocument (format : Format) (text : c.HasText) :
    ofDocument? format c.toDocument = some c := by
  obtain ⟨s, value⟩ := text
  obtain ⟨name, _⟩ := c
  subst value
  cases format <;> rfl

end Choice

namespace OptionDecl

variable {o : OptionDecl}

def slots (o : OptionDecl) : List (String × Option Document) :=
  [("name", some (.text o.name)), ("type", some (.text o.kind.word)),
    ("description", o.description.map .text), ("required", some (.bool o.required)),
    ("flag", some (.bool o.flag)), ("choices", listDocument Choice.toDocument o.choices),
    ("single_value", o.singleValue.map .bool)]

theorem toDocument_eq (o : OptionDecl) : o.toDocument = .ofFields (givenFields o.slots) := by
  rw [toDocument, givenField_eq "single_value", listField_append]
  exact congrArg (fun fields => Document.ofFields (("name", .text o.name) ::
    ("type", .text o.kind.word) :: fields)) (givenField_append "description" .text o.description
      (("required", some (.bool o.required)) :: ("flag", some (.bool o.flag)) ::
        [("choices", listDocument Choice.toDocument o.choices),
          ("single_value", o.singleValue.map .bool)]))

section

variable (texts : ∀ c ∈ o.choices, c.HasText)
include texts

theorem toDocument_written : Written o.toDocument := by
  rw [toDocument_eq]
  apply Written.ofFields_givenFields
  simp only [slots, List.forall_mem_cons, List.not_mem_nil, false_imp_iff, implies_true, and_true]
  exact ⟨written_map_text (some o.name), written_map_text (some o.kind.word),
    written_map_text o.description, written_map_bool (some o.required),
    written_map_bool (some o.flag),
    listDocument_written fun c member => Choice.toDocument_written (texts c member),
    written_map_bool o.singleValue⟩

theorem ofDocument?_toDocument (format : Format) : ofDocument? format o.toDocument = some o := by
  have fields : o.toDocument.recordFields? format fieldNames = some (o.slots.map (·.2)) := by
    have distinct : (o.slots.map (·.1)).Nodup := by
      show fieldNames.Nodup
      decide
    rw [toDocument_eq]
    exact Document.recordFields?_givenFields format distinct
  have choices := @defaulted_listDocument _ Choice.toDocument (Choice.ofDocument? format) o.choices
    fun c member => Choice.ofDocument?_toDocument format (texts c member)
  simp only [slots, List.map_cons, List.map_nil] at fields
  simp only [ofDocument?, fields, choices, defaulted_some, ValueKind.asWord?_word,
    optional_asText?_map, optional_asBool?_map, Option.bind_eq_bind, Option.bind_some]
  rfl

end

end OptionDecl

/-! ## Messages -/

namespace Message

def slots (m : Message) : List (String × Option Document) :=
  [("author_id", some (.text m.author)), ("replied_author_id", m.repliedTo.map .text),
    ("mention_ids", listDocument .text m.mentions)]

theorem toDocument_eq (m : Message) : m.toDocument = .ofFields (givenFields m.slots) := by
  have mentions := listField_append "mention_ids" .text m.mentions []
  rw [listField, Document.givenFields, List.filterMap_nil, List.append_nil] at mentions
  rw [toDocument, mentions, givenField_append]
  rfl

theorem toDocument_written (m : Message) : Written m.toDocument := by
  rw [toDocument_eq]
  apply Written.ofFields_givenFields
  simp only [slots, List.forall_mem_cons, List.not_mem_nil, false_imp_iff, implies_true, and_true]
  exact ⟨written_map_text (some m.author), written_map_text m.repliedTo,
    listDocument_written fun s _ => .text s⟩

theorem ofDocument?_toDocument (m : Message) : ofDocument? m.toDocument = some m.detach := by
  have fields : m.toDocument.recordFields? .json
      ["author_id", "replied_author_id", "mention_ids"] = some (m.slots.map (·.2)) := by
    have distinct : (m.slots.map (·.1)).Nodup := by simp [slots]
    rw [toDocument_eq]
    exact Document.recordFields?_givenFields .json distinct
  have mentions := @defaulted_listDocument _ .text Document.asText? m.mentions fun _ _ => rfl
  simp only [slots, List.map_cons, List.map_nil] at fields
  simp only [ofDocument?, fields, mentions, Document.required, optional_asText?_map,
    Option.bind_eq_bind, Option.bind_some]
  rfl

end Message

/-- The text of an option reads as the option, where its choices have texts as values. The text of a
message reads as the message without its result. -/
theorem ofJson?_toJson_option_message (o : OptionDecl) (m : Message) :
    ((∀ c ∈ o.choices, ∃ s, c.value = .text s) → OptionDecl.ofJson? o.toJson = some o) ∧
      Message.ofJson? m.toJson = some m.detach := by
  constructor
  · intro texts
    rw [OptionDecl.ofJson?, OptionDecl.toJson,
      Document.ofJson?_toJson (OptionDecl.toDocument_written texts), Option.bind_some,
      OptionDecl.ofDocument?_toDocument texts]
  · rw [Message.ofJson?, Message.toJson, Document.ofJson?_toJson m.toDocument_written,
      Option.bind_some, Message.ofDocument?_toDocument]

/-- Marks are always written, and what is empty is not. The result of a message is lost. -/
theorem ofJson?_toJson_option_message_escaped :
    let o : OptionDecl :=
      { name := "a\"b", choices := [⟨"\\", .text "\t\x01"⟩], singleValue := some false }
    let m : Message := { author := "1", repliedTo := some "2", result := some (.ofContent "x") }
    o.toJson = "\x7b\"name\":\"a\\\"b\",\"type\":\"string\",\"required\":false," ++
        "\"flag\":false,\"choices\":[\x7b\"name\":\"\\\\\",\"value\":\"\\t\\u0001\"\x7d]," ++
        "\"single_value\":false\x7d" ∧
      (∀ c ∈ o.choices, ∃ s, c.value = .text s) ∧ OptionDecl.ofJson? o.toJson = some o ∧
      Message.ofJson? m.toJson = some { author := "1", repliedTo := some "2" } := by
  intro o m
  have texts : ∀ c ∈ o.choices, ∃ s, c.value = .text s := by simp [o]
  have back := ofJson?_toJson_option_message o m
  exact ⟨by decide +kernel, texts, back.1 texts, back.2⟩

end ChatArgs
