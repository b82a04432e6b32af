import ChatArgs.Document.Decoder
import ChatArgs.Document.Json.Reader
import ChatArgs.Document.Json.Writer
import ChatArgs.Options.Layering

/-! # Settings in data files

`Options.toDocument` and `Options.ofDocument?` are the two directions of the data
form of settings: fields that are not given are not written, and a nested feature
that is switched off is written as null. Settings that come from a file are
deduplicated: their delimiter lists lose repetitions.
-/

namespace ChatArgs

open Document (optional required)

namespace Quote

def word : Quote → String
  | .double => "\""
  | .single => "'"
  | .backtick => "`"

/-- Every quote by its word. -/
def words : List (String × Quote) :=
  all.map fun q => (q.word, q)

end Quote

namespace MarkerStyle

def word : MarkerStyle → String
  | .hyphen => "-"
  | .doubleHyphen => "--"
  | .colon => ":"

def words : List (String × MarkerStyle) :=
  all.map fun m => (m.word, m)

end MarkerStyle

/-- A field that is written when it is given. -/
def givenField {α : Type} (name : String) (write : α → Document) (value : Option α) :
    List (String × Document) :=
  match value with
  | some value => [(name, write value)]
  | none => []

/-- A nested feature with one field: not written, null, or a record. -/
def settingField (name inner : String) : Setting (Option Bool) → List (String × Document)
  | .unset => []
  | .off => [(name, .null)]
  | .on value => [(name, .ofFields (givenField inner .bool value))]

namespace DelimiterOptions

def toDocument (o : DelimiterOptions) : Document :=
  .ofFields
    (givenField "longTextTags" (fun l => .list (l.map fun q => .text q.word)) o.quotes ++
      givenField "namedOptions" (fun l => .list (l.map fun m => .text m.word)) o.markers)

def ofDocument? (format : Format) (d : Document) : Option DelimiterOptions :=
  match d.recordFields? format ["longTextTags", "namedOptions"] with
  | some [quotes, markers] => do
      let quotes ← optional (Document.asListOf? (Document.asWord? format Quote.words)) quotes
      let markers ←
        optional (Document.asListOf? (Document.asWord? format MarkerStyle.words)) markers
      pure ⟨quotes, markers⟩
  | _ => none

end DelimiterOptions

namespace PlainLastOption

def toDocument : PlainLastOption → Document
  | .enabled value => .bool value
  | .detailed keep => .ofFields (givenField "excludeCodeBlocks" .bool keep)

/-- Reads the record form, whose field may be left out or null. -/
def ofRecord? (d : Document) : Option PlainLastOption :=
  match d.looseFields? ["excludeCodeBlocks"] with
  | some [none] => some (.detailed none)
  | some [some keep] =>
      match keep.scalar? with
      | some .null => some (.detailed none)
      | some (.bool value) => some (.detailed (some value))
      | _ => none
  | _ => none

/-- Reads a last-slot setting. Its form is found by looking at it, whatever the
notation; such a value has types all through, and is not nested too deeply. `outer`
counts the records around it. -/
def ofDocument? (format : Format) (outer : Nat) (d : Document) : Option PlainLastOption :=
  let limit := match format with
    | .json => 127
    | .yaml => 128
  if limit < outer + d.depth || !d.isTyped then none
  else match d.scalar? with
    | some (.bool value) => some (.enabled value)
    | some _ => none
    | none => ofRecord? d

end PlainLastOption

/-- Reads a nested feature with one field. -/
def readSetting? (format : Format) (inner : String) : Option Document →
    Option (Setting (Option Bool))
  | none => some .unset
  | some d => (optional readRecord (some d)).map Setting.ofOption
where
  /-- The record of the feature. -/
  readRecord (d : Document) : Option (Option Bool) :=
    match d.recordFields? format [inner] with
    | some [value] => optional Document.asBool? value
    | _ => none

namespace Options

/-- The names of the fields of settings, in the order in which they are written. -/
def fieldNames : List String :=
  ["syntax", "breakSearchOnConsumeAllOptions", "useUniqueNamedSyntaxAtSameTime",
    "disableLongTextTagsInLastOption", "resolveCommandOptionsChoices",
    "useRepliedUserAsAnOption", "useCodeBlockLangAsAnOption", "useNamedWithSingleValue",
    "logResult"]

def toDocument (o : Options) : Document :=
  .ofFields
    (givenField "syntax" DelimiterOptions.toDocument o.delimiters ++
      (givenField "breakSearchOnConsumeAllOptions" .bool o.stopWhenFilled ++
      (givenField "useUniqueNamedSyntaxAtSameTime" .bool o.oneFamily ++
      (givenField "disableLongTextTagsInLastOption" PlainLastOption.toDocument o.plainLast ++
      (settingField "resolveCommandOptionsChoices" "canUseDirectlyValue" o.choices ++
      (settingField "useRepliedUserAsAnOption" "requirePing" o.replyFilling ++
      (givenField "useCodeBlockLangAsAnOption" .bool o.languageAsValue ++
      (givenField "useNamedWithSingleValue" .bool o.singleValue ++
      givenField "logResult" .bool o.logResult))))))))

/-- Reads settings; `outer` counts the records around them. -/
def ofDocument? (format : Format) (outer : Nat) (d : Document) : Option Options :=
  match d.recordFields? format fieldNames with
  | some [delimiters, stopWhenFilled, oneFamily, plainLast, choices, replyFilling,
      languageAsValue, singleValue, logResult] => do
      let delimiters ← optional (DelimiterOptions.ofDocument? format) delimiters
      let stopWhenFilled ← optional Document.asBool? stopWhenFilled
      let oneFamily ← optional Document.asBool? oneFamily
      let plainLast ← optional (PlainLastOption.ofDocument? format (outer + 1)) plainLast
      let choices ← readSetting? format "canUseDirectlyValue" choices
      let replyFilling ← readSetting? format "requirePing" replyFilling
      let languageAsValue ← optional Document.asBool? languageAsValue
      let singleValue ← optional Document.asBool? singleValue
      let logResult ← optional Document.asBool? logResult
      pure { delimiters, stopWhenFilled, oneFamily, plainLast, choices, replyFilling,
             languageAsValue, singleValue, logResult }
  | _ => none

def toJson (o : Options) : String :=
  o.toDocument.toJson

/-- Reads settings from a JSON text and deduplicates them. -/
def ofJson? (s : String) : Option Options :=
  ((Document.ofJson? s).bind (ofDocument? .json 0)).map deduplicated

end Options

end ChatArgs
