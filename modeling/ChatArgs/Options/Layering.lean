import ChatArgs.Options.Basic

/-! # Layers of settings

`Config.resolve` lays options over a decided configuration, `Options.merge` lays
options over options, and `Config.spellOut` writes a configuration as options that
decide every field. The rules are the same for both: a given field replaces the
one underneath, each delimiter list on its own; the nested features merge field by
field, and a feature that is switched off hides what lies under it.
-/

namespace ChatArgs

/-- Every item once, at its first place. Worker: `seen` holds the items kept so far. -/
def firstOccurrencesAux {α : Type} [DecidableEq α] (seen : List α) : List α → List α
  | [] => []
  | x :: xs =>
      if x ∈ seen then firstOccurrencesAux seen xs
      else x :: firstOccurrencesAux (x :: seen) xs

def firstOccurrences {α : Type} [DecidableEq α] (xs : List α) : List α :=
  firstOccurrencesAux [] xs

namespace Options

/-- The delimiter lists without repetitions. -/
def deduplicated (o : Options) : Options :=
  { o with
    delimiters := o.delimiters.map fun given =>
      { quotes := given.quotes.map firstOccurrences
        markers := given.markers.map firstOccurrences } }

end Options

namespace Delimiters

/-- Given lists replace those of the base, without repetitions. -/
def resolve (base : Delimiters) : Option DelimiterOptions → Delimiters
  | none => base
  | some given =>
      { quotes := (given.quotes.map firstOccurrences).getD base.quotes
        markers := (given.markers.map firstOccurrences).getD base.markers }

end Delimiters

namespace PlainLast

/-- A plain choice replaces the base; details that are left out come from it. -/
def resolve (base : Option PlainLast) : Option PlainLastOption → Option PlainLast
  | none => base
  | some (.enabled false) => none
  | some (.enabled true) => some {}
  | some (.detailed keep) =>
      some ⟨(keep.or (base.map (·.keepCodeBlocks))).getD false⟩

end PlainLast

namespace Setting

/-- Lays a nested feature over a decided one. -/
def resolve {ρ ω : Type} (base : Option ρ) (apply : Option ρ → ω → ρ) :
    Setting ω → Option ρ
  | .unset => base
  | .off => none
  | .on given => some (apply base given)

/-- Lays a nested feature with one field over another. A feature that was switched
off underneath contributes `standard`, the value of its field by default. -/
def merge (standard : Bool) (base : Setting (Option Bool)) :
    Setting (Option Bool) → Setting (Option Bool)
  | .unset => base
  | .off => .off
  | .on given =>
      .on (given.or (match base with
        | .on under => under
        | .off => some standard
        | .unset => none))

end Setting

namespace Config

/-- Lays options over a configuration. -/
def resolve (base : Config) (o : Options) : Config where
  delimiters := base.delimiters.resolve o.delimiters
  stopWhenFilled := o.stopWhenFilled.getD base.stopWhenFilled
  oneFamily := o.oneFamily.getD base.oneFamily
  plainLast := PlainLast.resolve base.plainLast o.plainLast
  choices := o.choices.resolve base.choices fun under given =>
    ⟨(given.or (under.map (·.byValue))).getD true⟩
  replyFilling := o.replyFilling.resolve base.replyFilling fun under given =>
    ⟨(given.or (under.map (·.requirePing))).getD false⟩
  languageAsValue := o.languageAsValue.getD base.languageAsValue
  singleValue := o.singleValue.getD base.singleValue
  logResult := o.logResult.getD base.logResult

/-- Options laid over the default configuration. -/
def ofOptions (o : Options) : Config :=
  ({} : Config).resolve o

/-- The options that decide every field as the configuration does. -/
def spellOut (config : Config) : Options where
  delimiters := some
    { quotes := some config.delimiters.quotes, markers := some config.delimiters.markers }
  stopWhenFilled := some config.stopWhenFilled
  oneFamily := some config.oneFamily
  plainLast := some (match config.plainLast with
    | some plain => .detailed (some plain.keepCodeBlocks)
    | none => .enabled false)
  choices := Setting.ofOption (config.choices.map fun matching => some matching.byValue)
  replyFilling :=
    Setting.ofOption (config.replyFilling.map fun filling => some filling.requirePing)
  languageAsValue := some config.languageAsValue
  singleValue := some config.singleValue
  logResult := some config.logResult

end Config

namespace DelimiterOptions

/-- Each list on its own: the upper one if it is given. -/
def merge (base overlay : DelimiterOptions) : DelimiterOptions where
  quotes := overlay.quotes.or base.quotes
  markers := overlay.markers.or base.markers

end DelimiterOptions

namespace PlainLastOption

/-- Details over details merge; details over a plain choice start from the default. -/
def merge : Option PlainLastOption → Option PlainLastOption → Option PlainLastOption
  | base, none => base
  | some (.detailed under), some (.detailed given) => some (.detailed (given.or under))
  | some (.enabled _), some (.detailed given) => some (.detailed (given.or (some false)))
  | _, some given => some given

end PlainLastOption

namespace Options

def mergeDelimiters : Option DelimiterOptions → Option DelimiterOptions →
    Option DelimiterOptions
  | none, overlay => overlay
  | base, none => base
  | some base, some overlay => some (base.merge overlay)

def merge (base overlay : Options) : Options where
  delimiters := mergeDelimiters base.delimiters overlay.delimiters
  stopWhenFilled := overlay.stopWhenFilled.or base.stopWhenFilled
  oneFamily := overlay.oneFamily.or base.oneFamily
  plainLast := PlainLastOption.merge base.plainLast overlay.plainLast
  choices := base.choices.merge true overlay.choices
  replyFilling := base.replyFilling.merge false overlay.replyFilling
  languageAsValue := overlay.languageAsValue.or base.languageAsValue
  singleValue := overlay.singleValue.or base.singleValue
  logResult := overlay.logResult.or base.logResult

end Options

end ChatArgs
