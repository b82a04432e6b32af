import ChatArgs.Proofs.Parse.Grammar
import ChatArgs.Proofs.Parse.TokenEnd
import ChatArgs.Proofs.Text.Replaced

/-!
# Tokens of a text with other characters

A character is ordinary for some delimiters if neither the tokenizer nor an escape looks at it: it
is visible, no part of a name, no sign, and no delimiter that is switched on. `Neutral d r` says
that `r` replaces only ordinary characters, and by ordinary ones. Then the same tokens stand at the
same places, and the same backslashes are escapes.
-/

namespace ChatArgs.Parse

open Text

variable {d : Delimiters} {r : Char → Char}

/-- A visible character without a meaning of its own. -/
structure IsOrdinary (d : Delimiters) (c : Char) : Prop where
  visible : isGap c = false
  noName : isNamePart c = false
  noSign : c ∉ ['\\', '=', ':', '/']
  noDelimiter : isDelimiterChar d c = false

theorem not_isOrdinary_of_gap {c : Char} (gap : isGap c = true) : ¬ IsOrdinary d c :=
  fun ordinary => by simp [ordinary.visible] at gap

theorem not_isOrdinary_of_delimiter {c : Char} (enabled : isDelimiterChar d c = true) :
    ¬ IsOrdinary d c :=
  fun ordinary => by simp [ordinary.noDelimiter] at enabled

theorem not_isOrdinary_of_name {c : Char} (part : isNamePart c = true) : ¬ IsOrdinary d c :=
  fun ordinary => by simp [ordinary.noName] at part

theorem not_isOrdinary_of_sign {c : Char} (sign : c ∈ ['\\', '=', ':', '/']) :
    ¬ IsOrdinary d c :=
  fun ordinary => ordinary.noSign sign

theorem not_isOrdinary_backslash : ¬ IsOrdinary d '\\' :=
  not_isOrdinary_of_sign (by decide)

theorem not_isOrdinary_lineFeed : ¬ IsOrdinary d '\n' :=
  not_isOrdinary_of_gap (by decide)

theorem not_isOrdinary_quote {quote : Quote} (enabled : d.isQuoteChar quote.char = true) :
    ¬ IsOrdinary d quote.char :=
  not_isOrdinary_of_delimiter (by simp [isDelimiterChar, enabled])

theorem not_isOrdinary_hyphen (enabled : d.hasHyphen = true) : ¬ IsOrdinary d '-' :=
  not_isOrdinary_of_delimiter (by simp [isDelimiterChar, enabled])

/-- Ordinary characters are replaced by ordinary ones of the same size, and no others. -/
structure Neutral (d : Delimiters) (r : Char → Char) : Prop where
  size : ∀ c, (r c).utf8Size = c.utf8Size
  ordinary : ∀ c, r c ≠ c → IsOrdinary d c ∧ IsOrdinary d (r c)

namespace Neutral

theorem id (d : Delimiters) : Neutral d id :=
  ⟨fun _ => rfl, fun _ changed => absurd rfl changed⟩

theorem single {a b : Char} (first : IsOrdinary d a) (second : IsOrdinary d b)
    (size : b.utf8Size = a.utf8Size) : Neutral d fun c => if c = a then b else c := by
  constructor
  · intro c
    split
    · rename_i same
      rw [same, size]
    · rfl
  · intro c changed
    split at changed
    · rename_i same
      rw [if_pos same, same]
      exact ⟨first, second⟩
    · exact absurd rfl changed

variable (neutral : Neutral d r)
include neutral

/-- What tells no ordinary characters apart does not see the change. -/
theorem test {p : Char → Bool} {b : Bool} (same : ∀ c, IsOrdinary d c → p c = b) (c : Char) :
    p (r c) = p c := by
  by_cases fixed : r c = c
  · rw [fixed]
  · obtain ⟨before, after⟩ := neutral.ordinary c fixed
    rw [same _ before, same _ after]

theorem fixed {x : Char} (special : ¬ IsOrdinary d x) : r x = x := by
  by_contra changed
  exact special (neutral.ordinary x changed).1

theorem beq {x : Char} (special : ¬ IsOrdinary d x) (c : Char) : (r c == x) = (c == x) :=
  neutral.test (p := (· == x)) (b := false)
    (fun _ ordinary => beq_false_of_ne fun same => special (same ▸ ordinary)) c

theorem isGap (c : Char) : isGap (r c) = isGap c :=
  neutral.test (fun _ ordinary => ordinary.visible) c

theorem isBlank (c : Char) : isBlank (r c) = isBlank c := by
  refine neutral.test (b := false) (fun c ordinary => ?_) c
  have visible := ordinary.visible
  simp only [Text.isGap, Bool.or_eq_false_iff] at visible
  exact visible.1

theorem isNamePart (c : Char) : isNamePart (r c) = isNamePart c :=
  neutral.test (fun _ ordinary => ordinary.noName) c

theorem isNameStart (c : Char) : isNameStart (r c) = isNameStart c := by
  refine neutral.test (b := false) (fun c ordinary => ?_) c
  have noName := ordinary.noName
  simp only [Parse.isNamePart, Bool.or_eq_false_iff] at noName
  exact noName.1

theorem isDelimiterChar (c : Char) : isDelimiterChar d (r c) = isDelimiterChar d c :=
  neutral.test (fun _ ordinary => ordinary.noDelimiter) c

theorem isWordChar (c : Char) : isWordChar d (r c) = isWordChar d c := by
  refine neutral.test (b := true) (fun c ordinary => ?_) c
  have noQuote := ordinary.noDelimiter
  simp only [Parse.isDelimiterChar, Bool.or_eq_false_iff] at noQuote
  have noBackslash : c ≠ '\\' := fun same => not_isOrdinary_backslash (same ▸ ordinary)
  simp [Parse.isWordChar, ordinary.visible, noQuote.1.1, noBackslash]

theorem map_name {name : List Char} (parts : ∀ c ∈ name, Parse.isNamePart c = true) :
    name.map r = name :=
  map_eq_self fun c member => neutral.fixed (not_isOrdinary_of_name (parts c member))

theorem map_backslashes (count : Nat) : (backslashes count).map r = backslashes count := by
  rw [backslashes, List.map_replicate, neutral.fixed not_isOrdinary_backslash]

theorem takeWhile_isNamePart (cs : List Char) :
    (cs.map r).takeWhile Parse.isNamePart = cs.takeWhile Parse.isNamePart := by
  rw [takeWhile_map neutral.isNamePart]
  exact neutral.map_name fun c member => List.all_eq_true.1 List.all_takeWhile c member

theorem length_takeWhile {x : Char} (special : ¬ IsOrdinary d x) (cs : List Char) :
    ((cs.map r).takeWhile (· == x)).length = (cs.takeWhile (· == x)).length := by
  rw [takeWhile_map (neutral.beq special), List.length_map]

/-! ## Markers -/

theorem nameAt?_map (cs : List Char) : nameAt? (cs.map r) = nameAt? cs := by
  cases cs with
  | nil => rfl
  | cons c cs =>
      have name := neutral.takeWhile_isNamePart (c :: cs)
      rw [List.map_cons] at name
      rw [List.map_cons, nameAt?, nameAt?, name, neutral.isNameStart]

theorem hyphenName?_map (escapes hyphens : Nat) (cs : List Char) :
    hyphenName? escapes hyphens (cs.map r) = hyphenName? escapes hyphens cs := by
  have sign (x : Char) (member : x ∈ ['\\', '=', ':', '/']) (c : Char) :
      (r c == x) = (c == x) := neutral.beq (not_isOrdinary_of_sign member) c
  unfold hyphenName?
  rw [neutral.nameAt?_map]
  cases nameAt? cs with
  | none => rfl
  | some name =>
      simp only [← List.map_drop, List.head?_map]
      cases (cs.drop name.length).head? with
      | none => rfl
      | some c => simp only [Option.map_some, sign '=' (by decide), sign ':' (by decide)]

theorem hyphensMarker?_map {enabled : Bool} (on : enabled = true → d.hasHyphen = true)
    (hyphens escapes : Nat) (cs : List Char) :
    hyphensMarker? enabled hyphens escapes (cs.map r) =
      hyphensMarker? enabled hyphens escapes cs := by
  cases enabled with
  | false => rfl
  | true =>
      have front : (List.replicate hyphens '-').isPrefixOf (cs.map r) =
          (List.replicate hyphens '-').isPrefixOf cs := by
        apply isPrefixOf_map
        intro x member
        rw [List.eq_of_mem_replicate member]
        exact neutral.beq (not_isOrdinary_hyphen (on rfl))
      unfold hyphensMarker?
      rw [front, ← List.map_drop, neutral.hyphenName?_map]

theorem hyphenMarker?_map (escapes : Nat) (cs : List Char) :
    hyphenMarker? d escapes (cs.map r) = hyphenMarker? d escapes cs := by
  unfold hyphenMarker?
  rw [neutral.hyphensMarker?_map (fun on => by simp [Delimiters.hasHyphen, on]),
    neutral.hyphensMarker?_map (fun on => by simp [Delimiters.hasHyphen, on])]

theorem colonMarker?_map (escapes : Nat) (cs : List Char) :
    colonMarker? escapes (cs.map r) = colonMarker? escapes cs := by
  have colon := neutral.beq (not_isOrdinary_of_sign (c := ':') (by decide))
  unfold colonMarker?
  simp only [neutral.takeWhile_isNamePart, ← List.map_drop, List.head?_map, map_beq_some colon]

theorem marker?_map (colons : Bool) (cs : List Char) :
    marker? d colons (cs.map r) = marker? d colons cs := by
  unfold marker?
  simp only [neutral.length_takeWhile not_isOrdinary_backslash, ← List.map_drop,
    neutral.hyphenMarker?_map, neutral.colonMarker?_map]

/-! ## Tokens -/

theorem matchAt?_map (colons : Bool) (cs : List Char) :
    matchAt? d colons (cs.map r) = matchAt? d colons cs := by
  unfold matchAt?
  rw [neutral.marker?_map]
  cases marker? d colons cs with
  | some found => rfl
  | none =>
      cases cs with
      | nil => rfl
      | cons c cs =>
          have word : (((c :: cs).map r).takeWhile (Parse.isWordChar d)).length =
              ((c :: cs).takeWhile (Parse.isWordChar d)).length := by
            rw [takeWhile_map neutral.isWordChar, List.length_map]
          have backslash := neutral.length_takeWhile not_isOrdinary_backslash (c :: cs)
          have lineFeed := neutral.length_takeWhile not_isOrdinary_lineFeed (c :: cs)
          rw [List.map_cons] at word backslash lineFeed
          simp only [List.map_cons, neutral.isDelimiterChar, neutral.isWordChar,
            neutral.beq not_isOrdinary_backslash, neutral.beq not_isOrdinary_lineFeed, word,
            backslash, lineFeed]
          split
          · rename_i delimiter
            rw [neutral.fixed (not_isOrdinary_of_delimiter delimiter)]
          · rfl

theorem isAddressRest_map (cs : List Char) : isAddressRest (cs.map r) = isAddressRest cs := by
  have slash := neutral.beq (not_isOrdinary_of_sign (c := '/') (by decide))
  have short (xs : List Char) (length : xs.length ≤ 2) : isAddressRest xs = false := by
    unfold isAddressRest
    split
    · simp at length
    · rfl
  rcases cs with - | ⟨a, - | ⟨b, - | ⟨c, cs⟩⟩⟩
  · rfl
  · rw [short _ (by simp), short _ (by simp)]
  · rw [short _ (by simp), short _ (by simp)]
  · rw [List.map_cons, List.map_cons, List.map_cons, isAddressRest_cons, isAddressRest_cons, slash,
      slash, neutral.isGap]

theorem tokenAt?_map (cs : List Char) : tokenAt? d (cs.map r) = tokenAt? d cs := by
  unfold tokenAt?
  simp only [neutral.matchAt?_map, ← List.map_drop, neutral.isAddressRest_map]

/-! ## Escapes -/

/-- An escape set that no ordinary character belongs to: one in which each delimiter is switched
on, a colon, or a slash. -/
theorem contains_map {e : EscapeSet}
    (covered : ∀ c, e.isDelimiter c = true → ¬ IsOrdinary d c) (c : Char) :
    e.contains (r c) = e.contains c := by
  refine neutral.test (b := false) (fun c ordinary => ?_) c
  have visible := ordinary.visible
  simp only [Text.isGap, Bool.or_eq_false_iff] at visible
  rw [EscapeSet.contains, visible.1, Bool.or_false]
  exact Bool.eq_false_iff.2 fun member => covered c member ordinary

theorem unescapeFrom_map {e : EscapeSet}
    (covered : ∀ c, e.isDelimiter c = true → ¬ IsOrdinary d c) (run : Nat) (cs : List Char) :
    unescapeFrom e run (cs.map r) = (unescapeFrom e run cs).map r := by
  induction cs generalizing run with
  | nil => exact (neutral.map_backslashes _).symm
  | cons c cs ih =>
      have escape : r c = '\\' ↔ c = '\\' := by
        simpa using neutral.beq not_isOrdinary_backslash c
      simp only [List.map_cons, unescapeFrom, escape, neutral.contains_map covered]
      split
      · exact ih _
      · split <;> rw [ih, List.map_append, neutral.map_backslashes, List.map_cons]

theorem unescapeWith_map {e : Option EscapeSet}
    (covered : ∀ e' ∈ e, ∀ c, e'.isDelimiter c = true → ¬ IsOrdinary d c) (cs : List Char) :
    unescapeWith e (cs.map r) = (unescapeWith e cs).map r := by
  cases e with
  | none => rfl
  | some e => exact neutral.unescapeFrom_map (covered e rfl) 0 cs

end Neutral

/-! ## Which delimiters are escaped -/

/-- The set holds delimiters that are switched on, colons and slashes. -/
theorem EscapeSet.not_isOrdinary {e : EscapeSet}
    (quotes : ∀ quote ∈ e.quotes, d.isQuoteChar quote.char = true)
    (hyphen : e.hyphen = true → d.hasHyphen = true) (c : Char) (member : e.isDelimiter c = true) :
    ¬ IsOrdinary d c := by
  simp only [isDelimiter, Bool.or_eq_true, List.any_eq_true, beq_iff_eq, Bool.and_eq_true] at member
  rcases member with ((⟨quote, member, rfl⟩ | ⟨on, rfl⟩) | ⟨-, rfl⟩) | ⟨-, rfl⟩
  · exact not_isOrdinary_quote (quotes quote member)
  · exact not_isOrdinary_hyphen (hyphen on)
  · exact not_isOrdinary_of_sign (by decide)
  · exact not_isOrdinary_of_sign (by decide)

theorem isQuoteChar_of_mem {quote : Quote} (enabled : quote ∈ d.quotes) :
    d.isQuoteChar quote.char = true :=
  List.any_eq_true.2 ⟨quote, enabled, by simp⟩

theorem escapedMarkers_hyphen (lock : Option Family)
    (on : (d.escapedMarkers lock).hyphen = true) : d.hasHyphen = true := by
  rcases lock with - | ⟨- | -⟩ <;> simp_all [Delimiters.escapedMarkers]

theorem escapedMarkers_quotes (lock : Option Family) : (d.escapedMarkers lock).quotes = [] := by
  rcases lock with - | ⟨- | -⟩ <;> rfl

section

variable {e : EscapeSet} {lock : Option Family}

theorem textEscapes_covered (escapes : d.textEscapes lock = some e) :
    ∀ c, e.isDelimiter c = true → ¬ IsOrdinary d c := by
  unfold Delimiters.textEscapes at escapes
  split at escapes
  · rw [← Option.some.inj escapes]
    exact EscapeSet.not_isOrdinary (fun _ member => isQuoteChar_of_mem member)
      (escapedMarkers_hyphen lock)
  · contradiction

theorem unquotedEscapes_covered (escapes : d.unquotedEscapes lock = some e) :
    ∀ c, e.isDelimiter c = true → ¬ IsOrdinary d c := by
  unfold Delimiters.unquotedEscapes at escapes
  split at escapes
  · rw [← Option.some.inj escapes]
    exact EscapeSet.not_isOrdinary (by simp [escapedMarkers_quotes]) (escapedMarkers_hyphen lock)
  · contradiction

theorem markerEscapes_covered {family : Family}
    (escapes : d.markerEscapes lock family = some e) :
    ∀ c, e.isDelimiter c = true → ¬ IsOrdinary d c := by
  unfold Delimiters.markerEscapes at escapes
  split at escapes <;> split at escapes
  · rw [← Option.some.inj escapes]
    exact EscapeSet.not_isOrdinary (by simp [escapedMarkers_quotes]) (escapedMarkers_hyphen lock)
  · contradiction
  · rw [← Option.some.inj escapes]
    exact EscapeSet.not_isOrdinary (by simp [escapedMarkers_quotes]) (escapedMarkers_hyphen lock)
  · contradiction

theorem quoteEscapes_covered {quote : Quote} (escapes : d.quoteEscapes quote = some e) :
    ∀ c, e.isDelimiter c = true → ¬ IsOrdinary d c := by
  unfold Delimiters.quoteEscapes at escapes
  split at escapes
  · rename_i enabled
    rw [← Option.some.inj escapes]
    refine EscapeSet.not_isOrdinary ?_ (by simp)
    intro quote' member
    rw [List.mem_singleton.1 member]
    exact isQuoteChar_of_mem (by simpa [Delimiters.hasQuote] using enabled)
  · contradiction

end

theorem Neutral.escapesNext_map (neutral : Neutral d r) (lock : Option Family)
    (next : Option Char) : d.escapesNext lock (next.map r) = d.escapesNext lock next := by
  unfold Delimiters.escapesNext
  cases escapes : d.textEscapes lock with
  | none => rfl
  | some e =>
      cases next with
      | none => rfl
      | some c => exact neutral.contains_map (textEscapes_covered escapes) c

theorem Neutral.map_of_escapesNext (neutral : Neutral d r) {lock : Option Family}
    {next : Option Char} (escaped : d.escapesNext lock next = true) : next.map r = next := by
  unfold Delimiters.escapesNext at escaped
  split at escaped
  · contradiction
  · rename_i e escapes
    split at escaped
    · rfl
    · rename_i c
      rw [EscapeSet.contains, Bool.or_eq_true] at escaped
      rw [Option.map_some]
      rcases escaped with delimiter | blank
      · rw [neutral.fixed (textEscapes_covered escapes c delimiter)]
      · rw [neutral.fixed (not_isOrdinary_of_gap (by simp [Text.isGap, blank]))]

end ChatArgs.Parse
