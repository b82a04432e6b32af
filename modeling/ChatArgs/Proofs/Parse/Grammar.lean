import ChatArgs.Parse.State
import ChatArgs.Proofs.Text.Places

/-!
# The grammar of tokens

`TokenFront d kind text rest` says that `text` is a token of this kind in front of `rest`.
`tokenAt?_front` says that the tokenizer takes only such tokens, and `tokenAt?_eq_none`
that it takes one wherever a visible character stands.
-/

namespace ChatArgs.Parse

open Text

/-- A name that a marker with hyphens can spell: letters, digits and underscores of ASCII,
and no digit in front. -/
def IsIdentifier (name : List Char) : Prop :=
  (∃ c ∈ name.head?, isNameStart c = true) ∧ ∀ c ∈ name, isNamePart c = true

/-- What a token of each kind looks like, and what can stand behind it. -/
inductive TokenFront (d : Delimiters) : TokenKind → List Char → List Char → Prop
  | hyphens {escapes count : Nat} {name sign rest : List Char} :
      (count = 1 ∨ count = 2) → d.hasHyphen = true → IsIdentifier name →
      (sign = [] ∨ sign = ['='] ∨ sign = [':']) →
      TokenFront d (.marker escapes (.hyphens count) (String.ofList name))
        (backslashes escapes ++ (List.replicate count '-' ++ (name ++ sign))) rest
  | colon {escapes : Nat} {name rest : List Char} :
      d.hasColon = true → name ≠ [] → (∀ c ∈ name, isNamePart c = true) →
      isAddressRest rest = false →
      TokenFront d (.marker escapes .colon (String.ofList name))
        (backslashes escapes ++ (name ++ [':'])) rest
  | delimiter {c : Char} {rest : List Char} :
      isDelimiterChar d c = true → TokenFront d (.delimiter c) [c] rest
  | word {text rest : List Char} :
      text ≠ [] → (∀ c ∈ text, isWordChar d c = true) →
      (∀ c ∈ rest.head?, isWordChar d c = false) → TokenFront d .word text rest
  | backslashes {count : Nat} {rest : List Char} :
      0 < count → d.isActive = true → rest.head? ≠ some '\\' →
      hyphenMarker? d 0 rest = none →
      TokenFront d (.backslashes count) (Parse.backslashes count) rest
  | lineFeeds {count : Nat} {rest : List Char} :
      0 < count → rest.head? ≠ some '\n' →
      TokenFront d .lineFeeds (List.replicate count '\n') rest

/-! ## Characters of tokens -/

theorem isGap_of_isNamePart {c : Char} (h : isNamePart c = true) : isGap c = false := by
  have code : 48 ≤ c.toNat ∧ c.toNat ≤ 122 := by
    have toNat : c.toNat = c.val.toNat := rfl
    simp only [isNamePart, isNameStart, Bool.or_eq_true, Bool.and_eq_true, decide_eq_true_eq,
      beq_iff_eq, Char.le_def, UInt32.le_iff_toNat_le] at h
    rcases h with ((⟨low, high⟩ | ⟨low, high⟩) | rfl) | ⟨low, high⟩
    · simp at low high
      omega
    · simp at low high
      omega
    · decide
    · simp at low high
      omega
  have delete : c ≠ '\x7F' := by
    rintro rfl
    exact absurd code (by decide)
  simp [isGap, isBlank, delete]
  omega

theorem isBlank_of_isGap {c : Char} (shown : isGap c = false) : isBlank c = false := by
  rw [isGap, Bool.or_eq_false_iff] at shown
  exact shown.1

theorem isBlank_of_isNamePart {c : Char} (part : isNamePart c = true) : isBlank c = false :=
  isBlank_of_isGap (isGap_of_isNamePart part)

theorem isNamePart_of_isAlphanum {c : Char} (h : c.isAlphanum = true) : isNamePart c = true := by
  have kinds : (c.isUpper || c.isLower || c.isDigit) = true := h
  rw [Bool.or_eq_true, Bool.or_eq_true] at kinds
  rcases kinds with (upper | lower) | digit
  · have between : 'A' ≤ c ∧ c ≤ 'Z' := of_decide_eq_true upper
    simp [isNamePart, isNameStart, between]
  · have between : 'a' ≤ c ∧ c ≤ 'z' :=
      (Bool.and_eq_true_iff.1 lower).imp of_decide_eq_true of_decide_eq_true
    simp [isNamePart, isNameStart, between]
  · have between : '0' ≤ c ∧ c ≤ '9' :=
      (Bool.and_eq_true_iff.1 digit).imp of_decide_eq_true of_decide_eq_true
    simp [isNamePart, between]

theorem exists_quote_of_isQuoteChar {d : Delimiters} {c : Char} (h : d.isQuoteChar c = true) :
    ∃ q ∈ d.quotes, q.char = c := by
  simpa [Delimiters.isQuoteChar] using h

@[simp] theorem isQuoteChar_backslash (d : Delimiters) : d.isQuoteChar '\\' = false := by
  cases h : d.isQuoteChar '\\' with
  | false => rfl
  | true =>
      obtain ⟨q, -, char⟩ := exists_quote_of_isQuoteChar h
      cases q <;> exact absurd char (by decide)

theorem isGap_of_isDelimiterChar {d : Delimiters} {c : Char}
    (h : isDelimiterChar d c = true) : isGap c = false := by
  simp only [isDelimiterChar, Bool.or_eq_true, Bool.and_eq_true, beq_iff_eq] at h
  rcases h with (quote | ⟨-, rfl⟩) | ⟨-, rfl⟩
  · obtain ⟨q, -, rfl⟩ := exists_quote_of_isQuoteChar quote
    cases q <;> decide
  · decide
  · decide

theorem isQuoteChar_of_isDelimiterChar {d : Delimiters} {quote : Quote}
    (enabled : isDelimiterChar d quote.char = true) : d.isQuoteChar quote.char = true := by
  have noMarker : quote.char ≠ '-' ∧ quote.char ≠ ':' := by cases quote <;> decide
  simpa [isDelimiterChar, noMarker.1, noMarker.2] using enabled

theorem ofChar?_eq_none_of_isDelimiterChar {d : Delimiters} {c : Char}
    (isDelimiter : isDelimiterChar d c = true) (plain : d.isQuoteChar c = false) :
    Quote.ofChar? c = none := by
  cases found : Quote.ofChar? c with
  | none => rfl
  | some quote =>
      obtain rfl := Quote.char_of_ofChar? found
      rw [isQuoteChar_of_isDelimiterChar isDelimiter] at plain
      exact absurd plain (by decide)

theorem escapedMarkers_enabled (d : Delimiters) (lock : Option Family) :
    ((d.escapedMarkers lock).hyphen = true → d.hasHyphen = true) ∧
      ((d.escapedMarkers lock).colon = true → d.hasColon = true) ∧
      (d.escapedMarkers lock).slash = false := by
  rcases lock with - | ⟨- | -⟩ <;> simp [Delimiters.escapedMarkers]

/-- In plain text only blanks and delimiters are escaped. -/
theorem isDelimiterChar_of_escapesNext {d : Delimiters} {lock : Option Family} {c : Char}
    (escapes : d.escapesNext lock (some c) = true) :
    isBlank c = true ∨ isDelimiterChar d c = true := by
  obtain ⟨hyphen, colon, slash⟩ := escapedMarkers_enabled d lock
  unfold Delimiters.escapesNext Delimiters.textEscapes at escapes
  split at escapes
  · contradiction
  · rename_i e found
    split at found
    · obtain rfl := Option.some.inj found
      simp only [EscapeSet.contains, EscapeSet.isDelimiter, slash, Bool.false_and, Bool.or_false,
        Bool.or_eq_true, Bool.and_eq_true, beq_iff_eq] at escapes
      rcases escapes with ((quote | ⟨on, rfl⟩) | ⟨on, rfl⟩) | blank
      · exact .inr (by simp [isDelimiterChar, Delimiters.isQuoteChar, quote])
      · exact .inr (by simp [isDelimiterChar, hyphen on])
      · exact .inr (by simp [isDelimiterChar, colon on])
      · exact .inl blank
    · contradiction

/-- A blank, or the end of the text, can always be escaped. -/
theorem escapesNext_of_blank {d : Delimiters} (active : d.isActive = true) (lock : Option Family)
    {next : Option Char} (blank : next.all isBlank = true) : d.escapesNext lock next = true := by
  unfold Delimiters.escapesNext Delimiters.textEscapes
  rw [if_pos active]
  cases next with
  | none => rfl
  | some c =>
      have blank' : isBlank c = true := by simpa using blank
      simp [EscapeSet.contains, blank']

/-- Only a run of line feeds is made of characters that are not visible. -/
theorem TokenFront.visible {d : Delimiters} {kind : TokenKind} {text rest : List Char}
    (h : TokenFront d kind text rest) (hkind : kind ≠ .lineFeeds) :
    ∀ c ∈ text, isGap c = false := by
  intro c hc
  cases h with
  | hyphens hcount _ valid hsign =>
      simp only [List.mem_append, Parse.backslashes, List.mem_replicate] at hc
      rcases hc with ⟨-, rfl⟩ | ⟨-, rfl⟩ | hc | hc
      · decide
      · decide
      · exact isGap_of_isNamePart (valid.2 c hc)
      · rcases hsign with rfl | rfl | rfl
        · simp at hc
        · rw [List.mem_singleton.1 hc]
          decide
        · rw [List.mem_singleton.1 hc]
          decide
  | colon _ _ parts _ =>
      simp only [List.mem_append, Parse.backslashes, List.mem_replicate, List.mem_singleton] at hc
      rcases hc with ⟨-, rfl⟩ | hc | rfl
      · decide
      · exact isGap_of_isNamePart (parts c hc)
      · decide
  | delimiter hdelimiter =>
      rw [List.mem_singleton.1 hc]
      exact isGap_of_isDelimiterChar hdelimiter
  | word _ inside _ =>
      have word := inside c hc
      simp only [isWordChar, Bool.and_eq_true, Bool.not_eq_true'] at word
      exact word.1.1
  | backslashes _ _ _ _ =>
      rw [List.eq_of_mem_replicate hc]
      decide
  | lineFeeds _ _ => exact absurd rfl hkind

theorem TokenFront.kind_of_gap {d : Delimiters} {kind : TokenKind} {text rest : List Char}
    (h : TokenFront d kind text rest) {c : Char} (hc : c ∈ text) (gap : isGap c = true) :
    kind = .lineFeeds := by
  by_contra other
  have shown := h.visible other c hc
  simp [gap] at shown

theorem TokenFront.blank_notMem {d : Delimiters} {kind : TokenKind} {text rest : List Char}
    (h : TokenFront d kind text rest) : ' ' ∉ text := by
  intro member
  have lineFeeds := h.kind_of_gap member (by decide)
  subst lineFeeds
  cases h with
  | lineFeeds _ _ => exact absurd (List.eq_of_mem_replicate member) (by decide)

theorem TokenFront.ne_nil {d : Delimiters} {kind : TokenKind} {text rest : List Char}
    (h : TokenFront d kind text rest) : text ≠ [] := by
  cases h with
  | hyphens hcount _ _ _ => rcases hcount with rfl | rfl <;> simp
  | colon _ _ _ _ => simp
  | delimiter _ => simp
  | word filled _ _ => exact filled
  | backslashes positive _ _ _ =>
      simp [Parse.backslashes]
      omega
  | lineFeeds positive _ =>
      simp
      omega

theorem TokenFront.backslashes_inv {d : Delimiters} {count : Nat} {text rest : List Char}
    (front : TokenFront d (.backslashes count) text rest) :
    0 < count ∧ rest.head? ≠ some '\\' ∧ hyphenMarker? d 0 rest = none ∧
      text = Parse.backslashes count := by
  cases front with
  | backslashes positive _ head noMarker => exact ⟨positive, head, noMarker, rfl⟩

theorem TokenFront.ne_backslashes {d : Delimiters} {kind : TokenKind} {c : Char}
    {text rest : List Char} (front : TokenFront d kind (c :: text) rest) (other : c ≠ '\\')
    (count : Nat) : kind ≠ .backslashes count := by
  rintro rfl
  obtain ⟨-, -, -, run⟩ := front.backslashes_inv
  have member : c ∈ Parse.backslashes count := run ▸ List.mem_cons_self
  exact other (List.eq_of_mem_replicate member)

theorem TokenFront.lineFeed_of_mem {d : Delimiters} {text rest : List Char}
    (front : TokenFront d .lineFeeds text rest) {c : Char} (member : c ∈ text) : c = '\n' := by
  cases front with
  | lineFeeds _ _ => exact List.eq_of_mem_replicate member

/-! ## Markers -/

theorem ne_backslash_of_isNamePart {c : Char} (h : isNamePart c = true) : c ≠ '\\' := by
  rintro rfl
  exact absurd h (by decide)

theorem ne_backslash_of_isDelimiterChar {d : Delimiters} {c : Char}
    (h : isDelimiterChar d c = true) : c ≠ '\\' := by
  rintro rfl
  simp [isDelimiterChar] at h

/-- Only a run of backslashes ends with a backslash, where something can be escaped. -/
theorem TokenFront.exists_last {d : Delimiters} {kind : TokenKind} {text rest : List Char}
    (h : TokenFront d kind text rest) (active : d.isActive = true)
    (hkind : ∀ count, kind ≠ .backslashes count) :
    ∃ front c, text = front ++ [c] ∧ c ≠ '\\' := by
  obtain ⟨front, c, rfl⟩ : ∃ front c, text = front ++ [c] :=
    ⟨_, _, (List.dropLast_concat_getLast h.ne_nil).symm⟩
  refine ⟨front, c, rfl, ?_⟩
  generalize whole : front ++ [c] = text at h
  have last : text.getLast? = some c := by simp [← whole]
  cases h with
  | @hyphens escapes count name sign rest hcount _ valid hsign =>
      obtain ⟨⟨x, start, _⟩, parts⟩ := valid
      have filled : name ≠ [] := by
        rintro rfl
        simp at start
      obtain ⟨front, y, rfl⟩ : ∃ front y, name = front ++ [y] :=
        ⟨_, _, (List.dropLast_concat_getLast filled).symm⟩
      rcases hsign with rfl | rfl | rfl
      · have same : y = c := by simpa [List.getLast?_append] using last
        rw [← same]
        exact ne_backslash_of_isNamePart (parts y (by simp))
      · have same : '=' = c := by simpa [List.getLast?_append] using last
        rw [← same]
        decide
      · have same : ':' = c := by simpa [List.getLast?_append] using last
        rw [← same]
        decide
  | colon _ _ _ _ =>
      have same : ':' = c := by simpa [List.getLast?_append] using last
      rw [← same]
      decide
  | delimiter hdelimiter =>
      simp only [List.getLast?_singleton, Option.some.injEq] at last
      rw [← last]
      exact ne_backslash_of_isDelimiterChar hdelimiter
  | word _ inside _ =>
      have word := inside c (List.mem_of_getLast? last)
      rintro rfl
      simp [isWordChar, active] at word
  | backslashes _ _ _ _ => exact absurd rfl (hkind _)
  | lineFeeds _ _ =>
      have same := List.eq_of_mem_replicate (List.mem_of_getLast? last)
      rw [same]
      decide

theorem TokenFront.quote_notMem {d : Delimiters} {kind : TokenKind} {text rest : List Char}
    (h : TokenFront d kind text rest) {q : Quote} (enabled : d.isQuoteChar q.char = true)
    (hkind : ∀ c, kind ≠ .delimiter c) : q.char ∉ text := by
  have notName (name : List Char) (parts : ∀ c ∈ name, isNamePart c = true) :
      q.char ∉ name := by
    intro member
    have part := parts q.char member
    cases q <;> exact absurd part (by decide)
  obtain ⟨noBackslash, noHyphen, noEquals, noColon, noLineFeed⟩ :
      q.char ≠ '\\' ∧ q.char ≠ '-' ∧ q.char ≠ '=' ∧ q.char ≠ ':' ∧ q.char ≠ '\n' := by
    cases q <;> decide
  cases h with
  | hyphens _ _ valid hsign =>
      have absent := notName _ valid.2
      rcases hsign with rfl | rfl | rfl
      · simp [Parse.backslashes, noBackslash, noHyphen, absent]
      · simp [Parse.backslashes, noBackslash, noHyphen, noEquals, absent]
      · simp [Parse.backslashes, noBackslash, noHyphen, noColon, absent]
  | colon _ _ parts _ => simp [Parse.backslashes, noBackslash, noColon, notName _ parts]
  | delimiter _ => exact absurd rfl (hkind _)
  | word _ inside _ =>
      intro member
      have word := inside q.char member
      simp [isWordChar, enabled] at word
  | backslashes _ _ _ _ => simp [Parse.backslashes, noBackslash]
  | lineFeeds _ _ => simp [noLineFeed]

@[simp] theorem length_backslashes (count : Nat) : (backslashes count).length = count := by
  simp [backslashes]

theorem TokenFront.escapes_le {d : Delimiters} {escapes : Nat} {opening : Opening}
    {name : String} {text rest : List Char}
    (h : TokenFront d (.marker escapes opening name) text rest) : escapes ≤ byteLength text := by
  refine Nat.le_trans ?_ (length_le_byteLength text)
  cases h with
  | hyphens => simp
  | colon => simp

theorem nameAt?_eq_some {cs name : List Char} (h : nameAt? cs = some name) :
    IsIdentifier name ∧ ∃ rest, cs = name ++ rest ∧ cs.drop name.length = rest := by
  cases cs with
  | nil => simp [nameAt?] at h
  | cons c cs =>
      simp only [nameAt?] at h
      split at h
      · rename_i start
        have part : isNamePart c = true := by simp [isNamePart, start]
        have taken : name = (c :: cs).takeWhile isNamePart := (Option.some.inj h).symm
        subst taken
        obtain ⟨rest, split, drop, -⟩ := exists_span isNamePart (c :: cs)
        refine ⟨⟨⟨c, by simp [part], start⟩, ?_⟩, rest, split, drop⟩
        intro x hx
        exact List.all_eq_true.1 List.all_takeWhile x hx
      · simp at h

theorem hyphenName?_eq_some {escapes count size : Nat} {cs : List Char} {kind : TokenKind}
    (h : hyphenName? escapes count cs = some (kind, size)) :
    ∃ name sign rest, cs = name ++ (sign ++ rest) ∧ IsIdentifier name ∧
      (sign = [] ∨ sign = ['='] ∨ sign = [':']) ∧
      kind = .marker escapes (.hyphens count) (String.ofList name) ∧
      size = escapes + count + name.length + sign.length := by
  unfold hyphenName? at h
  cases named : nameAt? cs with
  | none => simp [named] at h
  | some name =>
      obtain ⟨valid, rest, split, drop⟩ := nameAt?_eq_some named
      simp only [named, drop, Option.some.injEq, Prod.mk.injEq] at h
      obtain ⟨rfl, rfl⟩ := h
      cases rest with
      | nil => exact ⟨name, [], [], by simp [split], valid, .inl rfl, rfl, by simp⟩
      | cons c rest =>
          by_cases sign : c = '=' ∨ c = ':'
          · refine ⟨name, [c], rest, by simp [split], valid, ?_, rfl, ?_⟩
            · rcases sign with rfl | rfl <;> simp
            · simp [sign]
          · refine ⟨name, [], c :: rest, by simp [split], valid, .inl rfl, rfl, ?_⟩
            simp [sign]

/-- The backslashes in front do not decide whether a marker with hyphens stands there. -/
theorem hyphenMarker?_eq_none_iff (d : Delimiters) (escapes : Nat) (cs : List Char) :
    hyphenMarker? d escapes cs = none ↔ hyphenMarker? d 0 cs = none := by
  have named (count : Nat) (cs : List Char) :
      hyphenName? escapes count cs = none ↔ hyphenName? 0 count cs = none := by
    unfold hyphenName?
    cases nameAt? cs <;> simp
  simp only [hyphenMarker?, Option.or_eq_none_iff, hyphensMarker?]
  apply and_congr
  · split
    · exact named 2 _
    · rfl
  · split
    · exact named 1 _
    · rfl

theorem hyphensMarker?_eq_some {enabled : Bool} {count escapes size : Nat} {cs : List Char}
    {kind : TokenKind} (h : hyphensMarker? enabled count escapes cs = some (kind, size)) :
    enabled = true ∧ ∃ name sign rest, IsIdentifier name ∧
      (sign = [] ∨ sign = ['='] ∨ sign = [':']) ∧
      cs = List.replicate count '-' ++ (name ++ sign) ++ rest ∧
      kind = .marker escapes (.hyphens count) (String.ofList name) ∧
      size = escapes + (List.replicate count '-' ++ (name ++ sign)).length := by
  unfold hyphensMarker? at h
  split at h
  · rename_i opens
    obtain ⟨on, front⟩ : enabled = true ∧ (List.replicate count '-').isPrefixOf cs = true := by
      simpa using opens
    obtain ⟨body, rfl⟩ := List.isPrefixOf_iff_prefix.1 front
    rw [List.drop_left' (by simp)] at h
    obtain ⟨name, sign, rest, rfl, valid, hsign, rfl, rfl⟩ := hyphenName?_eq_some h
    refine ⟨on, name, sign, rest, valid, hsign, by simp, rfl, ?_⟩
    simp
    omega
  · simp at h

theorem hyphenMarker?_eq_some {d : Delimiters} {escapes size : Nat} {cs : List Char}
    {kind : TokenKind} (h : hyphenMarker? d escapes cs = some (kind, size)) :
    ∃ text rest, cs = text ++ rest ∧ escapes + text.length = size ∧
      TokenFront d kind (backslashes escapes ++ text) rest := by
  rcases Option.or_eq_some_iff.1 h with double | ⟨-, single⟩
  · obtain ⟨on, name, sign, rest, valid, hsign, split, rfl, rfl⟩ :=
      hyphensMarker?_eq_some double
    have enabled : d.hasHyphen = true := by simp [Delimiters.hasHyphen, on]
    exact ⟨_, rest, split, rfl, .hyphens (.inr rfl) enabled valid hsign⟩
  · obtain ⟨on, name, sign, rest, valid, hsign, split, rfl, rfl⟩ :=
      hyphensMarker?_eq_some single
    have enabled : d.hasHyphen = true := by simp [Delimiters.hasHyphen, on]
    exact ⟨_, rest, split, rfl, .hyphens (.inl rfl) enabled valid hsign⟩

theorem colonMarker?_eq_some {escapes size : Nat} {cs : List Char} {kind : TokenKind}
    (h : colonMarker? escapes cs = some (kind, size)) :
    ∃ name rest, cs = name ++ ':' :: rest ∧ name ≠ [] ∧ (∀ c ∈ name, isNamePart c = true) ∧
      kind = .marker escapes .colon (String.ofList name) ∧ size = escapes + name.length + 1 := by
  obtain ⟨rest, split, drop, -⟩ := exists_span isNamePart cs
  unfold colonMarker? at h
  simp only [drop] at h
  split at h
  · simp at h
  · rename_i filled
    split at h
    · rename_i colon
      obtain ⟨rest', rfl⟩ : ∃ rest', rest = ':' :: rest' := by
        cases rest with
        | nil => simp at colon
        | cons c rest => exact ⟨rest, by simpa using colon⟩
      simp only [Option.some.injEq, Prod.mk.injEq] at h
      refine ⟨_, rest', split, ?_, ?_, h.1.symm, h.2.symm⟩
      · simpa [List.isEmpty_iff] using filled
      · intro c hc
        exact List.all_eq_true.1 List.all_takeWhile c hc
    · simp at h

/-- A marker is one of the grammar, unless it is the scheme of a web address. -/
theorem marker?_eq_some {d : Delimiters} {colons : Bool} {size : Nat} {cs : List Char}
    {kind : TokenKind} (h : marker? d colons cs = some (kind, size)) :
    ∃ text rest, cs = text ++ rest ∧ text.length = size ∧
      (TokenFront d kind text rest ∨
        colons = true ∧ isAddressRest rest = true ∧
          ∃ escapes name, kind = .marker escapes .colon name) := by
  obtain ⟨rest, split, drop, -⟩ := exists_run '\\' cs
  unfold marker? at h
  generalize (cs.takeWhile (· == '\\')).length = escapes at split drop h
  simp only [drop] at h
  split at h
  · rename_i found hyphens
    cases h
    obtain ⟨text, rest', rfl, size, front⟩ := hyphenMarker?_eq_some hyphens
    refine ⟨backslashes escapes ++ text, rest', ?_, by simpa using size, .inl front⟩
    rw [split, List.append_assoc]
    rfl
  · split at h
    · rename_i enabled
      obtain ⟨hcolons, hcolon⟩ : colons = true ∧ d.hasColon = true := by simpa using enabled
      obtain ⟨name, rest', rfl, filled, parts, rfl, rfl⟩ := colonMarker?_eq_some h
      refine ⟨backslashes escapes ++ (name ++ [':']), rest', ?_, ?_, ?_⟩
      · simp [split, backslashes]
      · simp
        omega
      · cases address : isAddressRest rest' with
        | false => exact .inl (.colon hcolon filled parts address)
        | true => exact .inr ⟨hcolons, rfl, escapes, _, rfl⟩
    · simp at h

theorem hyphenMarker?_eq_none_of_marker? {d : Delimiters} {colons : Bool} {cs rest : List Char}
    {count : Nat} (split : cs = List.replicate count '\\' ++ rest)
    (head : rest.head? ≠ some '\\') (h : marker? d colons cs = none) :
    hyphenMarker? d 0 rest = none := by
  have run : cs.takeWhile (· == '\\') = List.replicate count '\\' := by
    rw [split]
    apply takeWhile_append_stop
    · intro c hc
      simp [List.eq_of_mem_replicate hc]
    · intro c hc
      have different : c ≠ '\\' := by
        rintro rfl
        exact head hc
      simpa using different
  unfold marker? at h
  simp only [run, List.length_replicate] at h
  rw [split, List.drop_left' (by simp)] at h
  cases found : hyphenMarker? d count rest with
  | some found' => simp [found] at h
  | none => exact (hyphenMarker?_eq_none_iff d count rest).1 found

/-! ## Tokens -/

/-- Which kind of token is chosen at the front of a text, and why. -/
inductive Chosen (d : Delimiters) (colons : Bool) : List Char → Option Match → Prop
  | marker {cs : List Char} {found : Match} :
      marker? d colons cs = some found → Chosen d colons cs (some found)
  | delimiter {c : Char} {cs : List Char} :
      isDelimiterChar d c = true → Chosen d colons (c :: cs) (some (.delimiter c, 1))
  | word {c : Char} {cs : List Char} :
      isWordChar d c = true →
      Chosen d colons (c :: cs) (some (.word, ((c :: cs).takeWhile (isWordChar d)).length))
  | backslashes {cs : List Char} :
      marker? d colons ('\\' :: cs) = none → d.isActive = true →
      Chosen d colons ('\\' :: cs)
        (some (.backslashes (('\\' :: cs).takeWhile (· == '\\')).length,
          (('\\' :: cs).takeWhile (· == '\\')).length))
  | lineFeeds {cs : List Char} :
      Chosen d colons ('\n' :: cs)
        (some (.lineFeeds, (('\n' :: cs).takeWhile (· == '\n')).length))
  | gap {c : Char} {cs : List Char} :
      isGap c = true → c ≠ '\n' → Chosen d colons (c :: cs) none
  | finish : Chosen d colons [] none

theorem matchAt?_chosen (d : Delimiters) (colons : Bool) (cs : List Char) :
    Chosen d colons cs (matchAt? d colons cs) := by
  unfold matchAt?
  cases noMarker : marker? d colons cs with
  | some found => exact .marker noMarker
  | none =>
      cases cs with
      | nil => exact .finish
      | cons c cs =>
          simp only
          by_cases delimiter : isDelimiterChar d c = true
          · rw [if_pos delimiter]
            exact .delimiter delimiter
          rw [if_neg delimiter]
          by_cases word : isWordChar d c = true
          · rw [if_pos word]
            exact .word word
          rw [if_neg word]
          by_cases backslash : c = '\\'
          · subst backslash
            -- A backslash is a word character unless something can be escaped.
            have shown : isGap '\\' = false := by decide
            have active : d.isActive = true := by simpa [isWordChar, shown] using word
            exact .backslashes noMarker active
          rw [if_neg (by simpa using backslash)]
          by_cases lineFeed : c = '\n'
          · subst lineFeed
            exact .lineFeeds
          rw [if_neg (by simpa using lineFeed)]
          have notQuote : d.isQuoteChar c = false := by
            simp only [isDelimiterChar, Bool.or_eq_true, not_or] at delimiter
            simpa using delimiter.1.1
          have notBackslash : (c == '\\') = false := by simpa using backslash
          have gap : isGap c = true := by simpa [isWordChar, notQuote, notBackslash] using word
          exact .gap gap lineFeed

/-- A token is one of the grammar, unless it is a colon marker that looks like the scheme of
a web address. -/
theorem matchAt?_eq_some {d : Delimiters} {colons : Bool} {size : Nat} {cs : List Char}
    {kind : TokenKind} (h : matchAt? d colons cs = some (kind, size)) :
    ∃ text rest, cs = text ++ rest ∧ text.length = size ∧
      (TokenFront d kind text rest ∨
        colons = true ∧ isAddressRest rest = true ∧
          ∃ escapes name, kind = .marker escapes .colon name) := by
  have chosen := matchAt?_chosen d colons cs
  rw [h] at chosen
  cases chosen with
  | marker found => exact marker?_eq_some found
  | @delimiter c cs delimiter => exact ⟨[c], cs, rfl, rfl, .inl (.delimiter delimiter)⟩
  | @word c cs word =>
      obtain ⟨rest, split, -, stop⟩ := exists_span (isWordChar d) (c :: cs)
      refine ⟨_, rest, split, rfl, .inl (.word ?_ ?_ stop)⟩
      · simp [word]
      · intro x hx
        exact List.all_eq_true.1 List.all_takeWhile x hx
  | @backslashes cs noMarker active =>
      obtain ⟨rest, split, -, stop⟩ := exists_run '\\' ('\\' :: cs)
      have none := hyphenMarker?_eq_none_of_marker? split stop noMarker
      exact ⟨_, rest, split, by simp, .inl (.backslashes (by simp) active stop none)⟩
  | @lineFeeds cs =>
      obtain ⟨rest, split, -, stop⟩ := exists_run '\n' ('\n' :: cs)
      exact ⟨_, rest, split, by simp, .inl (.lineFeeds (by simp) stop)⟩

theorem tokenAt?_front {d : Delimiters} {cs : List Char} {kind : TokenKind} {size : Nat}
    (h : tokenAt? d cs = some (kind, size)) :
    ∃ text rest, cs = text ++ rest ∧ text.length = size ∧ TokenFront d kind text rest := by
  unfold tokenAt? at h
  split at h
  · rename_i escapes name size' found
    obtain ⟨text, rest, rfl, rfl, front⟩ := matchAt?_eq_some found
    rw [List.drop_left] at h
    cases address : isAddressRest rest with
    | true =>
        simp only [address, if_true] at h
        obtain ⟨text', rest', split, size, front'⟩ := matchAt?_eq_some h
        refine ⟨text', rest', split, size, ?_⟩
        simpa using front'
    | false =>
        simp only [address, Bool.false_eq_true, if_false, Option.some.injEq,
          Prod.mk.injEq] at h
        obtain ⟨rfl, rfl⟩ := h
        refine ⟨text, rest, rfl, rfl, ?_⟩
        simpa [address] using front
  · rename_i notColon
    obtain ⟨text, rest, rfl, rfl, front⟩ := matchAt?_eq_some h
    refine ⟨text, rest, rfl, rfl, ?_⟩
    rcases front with front | ⟨-, -, escapes, name, rfl⟩
    · exact front
    · exact absurd h (notColon escapes name _)

theorem matchAt?_eq_none {d : Delimiters} {colons : Bool} {c : Char} {cs : List Char}
    (h : matchAt? d colons (c :: cs) = none) : isGap c = true ∧ c ≠ '\n' := by
  have chosen := matchAt?_chosen d colons (c :: cs)
  rw [h] at chosen
  cases chosen with
  | gap gap notLineFeed => exact ⟨gap, notLineFeed⟩

/-- The tokenizer passes over characters that are not visible, and only over them. -/
theorem tokenAt?_eq_none {d : Delimiters} {c : Char} {cs : List Char}
    (h : tokenAt? d (c :: cs) = none) : isGap c = true ∧ c ≠ '\n' := by
  unfold tokenAt? at h
  split at h
  · split at h
    · exact matchAt?_eq_none h
    · simp at h
  · exact matchAt?_eq_none h

/-! ## Markers without backslashes -/

theorem marker?_of_matchAt? {d : Delimiters} {colons : Bool} {cs : List Char} {escapes : Nat}
    {opening : Opening} {name : String} {size : Nat}
    (h : matchAt? d colons cs = some (.marker escapes opening name, size)) :
    marker? d colons cs = some (.marker escapes opening name, size) := by
  have chosen := matchAt?_chosen d colons cs
  rw [h] at chosen
  cases chosen with
  | marker found => exact found

/-- What `marker?` takes for a marker with hyphens is one, also without the backslashes. -/
theorem hyphenMarker?_of_marker? {d : Delimiters} {colons : Bool} {cs : List Char}
    {escapes count : Nat} {name : String} {size : Nat}
    (h : marker? d colons cs = some (.marker escapes (.hyphens count) name, size))
    (head : cs.head? ≠ some '\\') : hyphenMarker? d 0 cs ≠ none := by
  have noEscapes : cs.takeWhile (· == '\\') = [] := by
    cases cs with
    | nil => rfl
    | cons c cs =>
        have different : ¬ c = '\\' := by
          rintro rfl
          exact head rfl
        simp [different]
  unfold marker? at h
  simp only [noEscapes, List.length_nil, List.drop_zero] at h
  intro none
  rw [none] at h
  simp only at h
  split at h
  · obtain ⟨_, _, _, _, _, kind, _⟩ := colonMarker?_eq_some h
    cases kind
  · simp at h

theorem hyphenMarker?_of_tokenAt? {d : Delimiters} {cs : List Char} {escapes count : Nat}
    {name : String} {size : Nat}
    (h : tokenAt? d cs = some (.marker escapes (.hyphens count) name, size))
    (head : cs.head? ≠ some '\\') : hyphenMarker? d 0 cs ≠ none := by
  unfold tokenAt? at h
  split at h
  · split at h
    · exact hyphenMarker?_of_marker? (marker?_of_matchAt? h) head
    · simp at h
  · exact hyphenMarker?_of_marker? (marker?_of_matchAt? h) head

end ChatArgs.Parse
