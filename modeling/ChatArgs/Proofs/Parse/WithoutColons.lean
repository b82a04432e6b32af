import ChatArgs.Proofs.Parse.SingleWord

/-!
# Two cuts of a text

A text is cut into other tokens where no marker is written with a colon. The cuts differ in words:
a colon is a character of a word then, and so is all that follows it up to the next gap, quote or
backslash. So the markers with hyphens of the one cut are those of the other that do not stand
inside a word.
-/

namespace ChatArgs

open Text

namespace Delimiters

def withoutColons (d : Delimiters) : Delimiters :=
  { d with markers := d.markers.filter (· != .colon) }

variable (d : Delimiters)

@[simp] theorem withoutColons_hasSingleHyphen :
    d.withoutColons.hasSingleHyphen = d.hasSingleHyphen := by
  simp [hasSingleHyphen, withoutColons]

@[simp] theorem withoutColons_hasDoubleHyphen :
    d.withoutColons.hasDoubleHyphen = d.hasDoubleHyphen := by
  simp [hasDoubleHyphen, withoutColons]

@[simp] theorem withoutColons_hasHyphen : d.withoutColons.hasHyphen = d.hasHyphen := by
  simp [hasHyphen]

@[simp] theorem withoutColons_hasColon : d.withoutColons.hasColon = false := by
  simp [hasColon, withoutColons]

@[simp] theorem withoutColons_isQuoteChar (c : Char) :
    d.withoutColons.isQuoteChar c = d.isQuoteChar c := rfl

variable {d}

theorem isActive_of_hasHyphen (hyphens : d.hasHyphen = true) : d.isActive = true := by
  simp [isActive, hasMarkers, hyphens]

theorem withoutColons_isActive (hyphens : d.hasHyphen = true) :
    d.withoutColons.isActive = d.isActive := by
  rw [isActive_of_hasHyphen hyphens, isActive_of_hasHyphen (by simpa using hyphens)]

end Delimiters

namespace Parse

variable {d : Delimiters}

/-! ## One token -/

theorem hyphenMarker?_withoutColons (d : Delimiters) (escapes : Nat) (cs : List Char) :
    hyphenMarker? d.withoutColons escapes cs = hyphenMarker? d escapes cs := by
  simp [hyphenMarker?]

theorem marker?_withoutColons (d : Delimiters) (colons : Bool) (cs : List Char) :
    marker? d.withoutColons colons cs = marker? d false cs := by
  simp [marker?, hyphenMarker?_withoutColons]

theorem isDelimiterChar_withoutColons {c : Char} (noColon : c ≠ ':') :
    isDelimiterChar d.withoutColons c = isDelimiterChar d c := by
  simp [isDelimiterChar, noColon]

theorem isWordChar_withoutColons (hyphens : d.hasHyphen = true) :
    isWordChar d.withoutColons = isWordChar d := by
  funext c
  simp [isWordChar, Delimiters.withoutColons_isActive hyphens]

theorem marker?_colons (d : Delimiters) (cs : List Char) :
    marker? d true cs = marker? d false cs ∨
      marker? d false cs = none ∧
        ∃ escapes name size, marker? d true cs = some (.marker escapes .colon name, size) := by
  unfold marker?
  extract_lets escapes rest
  cases hyphenMarker? d escapes rest with
  | some found => exact .inl rfl
  | none =>
      cases found : (if (true && d.hasColon) = true then colonMarker? escapes rest else none) with
      | none => exact .inl rfl
      | some marker =>
          split at found
          · obtain ⟨kind, size⟩ := marker
            obtain ⟨name, _, _, _, _, rfl, _⟩ := colonMarker?_eq_some found
            exact .inr ⟨rfl, _, _, _, rfl⟩
          · contradiction

/-- Where no colon stands at the front, a token without colons is no marker with a colon. -/
theorem tokenAt?_withoutColons (hyphens : d.hasHyphen = true) {cs : List Char}
    (noColon : cs.head? ≠ some ':') : tokenAt? d.withoutColons cs = matchAt? d false cs := by
  have same (colons : Bool) : matchAt? d.withoutColons colons cs = matchAt? d false cs := by
    unfold matchAt?
    rw [marker?_withoutColons, isWordChar_withoutColons hyphens]
    cases cs with
    | nil => rfl
    | cons c cs =>
        have other : c ≠ ':' := by simpa using noColon
        simp only [isDelimiterChar_withoutColons other]
  unfold tokenAt?
  split
  · rename_i found
    split
    · exact same false
    · rw [← found, same]
  · exact same true

/-- The two cuts read the same token, unless a colon stands at the front or a marker with a colon
is read there. -/
theorem tokenAt?_eq_or (hyphens : d.hasHyphen = true) {cs : List Char}
    (noColon : cs.head? ≠ some ':') :
    tokenAt? d cs = tokenAt? d.withoutColons cs ∨
      marker? d false cs = none ∧
        ∃ escapes name size, tokenAt? d cs = some (.marker escapes .colon name, size) := by
  rw [tokenAt?_withoutColons hyphens noColon]
  rcases marker?_colons d cs with same | ⟨none, escapes, name, size, found⟩
  · have matched : matchAt? d true cs = matchAt? d false cs := by
      simp only [matchAt?, same]
    left
    unfold tokenAt?
    split
    · rename_i found
      split
      · rfl
      · rw [← found, matched]
    · exact matched
  · have matched : matchAt? d true cs = some (.marker escapes .colon name, size) := by
      simp only [matchAt?, found]
    unfold tokenAt?
    rw [matched]
    dsimp only
    split
    · exact .inl rfl
    · exact .inr ⟨none, escapes, name, size, rfl⟩

/-! ## The tokens of a word -/

theorem le_start_of_mem_tokensAt {t : Token} {c : Cursor} (member : t ∈ tokensAt d c) :
    c.offset ≤ t.start.offset := by
  induction c using tokensAt_induction d with
  | finish c ends => simp [tokensAt_end ends] at member
  | skip c x rest split _ none ih =>
      rw [tokensAt_skip split none] at member
      exact (by simp : c.offset ≤ (c.past [x] rest).offset).trans (ih member)
  | token c kind text rest split _ found ih =>
      rw [tokensAt_token split found] at member
      rcases List.mem_cons.1 member with rfl | later
      · exact Nat.le_refl _
      · exact (by simp : c.offset ≤ (c.past text rest).offset).trans (ih later)

theorem isWordChar_of_sign (d : Delimiters) {c : Char} (sign : c = '-' ∨ c = '=' ∨ c = ':') :
    isWordChar d c = true := by
  have noQuote : d.isQuoteChar c = false := by
    by_contra quote
    rw [Bool.not_eq_false] at quote
    obtain ⟨q, -, same⟩ := exists_quote_of_isQuoteChar quote
    rcases sign with rfl | rfl | rfl <;> cases q <;> exact absurd same (by decide)
  rcases sign with rfl | rfl | rfl
  · simp [isWordChar, noQuote, show isGap '-' = false by decide]
  · simp [isWordChar, noQuote, show isGap '=' = false by decide]
  · simp [isWordChar, noQuote, show isGap ':' = false by decide]

theorem wordChars_of_backslashes (active : d.isActive = true) {escapes : Nat} {x : Char}
    {body : List Char} (head : (backslashes escapes ++ body).head? = some x)
    (word : isWordChar d x = true) (inside : ∀ c ∈ body, isWordChar d c = true) :
    ∀ c ∈ backslashes escapes ++ body, isWordChar d c = true := by
  cases escapes with
  | zero => exact inside
  | succ escapes =>
      obtain rfl : '\\' = x := by simpa [backslashes, List.replicate_succ] using head
      simp [isWordChar, active] at word

/-- A token that starts with a character of words has no other characters. -/
theorem TokenFront.wordChars {kind : TokenKind} {text rest : List Char}
    (front : TokenFront d kind text rest) (active : d.isActive = true) {x : Char}
    (head : text.head? = some x) (word : isWordChar d x = true) :
    ∀ c ∈ text, isWordChar d c = true := by
  have hyphens (count : Nat) : ∀ c ∈ List.replicate count '-', isWordChar d c = true := by
    intro c inside
    exact isWordChar_of_sign d (.inl (List.eq_of_mem_replicate inside))
  cases front with
  | @hyphens escapes count name sign _ _ _ valid hsign =>
      apply wordChars_of_backslashes active head word
      simp only [List.forall_mem_append]
      refine ⟨hyphens count, fun c inside => isWordChar_of_isNamePart d (valid.2 c inside), ?_⟩
      rcases hsign with rfl | rfl | rfl
      · simp
      · simpa using isWordChar_of_sign d (.inr (.inl rfl))
      · simpa using isWordChar_of_sign d (.inr (.inr rfl))
  | colon _ _ parts _ =>
      apply wordChars_of_backslashes active head word
      simp only [List.forall_mem_append]
      exact ⟨fun c inside => isWordChar_of_isNamePart d (parts c inside),
        by simpa using isWordChar_of_sign d (.inr (.inr rfl))⟩
  | delimiter _ =>
      obtain rfl := Option.some.inj head
      simpa using word
  | word _ inside _ => exact inside
  | @backslashes count _ positive _ _ _ =>
      obtain ⟨count, rfl⟩ := Nat.exists_eq_add_of_lt positive
      obtain rfl : '\\' = x := by simpa [Parse.backslashes, List.replicate_succ] using head
      simp [isWordChar, active] at word
  | @lineFeeds count _ positive _ =>
      obtain ⟨count, rfl⟩ := Nat.exists_eq_add_of_lt positive
      obtain rfl : '\n' = x := by simpa [List.replicate_succ] using head
      simp [isWordChar, show isGap '\n' = true by decide] at word

/-- A front of such characters ends where the run of them does, or before. -/
theorem exists_behind_front {p : Char → Bool} {run rest front back : List Char}
    (split : run ++ rest = front ++ back) (inside : ∀ x ∈ front, p x = true)
    (stop : ∀ x ∈ rest.head?, p x = false) :
    ∃ run', run = front ++ run' ∧ back = run' ++ rest := by
  rcases List.append_eq_append_iff.1 split with ⟨more, eq, rest_eq⟩ | ⟨more, eq, rest_eq⟩
  · cases more with
    | nil => exact ⟨[], by simpa using eq.symm, by simpa using rest_eq.symm⟩
    | cons y more =>
        have member : y ∈ front := by simp [eq]
        have ends := stop y (by simp [rest_eq])
        rw [inside y member] at ends
        contradiction
  · exact ⟨more, eq, rest_eq⟩

/-- Whatever tokens a text is cut into, those that start in a run of characters of words end in
it. -/
theorem tokensAt_wordChars (active : d.isActive = true) {c : Cursor} {word rest : List Char}
    (split : c.rest = word ++ rest) (inside : ∀ x ∈ word, isWordChar d x = true)
    (stop : ∀ x ∈ rest.head?, isWordChar d x = false) :
    ∃ inner, tokensAt d c = inner ++ tokensAt d (c.past word rest) ∧
      ∀ t ∈ inner, c.offset ≤ t.start.offset ∧ t.start.offset < c.offset + byteLength word := by
  induction length : word.length using Nat.strong_induction_on generalizing c word with
  | _ size ih =>
      subst length
      cases word with
      | nil =>
          have here : c.past [] rest = c := Cursor.past_nil_of_rest split
          exact ⟨[], by rw [here]; rfl, by simp⟩
      | cons x xs =>
          have isWord := inside x List.mem_cons_self
          have visible : isGap x = false := by
            simp only [isWordChar, Bool.and_eq_true, Bool.not_eq_true'] at isWord
            exact isWord.1.1
          rcases tokenAt?_cases d x (xs ++ rest) with
            ⟨-, gap⟩ | ⟨kind, text, rest', split', front, found⟩
          · simp [visible] at gap
          rw [← List.cons_append, ← split] at split' found
          have head : text.head? = some x := by
            obtain ⟨y, ys, rfl⟩ := List.exists_cons_of_ne_nil front.ne_nil
            rw [split, List.cons_append, List.cons_append] at split'
            rw [(List.cons.inj split').1]
            rfl
          have chars := front.wordChars active head isWord
          obtain ⟨word', whole, rfl⟩ := exists_behind_front (split.symm.trans split') chars stop
          have positive := List.length_pos_iff.2 front.ne_nil
          have bytes := byteLength_pos front.ne_nil
          have shorter : word'.length < (x :: xs).length := by
            rw [whole, List.length_append]
            omega
          obtain ⟨inner, cut, places⟩ := ih _ shorter (c := c.past text (word' ++ rest)) rfl
            (fun y member => inside y (whole ▸ List.mem_append_right text member)) rfl
          refine ⟨Token.reading kind c text (word' ++ rest) :: inner, ?_, ?_⟩
          · rw [tokensAt_token split' found, cut, Cursor.past_past, ← whole]
            rfl
          · have total : byteLength (x :: xs) = byteLength text + byteLength word' := by
              rw [whole, byteLength_append]
            rw [List.forall_mem_cons]
            refine ⟨⟨Nat.le_refl _, ?_⟩, fun t member => ?_⟩
            · simp only [Token.reading]
              omega
            · have place := places t member
              rw [Cursor.past_offset] at place
              omega

/-! ## All tokens -/

def Token.InWord (ts : List Token) (t : Token) : Prop :=
  ∃ w ∈ ts, w.kind = .word ∧ w.start.offset ≤ t.start.offset ∧ t.start.offset < w.stop.offset

instance (ts : List Token) (t : Token) : Decidable (t.InWord ts) :=
  inferInstanceAs (Decidable (∃ w ∈ ts, _ ∧ _ ∧ _))

theorem Token.inWord_cons {w t : Token} {ts : List Token} :
    t.InWord (w :: ts) ↔
      (w.kind = .word ∧ w.start.offset ≤ t.start.offset ∧ t.start.offset < w.stop.offset) ∨
        t.InWord ts := by
  simp only [Token.InWord, List.exists_mem_cons_iff]

theorem Token.not_inWord_of_lt {t : Token} {c : Cursor} (front : t.start.offset < c.offset) :
    ¬ t.InWord (tokensAt d c) := by
  rintro ⟨w, member, -, start, -⟩
  have later := le_start_of_mem_tokensAt member
  omega

theorem TokenFront.eq_word {kind : TokenKind} {text rest : List Char}
    (front : TokenFront d.withoutColons kind text rest) (active : d.isActive = true) {x : Char}
    (head : text.head? = some x) (word : isWordChar d x = true) (noHyphen : x ≠ '-') :
    kind = .word := by
  have noBackslash : x ≠ '\\' := by
    rintro rfl
    simp [isWordChar, active] at word
  cases front with
  | @hyphens escapes count _ _ _ hcount _ _ _ =>
      cases escapes with
      | zero =>
          rcases hcount with rfl | rfl
          · exact absurd (by simpa [Parse.backslashes] using head.symm) noHyphen
          · exact absurd (by simpa [Parse.backslashes] using head.symm) noHyphen
      | succ escapes =>
          exact absurd (by simpa [Parse.backslashes, List.replicate_succ] using head.symm)
            noBackslash
  | colon enabled _ _ _ => simp at enabled
  | @delimiter c _ isDelimiter =>
      obtain rfl := Option.some.inj head
      simp only [isDelimiterChar, Delimiters.withoutColons_hasColon, Bool.false_and, Bool.or_false,
        Bool.or_eq_true, Bool.and_eq_true, beq_iff_eq] at isDelimiter
      rcases isDelimiter with quote | ⟨-, hyphen⟩
      · rw [Delimiters.withoutColons_isQuoteChar] at quote
        simp [isWordChar, quote] at word
      · exact absurd hyphen noHyphen
  | word _ _ _ => rfl
  | @backslashes count _ positive _ _ _ =>
      obtain ⟨count, rfl⟩ := Nat.exists_eq_add_of_lt positive
      exact absurd (by simpa [Parse.backslashes, List.replicate_succ] using head.symm) noBackslash
  | @lineFeeds count _ positive _ =>
      obtain ⟨count, rfl⟩ := Nat.exists_eq_add_of_lt positive
      obtain rfl : '\n' = x := by simpa [List.replicate_succ] using head
      simp [isWordChar, show isGap '\n' = true by decide] at word

/-- Backslashes in front of a name and a colon are a token of their own without colons. -/
theorem tokenAt?_backslashes_withoutColons (hyphens : d.hasHyphen = true) {escapes : Nat}
    {cs rest : List Char} (positive : 0 < escapes) (split : cs = backslashes escapes ++ rest)
    (stop : rest.head? ≠ some '\\') (noMarker : marker? d false cs = none) :
    tokenAt? d.withoutColons cs = some (.backslashes escapes, escapes) := by
  obtain ⟨count, rfl⟩ := Nat.exists_eq_add_of_lt positive
  have run : cs.takeWhile (· == '\\') = backslashes (0 + count + 1) := by
    rw [split]
    refine takeWhile_append_stop (by simp [backslashes]) fun c head => ?_
    have other : c ≠ '\\' := by
      rintro rfl
      exact stop head
    simpa using other
  obtain ⟨more, rfl⟩ : ∃ more, cs = '\\' :: more := ⟨_, by rw [split, backslashes]; rfl⟩
  have chosen := matchAt?_chosen d false ('\\' :: more)
  rw [tokenAt?_withoutColons hyphens (by simp)]
  generalize matchAt? d false ('\\' :: more) = found at chosen
  cases chosen with
  | marker read => simp [noMarker] at read
  | delimiter isDelimiter => exact absurd rfl (ne_backslash_of_isDelimiterChar isDelimiter)
  | word isWord => simp [isWordChar, Delimiters.isActive_of_hasHyphen hyphens] at isWord
  | backslashes _ _ => rw [run, length_backslashes]
  | gap gap _ => exact absurd gap (by decide)

/-- The tokens of a kind that are read without colons are those that are read with colons and do not
stand inside a word then. -/
def ShowsSame (d : Delimiters) (p : Token → Bool) (c : Cursor) : Prop :=
  (tokensAt d.withoutColons c).filter p =
    (tokensAt d c).filter fun t => p t && !decide (t.InWord (tokensAt d.withoutColons c))

namespace ShowsSame

variable {p : Token → Bool} {c c' : Cursor}

theorem filter_inWord_cons {w : Token} (ended : w.kind ≠ .word ∨ w.stop.offset ≤ c.offset)
    (ts : List Token) :
    ((tokensAt d c).filter fun t => p t && !decide (t.InWord (w :: ts))) =
      (tokensAt d c).filter fun t => p t && !decide (t.InWord ts) := by
  apply List.filter_congr
  intro t member
  have later := le_start_of_mem_tokensAt member
  have outside : ¬ (w.kind = .word ∧ w.start.offset ≤ t.start.offset ∧
      t.start.offset < w.stop.offset) := by
    rintro ⟨kind, -, before⟩
    rcases ended with other | ended
    · exact other kind
    · omega
  simp only [Token.inWord_cons, outside, false_or]

theorem of_same {t : Token} (cut : tokensAt d c = t :: tokensAt d c')
    (cut' : tokensAt d.withoutColons c = t :: tokensAt d.withoutColons c')
    (front : t.start.offset < c'.offset) (noWord : t.kind ≠ .word)
    (later : ShowsSame d p c') : ShowsSame d p c := by
  have shown : ¬ t.InWord (t :: tokensAt d.withoutColons c') := by
    rw [Token.inWord_cons]
    rintro (⟨kind, -⟩ | inside)
    · exact noWord kind
    · exact Token.not_inWord_of_lt front inside
  rw [ShowsSame, cut, cut']
  cases marker : p t with
  | false =>
      rw [List.filter_cons_of_neg (by simp [marker]), List.filter_cons_of_neg (by simp [marker]),
        filter_inWord_cons (.inl noWord)]
      exact later
  | true =>
      rw [List.filter_cons_of_pos marker, List.filter_cons_of_pos (by simp [marker, shown]),
        filter_inWord_cons (.inl noWord)]
      exact congrArg (t :: ·) later

/-- A token without colons that is none of the kind, where the tokens with colons stand inside it
or are none of the kind either. -/
theorem of_other {w : Token} {inner inner' ts : List Token}
    (cut : tokensAt d.withoutColons c = w :: tokensAt d.withoutColons c')
    (other : p w = false) (ended : w.kind ≠ .word ∨ w.stop.offset ≤ c'.offset)
    (front : tokensAt d c = inner ++ ts) (front' : tokensAt d c' = inner' ++ ts)
    (inside : ∀ t ∈ inner, p t = true → t.InWord (w :: tokensAt d.withoutColons c'))
    (others : ∀ t ∈ inner', p t = false) (later : ShowsSame d p c') : ShowsSame d p c := by
  rw [ShowsSame, ← filter_inWord_cons ended, front', List.filter_append] at later
  rw [ShowsSame, cut, front, List.filter_append, List.filter_cons_of_neg (by simp [other]), later]
  congr 1
  rw [List.filter_eq_nil_iff.2, List.filter_eq_nil_iff.2]
  · intro t member
    by_cases marker : p t = true
    · simp [inside t member marker]
    · simp [marker]
  · intro t member
    simp [others t member]

section

variable (hyphens : d.hasHyphen = true) (markers : ∀ t, p t = true →
  ∃ escapes count name, t.kind = .marker escapes (.hyphens count) name)
include markers

theorem of_kind {t : Token} (other : ∀ escapes count name,
    t.kind ≠ .marker escapes (.hyphens count) name) : p t = false := by
  rw [Bool.eq_false_iff]
  intro marker
  obtain ⟨_, _, _, kind⟩ := markers t marker
  exact other _ _ _ kind

include hyphens

variable {kind : TokenKind} {text rest : List Char} (split : c.rest = text ++ rest)
  (front : TokenFront d.withoutColons kind text rest)
  (found : tokenAt? d.withoutColons c.rest = some (kind, text.length))
  (later : ShowsSame d p (c.past text rest))
include split front found later

/-- A word without colons covers all tokens that start in it otherwise. -/
theorem of_word (word : kind = .word) : ShowsSame d p c := by
  subst word
  obtain ⟨inside, stop⟩ : (∀ x ∈ text, isWordChar d x = true) ∧
      ∀ x ∈ rest.head?, isWordChar d x = false := by
    rw [← isWordChar_withoutColons hyphens]
    cases front with
    | word _ inside stop => exact ⟨inside, stop⟩
  obtain ⟨inner, cut, places⟩ :=
    tokensAt_wordChars (Delimiters.isActive_of_hasHyphen hyphens) split inside stop
  exact of_other (tokensAt_token split found) (of_kind markers (by simp [Token.reading]))
    (.inr (Nat.le_refl _)) cut (List.nil_append _).symm
    (fun t member _ => Token.inWord_cons.2 (.inl ⟨rfl, places t member⟩)) (by simp) later

/-- A name with a colon is a word without colons, and the backslashes in front of it are a token of
their own. -/
theorem of_colonMarker {escapes : Nat} {name behind : List Char} (enabled : d.hasColon = true)
    (filled : name ≠ []) (parts : ∀ x ∈ name, isNamePart x = true)
    (noAddress : isAddressRest behind = false) (noMarker : marker? d false c.rest = none)
    (split' : c.rest = backslashes escapes ++ (name ++ [':']) ++ behind)
    (found' : tokenAt? d c.rest = some (.marker escapes .colon (String.ofList name),
      (backslashes escapes ++ (name ++ [':'])).length)) : ShowsSame d p c := by
  obtain ⟨x, name, rfl⟩ := List.exists_cons_of_ne_nil filled
  have part := parts x List.mem_cons_self
  have whole : c.rest = backslashes escapes ++ (x :: name ++ ':' :: behind) := by
    rw [split']
    simp
  rcases Nat.eq_zero_or_pos escapes with rfl | positive
  · have head : text.head? = some x := by
      obtain ⟨y, text, rfl⟩ := List.exists_cons_of_ne_nil front.ne_nil
      exact congrArg some (List.cons.inj (split.symm.trans whole)).1
    have noHyphen : x ≠ '-' := by
      rintro rfl
      exact absurd part (by decide)
    exact of_word hyphens markers split front found later
      (front.eq_word (Delimiters.isActive_of_hasHyphen hyphens) head
        (isWordChar_of_isNamePart d part) noHyphen)
  · have stop : (x :: name ++ ':' :: behind).head? ≠ some '\\' := by
      simpa using ne_backslash_of_isNamePart part
    obtain ⟨rfl, length⟩ := Prod.mk.inj (Option.some.inj
      (found.symm.trans (tokenAt?_backslashes_withoutColons hyphens positive whole stop noMarker)))
    obtain ⟨rfl, rfl⟩ := List.append_inj (split.symm.trans whole)
      (by rw [length, length_backslashes])
    let c' := c.past (backslashes escapes) (x :: name ++ ':' :: behind)
    have again : tokensAt d c' =
        Token.reading (.marker 0 .colon (String.ofList (x :: name))) c' (x :: name ++ [':'])
            behind ::
          tokensAt d (c.past (backslashes escapes ++ (x :: name ++ [':'])) behind) := by
      rw [← Cursor.past_past, ← tokensAt_token]
      · simp [c']
      · simpa [c'] using tokenAt?_colonMarker enabled filled parts noAddress
    refine @of_other d p c c' _ [_] [_] _ (tokensAt_token split found)
      (of_kind markers (by simp [Token.reading])) (.inl (by simp [Token.reading]))
      (tokensAt_token split' found') again ?_ ?_ later
    · intro t member marker
      rw [List.mem_singleton.1 member, of_kind markers (by simp [Token.reading])] at marker
      contradiction
    · intro t member
      rw [List.mem_singleton.1 member]
      exact of_kind markers (by simp [Token.reading])

end

end ShowsSame

/-- The markers with hyphens that are read without colons are those that are read with colons and do
not stand inside a word then. -/
theorem showsSame_tokensAt (hyphens : d.hasHyphen = true) {p : Token → Bool}
    (markers : ∀ t, p t = true →
      ∃ escapes count name, t.kind = .marker escapes (.hyphens count) name)
    (c : Cursor) : ShowsSame d p c := by
  induction c using tokensAt_induction d.withoutColons with
  | finish c ends => simp [ShowsSame, tokensAt_end ends]
  | skip c x rest split gap noToken ih =>
      have noToken' : tokenAt? d c.rest = none := by
        rw [split] at noToken ⊢
        rcases tokenAt?_cases d x rest with ⟨none, -⟩ | ⟨kind, text, rest', split', front, -⟩
        · exact none
        · obtain ⟨y, ys, rfl⟩ := List.exists_cons_of_ne_nil front.ne_nil
          obtain rfl := (List.cons.inj split').1
          have feeds := front.kind_of_gap List.mem_cons_self gap
          subst feeds
          exact absurd (front.lineFeed_of_mem List.mem_cons_self) (tokenAt?_eq_none noToken).2
      rw [ShowsSame, tokensAt_skip split noToken, tokensAt_skip split noToken']
      exact ih
  | token c kind text rest split front found ih =>
      have inWord := ShowsSame.of_word hyphens markers split front found ih
      by_cases word : kind = .word
      · exact inWord word
      obtain ⟨x, text, rfl⟩ := List.exists_cons_of_ne_nil front.ne_nil
      have noColon : c.rest.head? ≠ some ':' := by
        rw [split]
        rintro ⟨⟩
        exact word (front.eq_word (Delimiters.isActive_of_hasHyphen hyphens) rfl
          (isWordChar_of_sign d (.inr (.inr rfl))) (by decide))
      rcases tokenAt?_eq_or hyphens noColon with same | ⟨noMarker, escapes, name, size, found'⟩
      · have bytes := byteLength_pos front.ne_nil
        refine .of_same (tokensAt_token split (same.trans found)) (tokensAt_token split found) ?_
          word ih
        simp only [Token.reading, Cursor.past_offset]
        omega
      · obtain ⟨marked, behind, split', rfl, front'⟩ := tokenAt?_front found'
        cases front' with
        | colon enabled filled parts noAddress =>
            exact .of_colonMarker hyphens markers split front found ih enabled filled parts
              noAddress noMarker split' found'

end Parse

end ChatArgs
