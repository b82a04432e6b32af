import ChatArgs.Proofs.Parse.WithoutColons
import ChatArgs.Proofs.Text.Boundaries

/-!
# Tokens cover the visible text

The tokens of a text stand in order and apart, and a character lies in one of them just if it is
visible or a line feed (`exists_holds_iff`): whatever delimiters are switched on, no text between
two tokens is lost. Whether a token starts at a place does not depend on colon markers
(`isSome_matchAt?_iff`), so that one is found there again when a marker is none because it looks
like the scheme of a web address.
-/

namespace ChatArgs.Parse

open Text

variable {d : Delimiters}

def IsTokenChar (c : Char) : Prop :=
  c = '\n' ∨ isGap c = false

/-! ## Where tokens start -/

theorem marker?_eq_none_of_gap (d : Delimiters) (colons : Bool) {cs : List Char}
    (hidden : ∀ c ∈ cs.head?, isGap c = true) : marker? d colons cs = none := by
  cases cs with
  | nil => simp [marker?, hyphenMarker?, hyphensMarker?, colonMarker?, List.replicate]
  | cons c cs =>
      have gap := hidden c rfl
      have noBackslash : (c == '\\') = false := by
        rw [beq_eq_false_iff_ne]
        rintro rfl
        exact absurd gap (by decide)
      have noHyphen : '-' ≠ c := by
        rintro rfl
        exact absurd gap (by decide)
      have noName : isNamePart c = false := by
        cases part : isNamePart c with
        | false => rfl
        | true => simp [isGap_of_isNamePart part] at gap
      simp [marker?, hyphenMarker?, hyphensMarker?, colonMarker?, List.replicate, noBackslash,
        noHyphen, noName]

theorem isTokenChar_of_front {kind : TokenKind} {text rest : List Char}
    (front : TokenFront d kind text rest) {x : Char} (member : x ∈ text) : IsTokenChar x := by
  by_cases lineFeeds : kind = .lineFeeds
  · subst lineFeeds
    exact .inl (front.lineFeed_of_mem member)
  · exact .inr (front.visible lineFeeds x member)

/-- Something is matched at each visible character and at each line feed, with colon markers and
without them. -/
theorem isSome_matchAt?_iff (d : Delimiters) (colons : Bool) (cs : List Char) :
    (matchAt? d colons cs).isSome = true ↔ ∃ c ∈ cs.head?, IsTokenChar c := by
  constructor
  · intro found
    have chosen := matchAt?_chosen d colons cs
    generalize matchAt? d colons cs = result at found chosen
    cases chosen with
    | marker marker =>
        refine Classical.byContradiction fun hidden => ?_
        have gap (c : Char) (head : c ∈ cs.head?) : isGap c = true := by
          cases gap : isGap c with
          | true => rfl
          | false => exact absurd ⟨c, head, .inr gap⟩ hidden
        simp [marker?_eq_none_of_gap d colons gap] at marker
    | @delimiter c cs isDelimiter => exact ⟨c, rfl, .inr (isGap_of_isDelimiterChar isDelimiter)⟩
    | @word c cs word =>
        simp only [isWordChar, Bool.and_eq_true, Bool.not_eq_true'] at word
        exact ⟨c, rfl, .inr word.1.1⟩
    | backslashes _ _ => exact ⟨_, rfl, .inr (by decide)⟩
    | lineFeeds => exact ⟨_, rfl, .inl rfl⟩
    | gap _ _ => simp at found
    | finish => simp at found
  · rintro ⟨c, head, shown⟩
    obtain ⟨cs, rfl⟩ := List.head?_eq_some_iff.1 head
    cases none : matchAt? d colons (c :: cs) with
    | some found => rfl
    | none =>
        obtain ⟨gap, noLineFeed⟩ := matchAt?_eq_none none
        rcases shown with lineFeed | visible
        · exact absurd lineFeed noLineFeed
        · simp [gap] at visible

/-- Where a colon marker is none, because an address stands behind it, another token starts at the
same place. -/
theorem exists_fallback {cs : List Char} {escapes size : Nat} {name : String}
    (marker : matchAt? d true cs = some (.marker escapes .colon name, size))
    (address : isAddressRest (cs.drop size) = true) :
    ∃ kind text rest, cs = text ++ rest ∧ TokenFront d kind text rest ∧
      tokenAt? d cs = some (kind, text.length) ∧
      matchAt? d false cs = some (kind, text.length) := by
  have fallback : tokenAt? d cs = matchAt? d false cs := by
    rw [tokenAt?, marker]
    simp only [address, if_true]
  have some : (matchAt? d false cs).isSome = true := by
    rw [isSome_matchAt?_iff, ← isSome_matchAt?_iff d true, marker]
    rfl
  obtain ⟨⟨kind, size'⟩, found⟩ := Option.isSome_iff_exists.1 some
  obtain ⟨text, rest, split, rfl, front⟩ := tokenAt?_front (fallback.trans found)
  exact ⟨kind, text, rest, split, front, fallback.trans found, found⟩

/-! ## The tokens behind a place -/

/-- A round finds no more than one token, and moves on. -/
theorem length_tokensAt_le (d : Delimiters) (c : Cursor) :
    (tokensAt d c).length ≤ c.rest.length := by
  induction c using tokensAt_induction d with
  | finish c ends => simp [tokensAt_end ends]
  | skip c x rest split _ none ih =>
      rw [tokensAt_skip split none, split, List.length_cons]
      exact Nat.le_succ_of_le ih
  | token c kind text rest split front found ih =>
      have positive := List.length_pos_iff.2 front.ne_nil
      rw [Cursor.past_rest] at ih
      rw [tokensAt_token split found, split, List.length_cons, List.length_append]
      omega

theorem pairwise_tokensAt (d : Delimiters) (c : Cursor) :
    (tokensAt d c).Pairwise fun t later => t.stop.offset ≤ later.start.offset := by
  induction c using tokensAt_induction d with
  | finish c ends => simp [tokensAt_end ends]
  | skip c x rest split _ none ih => rwa [tokensAt_skip split none]
  | token c kind text rest split front found ih =>
      rw [tokensAt_token split found, List.pairwise_cons]
      exact ⟨fun later member => le_start_of_mem_tokensAt member, ih⟩

/-- A token as the grammar has it, and its place in the text. -/
structure Token.Genuine (d : Delimiters) (content : List Char) (t : Token) : Prop where
  start : t.start.In content
  stop : t.stop.In content
  filled : t.start.offset < t.stop.offset
  slice : sliceBytes? content t.start.offset t.stop.offset = some t.text
  front : TokenFront d t.kind t.text t.stop.rest

theorem Token.genuine_reading {content : List Char} {kind : TokenKind} {c : Cursor}
    {text rest : List Char} (place : c.In content) (split : c.rest = text ++ rest)
    (front : TokenFront d kind text rest) : (reading kind c text rest).Genuine d content := by
  have positive := byteLength_pos front.ne_nil
  have read := reading_text kind split
  have behind : c.offset < c.offset + byteLength text := by omega
  refine ⟨place, place.past split, behind, ?_, by rwa [read]⟩
  obtain ⟨before, whole, offset, -⟩ := place
  have slice : sliceBytes? content (byteLength before) (byteLength before + byteLength text) =
      some text := by
    rw [whole, split, sliceBytes?, if_neg (by omega), dropBytes?_byteLength,
      Nat.add_sub_cancel_left]
    exact takeBytes?_byteLength text rest
  rw [read, ← slice, ← offset]
  rfl

theorem genuine_of_mem_tokensAt {content : List Char} {t : Token} {c : Cursor}
    (member : t ∈ tokensAt d c) (place : c.In content) : t.Genuine d content := by
  induction c using tokensAt_induction d with
  | finish c ends => simp [tokensAt_end ends] at member
  | skip c x rest split _ none ih =>
      rw [tokensAt_skip split none] at member
      have behind : (c.past [x] rest).In content := place.past split
      exact ih member behind
  | token c kind text rest split front found ih =>
      rw [tokensAt_token split found] at member
      rcases List.mem_cons.1 member with rfl | later
      · exact Token.genuine_reading place split front
      · exact ih later (place.past split)

/-! ## Characters in tokens -/

def Token.Holds (t : Token) (offset : Nat) (x : Char) : Prop :=
  t.start.offset ≤ offset ∧ offset + x.utf8Size ≤ t.stop.offset

theorem not_holds_of_mem_tokensAt {c : Cursor} {t : Token} (member : t ∈ tokensAt d c)
    {offset : Nat} (before : offset < c.offset) (x : Char) : ¬ t.Holds offset x := by
  intro inside
  have start := le_start_of_mem_tokensAt member
  have := inside.1
  omega

/-- A character behind a text is one of the text, or it stands behind it. -/
theorem inside_or_behind {text rest front back : List Char} {x : Char}
    (split : text ++ rest = front ++ x :: back) :
    (∃ inner, text = front ++ x :: inner) ∨
      ∃ between, front = text ++ between ∧ rest = between ++ x :: back := by
  rcases List.append_eq_append_iff.1 split with later | ⟨inner, rfl, behind⟩
  · exact .inr later
  · cases inner with
    | nil => exact .inr ⟨[], by simp, behind.symm⟩
    | cons y inner =>
        obtain ⟨rfl, -⟩ := List.cons.inj behind
        exact .inl ⟨inner, rfl⟩

/-- The characters that lie in tokens are the visible ones and the line feeds. -/
theorem exists_holds_iff (d : Delimiters) {c : Cursor} {front back : List Char} {x : Char}
    (split : c.rest = front ++ x :: back) :
    (∃ t ∈ tokensAt d c, t.Holds (c.offset + byteLength front) x) ↔ IsTokenChar x := by
  have positive := x.utf8Size_pos
  induction c using tokensAt_induction d generalizing front with
  | finish c ends => simp [ends] at split
  | skip c y rest split' gap none ih =>
      rw [tokensAt_skip split' none]
      cases front with
      | nil =>
          obtain ⟨rfl, rfl⟩ := List.cons.inj (split'.symm.trans split)
          rw [split'] at none
          obtain ⟨-, noLineFeed⟩ := tokenAt?_eq_none none
          constructor
          · rintro ⟨t, member, inside⟩
            refine absurd inside (not_holds_of_mem_tokensAt member ?_ _)
            simpa using positive
          · rintro (lineFeed | visible)
            · exact absurd lineFeed noLineFeed
            · simp [gap] at visible
      | cons y' front =>
          obtain ⟨rfl, rfl⟩ := List.cons.inj (split'.symm.trans split)
          have later := ih (Cursor.past_rest c [y] (front ++ x :: back))
          rw [Cursor.past_offset, byteLength_cons, byteLength_nil, Nat.add_zero] at later
          rwa [byteLength_cons, ← Nat.add_assoc]
  | token c kind text rest split' tokenFront found ih =>
      rw [tokensAt_token split' found]
      rcases inside_or_behind (split'.symm.trans split) with ⟨inner, rfl⟩ | ⟨between, rfl, rfl⟩
      · refine ⟨fun _ => isTokenChar_of_front tokenFront (by simp), fun _ => ?_⟩
        refine ⟨_, List.mem_cons_self, ?_, ?_⟩
        · exact Nat.le_add_right ..
        · simp only [Token.reading, Cursor.past_offset, byteLength_append, byteLength_cons]
          omega
      · have later := ih (Cursor.past_rest c text (between ++ x :: back))
        rw [Cursor.past_offset, Nat.add_assoc] at later
        rw [byteLength_append]
        refine Iff.trans ?_ later
        constructor
        · rintro ⟨t, member, inside⟩
          rcases List.mem_cons.1 member with rfl | member
          · have stop : c.offset + (byteLength text + byteLength between) + x.utf8Size ≤
                c.offset + byteLength text := inside.2
            omega
          · exact ⟨t, member, inside⟩
        · rintro ⟨t, member, inside⟩
          exact ⟨t, List.mem_cons_of_mem _ member, inside⟩

/-- The tokens of a text are found in as many rounds as it has characters, each is a token of the
grammar and the slice of the text between its places, they stand in order and apart, they hold the
visible characters and the line feeds and no others, and where a colon marker looks like the scheme
of a web address another token is found at its place. -/
theorem tokens_cover (d : Delimiters) (content : List Char) :
    (∀ rounds, content.length ≤ rounds →
      tokensFrom d rounds (Cursor.start content) = tokens d content) ∧
    (tokens d content).length ≤ content.length ∧
    (∀ t ∈ tokens d content, t.Genuine d content) ∧
    (tokens d content).Pairwise (fun t later => t.stop.offset ≤ later.start.offset) ∧
    (∀ front x back, content = front ++ x :: back →
      ((∃ t ∈ tokens d content, t.Holds (byteLength front) x) ↔ IsTokenChar x)) ∧
    ∀ cs escapes name size,
      matchAt? d true cs = some (.marker escapes .colon name, size) →
      isAddressRest (cs.drop size) = true →
      ∃ kind text rest, cs = text ++ rest ∧ TokenFront d kind text rest ∧
        tokenAt? d cs = some (kind, text.length) ∧
        matchAt? d false cs = some (kind, text.length) := by
  refine ⟨?_, length_tokensAt_le d (Cursor.start content), ?_,
    pairwise_tokensAt d (Cursor.start content), ?_, ?_⟩
  · intro rounds enough
    exact tokensFrom_congr d rounds content.length _ enough (Nat.le_refl _)
  · intro t member
    have behind : t ∈ tokensAt d (Cursor.start content) := member
    exact genuine_of_mem_tokensAt behind (Cursor.start_in content)
  · intro front x back split
    have holds := exists_holds_iff d (c := Cursor.start content) split
    rwa [Cursor.start, Nat.zero_add] at holds
  · intro cs escapes name size marker address
    exact exists_fallback marker address

/-- The scheme of a web address starts a word that holds all of it. -/
theorem tokens_cover_address :
    tokensFrom {} 9 (Cursor.start "x s://y".toList) = tokens {} "x s://y".toList ∧
      matchAt? {} true "s://y".toList = some (.marker 0 .colon "s", 2) ∧
      isAddressRest ("s://y".toList.drop 2) = true ∧
      (matchAt? {} false "s://y".toList).isSome = true ∧
      ∃ t ∈ tokens {} "x s://y".toList, t.Holds 6 'y' := by
  obtain ⟨rounds, -, -, -, holds, fallback⟩ := tokens_cover {} "x s://y".toList
  have marker : matchAt? {} true "s://y".toList = some (.marker 0 .colon "s", 2) := by
    decide +kernel
  have address : isAddressRest ("s://y".toList.drop 2) = true := by decide +kernel
  obtain ⟨kind, text, rest, -, -, -, found⟩ := fallback _ _ _ _ marker address
  refine ⟨rounds 9 (by decide +kernel), marker, address, by rw [found]; rfl, ?_⟩
  have there := holds "x s://".toList 'y' [] (by decide +kernel)
  have offset : byteLength "x s://".toList = 6 := by decide +kernel
  rw [offset] at there
  exact there.2 (.inr (by decide +kernel))

end ChatArgs.Parse
