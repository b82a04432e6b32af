import ChatArgs.Proofs.Parse.FirstValue

/-!
# Unescaping at once and token by token

The last slot unescapes its text at once: a run of backslashes is halved in front of a blank, a
delimiter or the end, and is text elsewhere. In front of it text is kept token by token: a run that
is a token of its own is halved wherever it stands, and the backslashes of a marker that opens
nothing are text. `Token.isAlike` says of which tokens both rules keep the same, and
`unescape_eq_keptText_iff` that no two differences cancel out.
-/

namespace ChatArgs

namespace Parse

open Text

/-! ## One escape rule and the other -/

/-- What of a token is text, token by token. -/
def Token.kept (d : Delimiters) (t : Token) : List Char :=
  match t.kind with
  | .backslashes count => backslashes (keptCount count (d.escapesNext none t.stop.after))
  | _ => t.text

def keptText (d : Delimiters) (ts : List Token) : List Char :=
  ts.flatMap (Token.kept d)

/-- Of the token the same is kept as when the text is unescaped at once: it is no marker of hyphens
behind backslashes, and no longer run of backslashes in front of a character that is not escaped. -/
def Token.isAlike (d : Delimiters) (t : Token) : Bool :=
  match t.kind with
  | .marker escapes (.hyphens _) _ => escapes == 0
  | .backslashes count => count == 1 || d.escapesNext none t.stop.after
  | _ => true

theorem unescape_append_of_notMem (e : EscapeSet) {front : List Char} (plain : '\\' ∉ front)
    (rest : List Char) : unescape e (front ++ rest) = front ++ unescape e rest := by
  induction front with
  | nil => rfl
  | cons c front ih =>
      simp only [List.mem_cons, not_or] at plain
      have different : ¬ c = '\\' := fun same => plain.1 same.symm
      have behind := ih plain.2
      rw [unescape] at behind ⊢
      rw [List.cons_append, unescapeFrom, if_neg different, behind]
      split <;> simp [backslashes]

theorem mem_unescapeFrom {e : EscapeSet} {run : Nat} {cs : List Char} {y : Char}
    (member : y ∈ unescapeFrom e run cs) : y = '\\' ∨ y ∈ cs := by
  induction cs generalizing run with
  | nil => exact .inl (List.eq_of_mem_replicate member)
  | cons c cs ih =>
      rw [unescapeFrom] at member
      split at member
      · exact (ih member).imp_right (List.mem_cons_of_mem c)
      · have kept (count : Nat) (member : y ∈ backslashes count ++ c :: unescapeFrom e 0 cs) :
            y = '\\' ∨ y ∈ c :: cs := by
          rcases List.mem_append.1 member with run | member
          · exact .inl (List.eq_of_mem_replicate run)
          · rcases List.mem_cons.1 member with rfl | member
            · exact .inr List.mem_cons_self
            · exact (ih member).imp_right (List.mem_cons_of_mem c)
        split at member
        · exact kept _ member
        · exact kept _ member

theorem unescape_cons (e : EscapeSet) {v : Char} (other : v ≠ '\\') (cs : List Char) :
    unescape e (v :: cs) = v :: unescape e cs :=
  unescape_append_of_notMem e (by simpa using other.symm : '\\' ∉ [v]) cs

theorem unescape_backslashes_cons (e : EscapeSet) (count : Nat) {v : Char} (other : v ≠ '\\')
    (cs : List Char) :
    unescape e (backslashes count ++ v :: cs) =
      backslashes (if e.contains v then count / 2 else count) ++ unescape e (v :: cs) := by
  rw [unescape_cons e other, unescape, unescapeFrom_backslashes, unescapeFrom, if_neg other,
    Nat.zero_add]
  split <;> rfl

theorem unescape_backslashes (e : EscapeSet) (count : Nat) :
    unescape e (backslashes count) = backslashes (count / 2) := by
  have whole := unescapeFrom_backslashes e 0 count []
  rw [List.append_nil, Nat.zero_add] at whole
  exact whole

section

variable {d : Delimiters} {c : Cursor} {kind : TokenKind} {text rest : List Char}
  (split : c.rest = text ++ rest)
include split

theorem kept_of_other (other : ∀ count, kind ≠ .backslashes count) :
    (Token.reading kind c text rest).kept d = text := by
  have read := Token.reading_text kind split
  cases kind with
  | backslashes count => exact absurd rfl (other count)
  | _ => exact read

theorem keptText_token (found : tokenAt? d c.rest = some (kind, text.length)) :
    keptText d (tokensAt d c) =
      (Token.reading kind c text rest).kept d ++ keptText d (tokensAt d (c.past text rest)) := by
  rw [tokensAt_token split found, keptText, List.flatMap_cons, keptText]

end

/-- The first character is kept, if it is visible and no backslash. -/
theorem keptText_cons (d : Delimiters) {c : Cursor} {v : Char} {cs : List Char}
    (here : c.rest = v :: cs) (visible : isGap v = false) (other : v ≠ '\\') :
    ∃ more, keptText d (tokensAt d c) = v :: more := by
  rcases tokenAt?_cases d v cs with ⟨-, gap⟩ | ⟨kind, text, rest, split, front, found⟩
  · simp [visible] at gap
  · obtain ⟨a, text, rfl⟩ := List.exists_cons_of_ne_nil front.ne_nil
    obtain rfl : v = a := (List.cons.inj split).1
    have notRun := front.ne_backslashes other
    rw [← here] at split found
    exact ⟨_, by rw [keptText_token split found, kept_of_other split notRun]; rfl⟩

theorem TokenFront.marker_inv {d : Delimiters} {escapes : Nat} {opening : Opening} {name : String}
    {text rest : List Char} (front : TokenFront d (.marker escapes opening name) text rest) :
    ∃ v body, text = Parse.backslashes escapes ++ v :: body ∧ '\\' ∉ v :: body ∧
      ((∃ count, opening = .hyphens count ∧ v = '-' ∧ d.hasHyphen = true) ∨
        opening = .colon ∧ isNamePart v = true) := by
  have noBackslash {name : List Char} (parts : ∀ c ∈ name, isNamePart c = true) : '\\' ∉ name :=
    fun member => ne_backslash_of_isNamePart (parts _ member) rfl
  cases front with
  | @hyphens _ count name sign _ one enabled valid hsign =>
      obtain ⟨fewer, rfl⟩ : ∃ fewer, count = fewer + 1 := ⟨count - 1, by omega⟩
      refine ⟨'-', List.replicate fewer '-' ++ (name ++ sign), by rw [List.replicate_succ]; rfl, ?_,
        .inl ⟨_, rfl, rfl, enabled⟩⟩
      rcases hsign with rfl | rfl | rfl <;> simp [noBackslash valid.2]
  | @colon _ name _ _ filled parts _ =>
      obtain ⟨v, name, rfl⟩ := List.exists_cons_of_ne_nil filled
      refine ⟨v, name ++ [':'], rfl, ?_, .inr ⟨rfl, parts v List.mem_cons_self⟩⟩
      have absent := noBackslash parts
      simp only [List.mem_cons, not_or] at absent
      simp [absent]

section

variable {d : Delimiters} {e : EscapeSet} (set : d.textEscapes none = some e)
include set

theorem escapesNext_some (v : Char) : d.escapesNext none (some v) = e.contains v := by
  rw [Delimiters.escapesNext, set]

theorem escapesNext_none : d.escapesNext none none = true := by
  rw [Delimiters.escapesNext, set]

/-- A hyphen that may begin a marker is escaped, and a name is not. -/
theorem contains_marker {v : Char} :
    (v = '-' → d.hasHyphen = true → e.contains v = true) ∧
      (isNamePart v = true → e.contains v = false) := by
  unfold Delimiters.textEscapes at set
  split at set
  · obtain rfl := Option.some.inj set
    constructor
    · rintro rfl enabled
      simp [EscapeSet.contains, EscapeSet.isDelimiter, Delimiters.escapedMarkers, enabled]
    · intro part
      have blank := isBlank_of_isNamePart part
      have other : v ≠ '-' ∧ v ≠ ':' ∧ ∀ q : Quote, q.char ≠ v := by
        refine ⟨?_, ?_, ?_⟩
        · rintro rfl
          exact absurd part (by decide)
        · rintro rfl
          exact absurd part (by decide)
        · rintro q rfl
          cases q <;> exact absurd part (by decide)
      simp [EscapeSet.contains, EscapeSet.isDelimiter, Delimiters.escapedMarkers, blank, other]
  · simp at set

theorem contains_delimiter {x : Char} (isDelimiter : isDelimiterChar d x = true) :
    e.contains x = true := by
  unfold Delimiters.textEscapes at set
  split at set
  · obtain rfl := Option.some.inj set
    simp only [isDelimiterChar, Delimiters.isQuoteChar, Bool.or_eq_true, Bool.and_eq_true,
      beq_iff_eq] at isDelimiter
    rcases isDelimiter with (quote | ⟨enabled, rfl⟩) | ⟨enabled, rfl⟩
    · simp [EscapeSet.contains, EscapeSet.isDelimiter, quote]
    · simp [EscapeSet.contains, EscapeSet.isDelimiter, Delimiters.escapedMarkers, enabled]
    · simp [EscapeSet.contains, EscapeSet.isDelimiter, Delimiters.escapedMarkers, enabled]
  · simp at set

variable {c : Cursor} {rest : List Char}

/-- A marker is text as it is written; unescaped it loses half of the backslashes in front of its
hyphens. -/
theorem unescape_marker {escapes : Nat} {opening : Opening} {name : String} {text : List Char}
    (split : c.rest = text ++ rest)
    (front : TokenFront d (.marker escapes opening name) text rest) (more : List Char) :
    let t := Token.reading (.marker escapes opening name) c text rest
    t.isAlike d = true ∧ unescape e c.rest = t.kept d ++ unescape e rest ∨
      t.isAlike d = false ∧ unescape e c.rest ≠ t.kept d ++ more := by
  intro t
  have kept : t.kept d = text := kept_of_other split (by simp)
  obtain ⟨v, body, rfl, absent, opens⟩ := front.marker_inv
  have other : v ≠ '\\' := fun same => absent (by simp [same])
  have unescaped : unescape e c.rest =
      backslashes (if e.contains v then escapes / 2 else escapes) ++
        (v :: body ++ unescape e rest) := by
    rw [split, List.append_assoc, List.cons_append, unescape_backslashes_cons e escapes other,
      ← List.cons_append, unescape_append_of_notMem e absent]
  rw [kept, unescaped, List.append_assoc]
  rcases opens with ⟨hyphens, rfl, rfl, enabled⟩ | ⟨rfl, part⟩
  · rw [(contains_marker set).1 rfl enabled, if_pos rfl]
    have isAlike : t.isAlike d = (escapes == 0) := rfl
    by_cases bare : escapes = 0
    · exact .inl ⟨by simp [isAlike, bare], by simp [bare]⟩
    · refine .inr ⟨by simp [isAlike, bare], fun equal => ?_⟩
      rw [List.append_assoc] at equal
      have halved := backslashes_append_inj other other equal
      omega
  · rw [(contains_marker set).2 part, if_neg (by simp), List.append_assoc]
    exact .inl ⟨rfl, rfl⟩

/-- A run of backslashes is halved by both, or the odd one of a run that is halved by one is
kept. -/
theorem unescape_run {count : Nat} (split : c.rest = backslashes count ++ rest)
    (front : TokenFront d (.backslashes count) (backslashes count) rest)
    (visible : ∀ y ∈ rest, isGap y = false) :
    let t := Token.reading (.backslashes count) c (backslashes count) rest
    t.isAlike d = true ∧ unescape e c.rest = t.kept d ++ unescape e rest ∨
      t.isAlike d = false ∧ unescape e c.rest ≠ t.kept d ++
        keptText d (tokensAt d (c.past (backslashes count) rest)) := by
  intro t
  obtain ⟨positive, head, -, -⟩ := front.backslashes_inv
  have kept : t.kept d = backslashes (keptCount count (d.escapesNext none rest.head?)) := rfl
  have isAlike : t.isAlike d = (count == 1 || d.escapesNext none rest.head?) := rfl
  rw [split]
  cases rest with
  | nil =>
      have special : d.escapesNext none ([] : List Char).head? = true := escapesNext_none set
      rw [kept, isAlike, special, List.append_nil, unescape_backslashes]
      exact .inl ⟨by simp, by simp [keptCount, unescape, unescapeFrom, backslashes]⟩
  | cons v cs =>
      have other : v ≠ '\\' := fun same => head (by rw [same]; rfl)
      have special : d.escapesNext none (v :: cs).head? = e.contains v := escapesNext_some set v
      rw [kept, isAlike, special, unescape_backslashes_cons e count other]
      by_cases contained : e.contains v = true
      · exact .inl ⟨by simp [contained], by simp [contained, keptCount]⟩
      · rw [if_neg contained]
        rw [Bool.not_eq_true] at contained
        by_cases single : count = 1
        · exact .inl ⟨by simp [single], by simp [single, contained, keptCount]⟩
        · refine .inr ⟨by simp [single, contained], ?_⟩
          obtain ⟨more, goesOn⟩ := keptText_cons d
            (c := c.past (backslashes count) (v :: cs)) rfl (visible v List.mem_cons_self) other
          rw [goesOn, unescape_cons e other]
          intro equal
          have fewer := backslashes_append_inj other other equal
          simp only [contained, keptCount, Bool.not_false, Bool.and_true, beq_iff_eq] at fewer
          split at fewer <;> omega

/-- Of a token the same is kept as when the text is unescaped at once, just where it is alike. -/
theorem unescape_token (active : d.isActive = true) {kind : TokenKind} {text : List Char}
    (split : c.rest = text ++ rest) (front : TokenFront d kind text rest)
    (visible : ∀ y ∈ rest, isGap y = false) :
    let t := Token.reading kind c text rest
    t.isAlike d = true ∧ unescape e c.rest = t.kept d ++ unescape e rest ∨
      t.isAlike d = false ∧
        unescape e c.rest ≠ t.kept d ++ keptText d (tokensAt d (c.past text rest)) := by
  intro t
  have plain (other : ∀ count, kind ≠ .backslashes count) (absent : '\\' ∉ text) :
      unescape e c.rest = t.kept d ++ unescape e rest := by
    rw [split, unescape_append_of_notMem e absent, kept_of_other split other]
  cases kind with
  | word =>
      refine .inl ⟨rfl, plain (by simp) fun member => ?_⟩
      cases front with
      | word _ inside _ => simpa [isWordChar, active] using inside _ member
  | delimiter y =>
      refine .inl ⟨rfl, plain (by simp) fun member => ?_⟩
      cases front with
      | delimiter isDelimiter =>
          obtain rfl := List.mem_singleton.1 member
          exact ne_backslash_of_isDelimiterChar isDelimiter rfl
  | lineFeeds =>
      refine .inl ⟨rfl, plain (by simp) fun member => ?_⟩
      exact absurd (front.lineFeed_of_mem member) (by decide)
  | marker escapes opening name => exact unescape_marker set split front _
  | backslashes count =>
      obtain ⟨-, -, -, rfl⟩ := front.backslashes_inv
      exact unescape_run set split front visible

/-- A text that is unescaped at once is what is kept of its tokens, just where every token is
alike. -/
theorem unescape_eq_keptText_iff (active : d.isActive = true) (c : Cursor)
    (visible : ∀ y ∈ c.rest, isGap y = false) :
    unescape e c.rest = keptText d (tokensAt d c) ↔
      (tokensAt d c).all (Token.isAlike d) = true := by
  induction c using tokensAt_induction d with
  | finish c ends => simp [ends, tokensAt_end ends, unescape, unescapeFrom, backslashes, keptText]
  | skip c y rest split gap _ _ =>
      rw [visible y (by simp [split])] at gap
      contradiction
  | token c kind text rest split front found ih =>
      have visible' : ∀ y ∈ rest, isGap y = false :=
        fun y member => visible y (by rw [split]; exact List.mem_append_right _ member)
      have behind := ih visible'
      rw [Cursor.past_rest] at behind
      rw [keptText_token split found, tokensAt_token split found, List.all_cons]
      rcases unescape_token set active split front visible' with ⟨alike, same⟩ | ⟨alike, other⟩
      · rw [same, alike, List.append_cancel_left_eq, behind, Bool.true_and]
      · simp [alike, other]

theorem unescape_last_iff (active : d.isActive = true) {c : Cursor} {kind : TokenKind}
    {text rest : List Char} (split : c.rest = text ++ rest)
    (found : tokenAt? d c.rest = some (kind, text.length)) (ends : rest = [])
    (visible : ∀ y ∈ c.rest, isGap y = false) :
    unescape e c.rest = (Token.reading kind c text rest).kept d ↔
      (Token.reading kind c text rest).isAlike d = true := by
  have alike := unescape_eq_keptText_iff set active c visible
  have behind : tokensAt d (c.past text rest) = [] := tokensAt_end ends
  rw [keptText_token split found, tokensAt_token split found, behind] at alike
  simpa [keptText] using alike

/-- A delimiter that is escaped loses one backslash in front of the last slot, and half of them in
it. -/
theorem unescape_escaped_iff {x : Char} (isDelimiter : isDelimiterChar d x = true) (run : Nat) :
    unescape e (backslashes run ++ [x]) = [x] ↔ run ≤ 1 := by
  have other := ne_backslash_of_isDelimiterChar isDelimiter
  rw [unescape_backslashes_cons e run other, contains_delimiter set isDelimiter, if_pos rfl,
    unescape_cons e other]
  constructor
  · intro same
    have count := congrArg List.length same
    simp [unescape, unescapeFrom, backslashes] at count
    omega
  · intro few
    have half : run / 2 = 0 := by omega
    simp [half, unescape, unescapeFrom, backslashes]

end

end Parse

end ChatArgs
