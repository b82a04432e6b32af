import ChatArgs.Proofs.Parse.Appended
import ChatArgs.Proofs.Parse.PlainText
import ChatArgs.Proofs.Parse.QuotedItems
import Mathlib.Data.List.Infix

/-!
# Text behind the last slot

Once every slot is filled, words are dropped. Text that is no word is glued to the last value
where a visible character stands in front of it, even one that was dropped; unless a backslash
does so, the rest of a text changes nothing.
-/

namespace ChatArgs

namespace Entries

/-! ## Text added to a value -/

theorem put_eq_change {name text : String} {l : List (String × String)}
    (known : name ∈ l.map (·.1)) :
    put name ((find name l).getD "" ++ text) l = change name (· ++ text) l := by
  induction l with
  | nil => simp at known
  | cons entry l ih =>
      by_cases same : entry.1 = name
      · simp [put, find, change, same]
      · have later : name ∈ l.map (·.1) := by
          rw [List.map_cons, List.mem_cons] at known
          exact known.resolve_left fun here => same here.symm
        simp [put, find, change, same, ih later]

theorem change_append (name a b : String) (l : List (String × String)) :
    change name (· ++ b) (change name (· ++ a) l) = change name (· ++ (a ++ b)) l := by
  induction l with
  | nil => rfl
  | cons entry l ih =>
      by_cases same : entry.1 = name
      · simp [change, same, String.append_assoc]
      · simp [change, same, ih]

theorem change_append_empty (name : String) (l : List (String × String)) :
    change name (· ++ "") l = l := by
  induction l with
  | nil => rfl
  | cons entry l ih =>
      by_cases same : entry.1 = name
      · simp [change, ← same]
      · rw [change, if_neg same, ih]

def Lengthens (name : String) (m m' : Entries String) : Prop :=
  ∃ text, m' = m.modify name (· ++ text)

theorem Lengthens.refl (name : String) (m : Entries String) : Lengthens name m m :=
  ⟨"", congrArg mk (change_append_empty name m.toList).symm⟩

theorem Lengthens.trans {name : String} {m m' m'' : Entries String} (first : Lengthens name m m')
    (second : Lengthens name m' m'') : Lengthens name m m'' := by
  obtain ⟨a, rfl⟩ := first
  obtain ⟨b, rfl⟩ := second
  exact ⟨a ++ b, congrArg mk (change_append name a b m.toList)⟩

theorem Lengthens.insert {name text : String} {m : Entries String} (known : name ∈ m.keys) :
    Lengthens name m (m.insert name ((m.get? name).getD "" ++ text)) :=
  ⟨text, congrArg mk (put_eq_change known)⟩

theorem Lengthens.keys {name : String} {m m' : Entries String} (longer : Lengthens name m m') :
    m'.keys = m.keys := by
  obtain ⟨text, rfl⟩ := longer
  exact keys_modify m name _

end Entries

namespace Parse

open Text

def enclosedAll (q : Quote) (texts : List String) : List Char :=
  texts.flatMap fun text => enclosed q text ++ [' ']

/-! ## Backslashes -/

/-- A run of backslashes stands only behind what separates words, or at the front. -/
def EscapesApart (cs : List Char) : Prop :=
  ∀ front c back, cs = front ++ c :: '\\' :: back → isGap c = true ∨ c = '\\'

theorem EscapesApart.suffix {cs rest : List Char} (apart : EscapesApart cs) (front : List Char)
    (split : cs = front ++ rest) : EscapesApart rest := by
  intro front' c back split'
  exact apart (front ++ front') c back (by rw [split, split', List.append_assoc])

/-- So a word goes on up to what separates words. -/
theorem EscapesApart.hidden_behind_word {d : Delimiters} {text rest : List Char}
    (apart : EscapesApart (text ++ rest)) (front : TokenFront d .word text rest)
    (noQuote : ∀ c ∈ rest, d.isQuoteChar c = false) : isVisible rest.head? = false := by
  cases front with
  | word filled inside stops =>
      obtain ⟨init, c, rfl⟩ : ∃ init c, text = init ++ [c] :=
        ⟨_, _, (List.dropLast_concat_getLast filled).symm⟩
      have last := inside c (by simp)
      cases rest with
      | nil => rfl
      | cons x rest =>
          have stop := stops x rfl
          have plain := noQuote x List.mem_cons_self
          by_contra shown
          rw [List.head?_cons, isVisible_some, Bool.not_eq_false, Bool.not_eq_true'] at shown
          simp only [isWordChar, shown, plain, Bool.not_false, Bool.true_and,
            Bool.not_eq_false', Bool.and_eq_true, beq_iff_eq] at stop
          obtain ⟨active, rfl⟩ := stop
          simp only [isWordChar, active, Bool.true_and, Bool.and_eq_true, Bool.not_eq_true',
            beq_eq_false_iff_ne] at last
          rcases apart init c rest (by simp) with gap | escape
          · simp [gap] at last
          · exact last.2 escape

theorem tokenAt?_delimiter {d : Delimiters} {c : Char} {cs : List Char}
    (isDelimiter : isDelimiterChar d c = true) (plain : d.isQuoteChar c = false)
    (noMarker : hyphenMarker? d 0 (c :: cs) = none) :
    tokenAt? d (c :: cs) = some (.delimiter c, 1) := by
  have noName : isNamePart c = false ∧ c ≠ '\\' := by
    simp only [isDelimiterChar, plain, Bool.false_or, Bool.or_eq_true, Bool.and_eq_true,
      beq_iff_eq] at isDelimiter
    rcases isDelimiter with ⟨-, rfl⟩ | ⟨-, rfl⟩ <;> decide
  have unmarked (colons : Bool) : marker? d colons (c :: cs) = none := by
    simp [marker?, noName, noMarker, colonMarker?]
  simp [tokenAt?, matchAt?, unmarked, isDelimiter]

namespace State

variable {ctx : Context} {s : State} {m : Entries String} {last : String}

/-! ## No slot is free -/

/-- Every slot is filled, nothing is open, and the values are those of `m`, but for text at the
end of the last one. -/
structure Full (ctx : Context) (m : Entries String) (last : String) (s : State) : Prop where
  noSlot : s.freeSlot? = none
  noLong : s.longText = none
  noNamed : s.named = none
  noLast : s.lastSlot = none
  lastFilled : s.lastFilled = some last
  known : last ∈ m.keys
  longer : m.Lengthens last s.values

theorem hold_eq (s : State) (text : String) (start : Cursor) :
    ∃ held, s.hold text start = { s with held := some held } :=
  hold_cases (fun _ _ => ⟨_, rfl⟩) fun _ => ⟨_, rfl⟩

namespace Full

variable (full : Full ctx m last s)
include full

theorem congr (escape : Option (Cursor × Nat)) (held : Option Held) (justClosed : Bool) :
    Full ctx m last { s with escape := escape, held := held, justClosed := justClosed } :=
  ⟨full.noSlot, full.noLong, full.noNamed, full.noLast, full.lastFilled, full.known, full.longer⟩

theorem place (value : String) (start : Cursor) (stop : Nat) :
    s.place ctx value start stop false = s := by
  simp [State.place, openSingle?, full.noNamed, fillSlot, full.noSlot]

theorem append (text : String) (stop : Nat) : Full ctx m last (s.append last text stop) where
  noSlot := full.noSlot
  noLong := full.noLong
  noNamed := full.noNamed
  noLast := full.noLast
  lastFilled := full.lastFilled
  known := full.known
  longer := full.longer.trans (.insert (full.longer.keys ▸ full.known))

theorem hold (text : String) (start : Cursor) : Full ctx m last (s.hold text start) := by
  obtain ⟨held, same⟩ := hold_eq s text start
  rw [same]
  exact full.congr s.escape _ s.justClosed

theorem placeText (text : String) (start : Cursor) (stop : Nat) (next : Option Char)
    (justClosed : Bool) : Full ctx m last (s.placeText ctx text start stop next justClosed) := by
  refine placeText_cases ?passed ?glued ?held ?placed
  case passed => exact fun opened => absurd full.noNamed opened
  case glued =>
    intro name filled _ _ _ _
    obtain rfl := Option.some.inj (filled.symm.trans full.lastFilled)
    exact full.append text stop
  case held => exact fun _ _ _ => full.hold text start
  case placed =>
    intro _ _ _
    rw [full.place]
    exact full

/-! ## Tokens -/

theorem onMarker_eq (t : Token) (escapes : Nat) (opening : Opening) {name : String}
    (undeclared : ctx.table.option? name = none) (justClosed : Bool) :
    s.onMarker ctx t escapes opening name justClosed =
      s.placeText ctx (String.ofList t.text) t.start t.stop.offset t.stop.after justClosed := by
  have noLast : s.lastSlot.isSome = false := by simp [full.noLast]
  simp [onMarker, undeclared, literalMarker, noLast]

theorem onBackslashes (t : Token) (count : Nat) (justClosed : Bool) :
    Full ctx m last (s.onBackslashes ctx t count justClosed) := by
  refine onBackslashes_cases ?passed ?placed
  case passed => exact fun escape _ _ => full.congr escape s.held s.justClosed
  case placed =>
    exact fun escape text _ _ => (full.congr escape s.held s.justClosed).placeText _ _ _ _ _

theorem onDelimiter (plainLast : ctx.config.plainLast = none) (t : Token) {c : Char}
    (noQuote : Quote.ofChar? c = none) (justClosed : Bool) :
    Full ctx m last (s.onDelimiter ctx t c justClosed) := by
  have cleared := full.congr none s.held s.justClosed
  refine onDelimiter_cases ?passed ?escaped ?text ?value ?quoted
  case passed => exact fun _ => cleared
  case escaped => exact fun start _ _ => cleared.placeText _ start _ _ _
  case text => exact fun _ _ => cleared.placeText _ t.start _ _ _
  case value => exact fun _ kept => absurd plainLast kept
  case quoted => simp [noQuote]

theorem onWord (t : Token) (justClosed : Bool) :
    Full ctx m last (s.onWord ctx t justClosed) := by
  refine onWord_cases ?glued ?placed
  case glued =>
    intro name filled _ _
    obtain rfl := Option.some.inj (filled.symm.trans full.lastFilled)
    exact full.append _ _
  case placed =>
    rw [full.place]
    exact full

theorem step (plainLast : ctx.config.plainLast = none) {t : Token} {text rest : List Char}
    (front : TokenFront ctx.patterns.delimiters t.kind text rest)
    (noQuote : ∀ c ∈ text, ctx.patterns.delimiters.isQuoteChar c = false)
    (undeclared : ∀ escapes opening name, t.kind = .marker escapes opening name →
      ctx.table.option? name = none) : Full ctx m last (s.step ctx t) := by
  have quiet := full.congr s.escape s.held false
  refine step_cases ?marker ?other
  case marker =>
    intro escapes opening name kind _
    rw [quiet.onMarker_eq t escapes opening (undeclared _ _ _ kind)]
    exact quiet.placeText _ _ _ _ _
  case other =>
    intro _
    refine onOther_cases ?line ?passed ?backslashes ?delimiter ?word
    case line =>
      intro named found
      rw [(openSingle?_eq_some.1 found).1] at quiet
      exact absurd quiet.noNamed (by simp)
    case passed => exact fun _ => quiet
    case backslashes => exact fun count _ _ => quiet.onBackslashes t count s.justClosed
    case delimiter =>
      intro c kind _
      rw [kind] at front
      cases front with
      | delimiter isDelimiter =>
          have other := ofChar?_eq_none_of_isDelimiterChar isDelimiter
            (noQuote c List.mem_cons_self)
          exact quiet.onDelimiter plainLast t other s.justClosed
    case word => exact fun _ _ _ => quiet.onWord t s.justClosed

theorem sweep (plainLast : ctx.config.plainLast = none) {c : Cursor}
    (noQuote : ∀ x ∈ c.rest, ctx.patterns.delimiters.isQuoteChar x = false)
    (undeclared : ∀ t ∈ tokensAt ctx.patterns.delimiters c, ∀ escapes opening name,
      t.kind = .marker escapes opening name → ctx.table.option? name = none) :
    Full ctx m last (s.sweep ctx c) := by
  induction c, s using sweep_induction ctx with
  | finish c s ends =>
      rcases ends with ends | stops
      · rwa [sweep_end ends]
      · rwa [sweep_of_stops stops]
  | skip c s x rest split gap none goes ih =>
      rw [split, List.forall_mem_cons] at noQuote
      rw [tokensAt_skip split none] at undeclared
      rw [sweep_skip split none]
      exact ih full noQuote.2 undeclared
  | token c s kind text rest split front found goes ih =>
      rw [split, List.forall_mem_append] at noQuote
      rw [tokensAt_token split found, List.forall_mem_cons] at undeclared
      rw [sweep_token split found goes]
      exact ih (full.step (t := .reading kind c text rest) plainLast front noQuote.1 undeclared.1)
        noQuote.2 undeclared.2

theorem closeAll : s.closeAll ctx = s := by
  simp [State.closeAll, closeLastSlot, closeNamed, closeLongText, full.noLast, full.noNamed,
    full.noLong]

end Full

/-! ## Where nothing is glued -/

/-- Behind the place nothing is glued: text is held, or no visible character stands in front of
the place or behind it, or a delimiter stands there that a backslash escapes. -/
structure Ignores (ctx : Context) (m : Entries String) (last : String) (c : Cursor)
    (s : State) : Prop extends Full ctx m last s where
  values : s.values = m
  escaped : ∀ escape ∈ s.escape, s.held ≠ none ∨ ∃ x ∈ escape.1.before, isGap x = true
  here : s.held ≠ none ∨ (∃ x ∈ c.before, isGap x = true) ∨ isVisible c.rest.head? = false ∨
    ∃ start x, s.escape = some (start, c.offset) ∧
      tokenAt? ctx.patterns.delimiters c.rest = some (.delimiter x, 1)

/-- Text that is not glued is held, or no visible character follows. -/
theorem Full.ignores_placeText (full : Full ctx m last s) (values : s.values = m)
    (escaped : ∀ escape ∈ s.escape, s.held ≠ none ∨ ∃ x ∈ escape.1.before, isGap x = true)
    {start : Cursor} (apart : s.held ≠ none ∨ ∃ x ∈ start.before, isGap x = true) (text : String)
    (stop : Nat) (justClosed : Bool) (c : Cursor) :
    Ignores ctx m last c (s.placeText ctx text start stop c.after justClosed) := by
  have placed := full.placeText text start stop c.after justClosed
  revert placed
  refine placeText_cases ?passed ?glued ?held ?placed
  case passed => exact fun opened => absurd full.noNamed opened
  case glued =>
    intro name filled _ noHeld _ visible
    rcases apart with holds | ⟨x, before, gap⟩
    · exact absurd noHeld holds
    · rw [Option.mem_def.1 before] at visible
      simp [gap] at visible
  case held =>
    intro _ _ _ full'
    obtain ⟨held, same⟩ := hold_eq s text start
    rw [same] at full' ⊢
    exact ⟨full', values, fun _ _ => .inl (by simp), .inl (by simp)⟩
  case placed =>
    intro _ hidden _ full'
    rw [full.place] at full' ⊢
    exact ⟨full', values, escaped, .inr (.inr (.inl hidden))⟩

namespace Ignores

variable {c : Cursor} (ignores : Ignores ctx m last c s)
include ignores

theorem congr (justClosed : Bool) : Ignores ctx m last c { s with justClosed := justClosed } :=
  ⟨ignores.toFull.congr s.escape s.held justClosed, ignores.values, ignores.escaped, ignores.here⟩

/-- Text is held, or no visible character stands in front, wherever a token stands that neither
ends a line nor is a delimiter behind a backslash. -/
theorem apart {kind : TokenKind} {text rest : List Char} (split : c.rest = text ++ rest)
    (front : TokenFront ctx.patterns.delimiters kind text rest)
    (found : tokenAt? ctx.patterns.delimiters c.rest = some (kind, text.length))
    (inLine : kind ≠ .lineFeeds)
    (unescaped : ∀ x, kind = .delimiter x → ∀ start, s.escape ≠ some (start, c.offset)) :
    s.held ≠ none ∨ ∃ x ∈ c.before, isGap x = true := by
  rcases ignores.here with holds | before | hidden | ⟨start, x, escape, delimiter⟩
  · exact .inl holds
  · exact .inr before
  · exfalso
    obtain ⟨y, text, rfl⟩ := List.exists_cons_of_ne_nil front.ne_nil
    have shown := front.visible inLine y List.mem_cons_self
    simp [split, shown] at hidden
  · have same := (Prod.mk.inj (Option.some.inj (found.symm.trans delimiter))).1
    exact absurd escape (unescaped x same start)

theorem onWord (t : Token) (ends : isVisible t.stop.after = false)
    (apart : s.held ≠ none ∨ ∃ x ∈ t.start.before, isGap x = true) (justClosed : Bool) :
    Ignores ctx m last t.stop (s.onWord ctx t justClosed) := by
  have dropped : s.onWord ctx t justClosed = s := by
    rcases apart with holds | ⟨x, before, gap⟩
    · have isSome := Option.isSome_iff_ne_none.2 holds
      simp [State.onWord, isSome, ignores.toFull.place]
    · simp [State.onWord, Option.mem_def.1 before, gap, ignores.toFull.place]
  rw [dropped]
  exact ⟨ignores.toFull, ignores.values, ignores.escaped, .inr (.inr (.inl ends))⟩

theorem onBackslashes (t : Token) {count : Nat} {text rest : List Char}
    (front : TokenFront ctx.patterns.delimiters (.backslashes count) text rest)
    (behind : t.stop.rest = rest)
    (noQuote : ∀ x ∈ rest, ctx.patterns.delimiters.isQuoteChar x = false)
    (apart : s.held ≠ none ∨ ∃ x ∈ t.start.before, isGap x = true) (justClosed : Bool) :
    Ignores ctx m last t.stop (s.onBackslashes ctx t count justClosed) := by
  obtain ⟨positive, -, noMarker, -⟩ := front.backslashes_inv
  refine onBackslashes_cases ?passed ?placed
  case passed =>
    intro escape _ lone
    obtain ⟨-, next, rfl⟩ := (lone ignores.noLong).resolve_left positive.ne'
    refine ⟨ignores.toFull.congr _ s.held s.justClosed, ignores.values, ?_, .inr (.inr ?_)⟩
    · rintro escape ⟨⟩
      exact apart
    · rw [Cursor.after, behind] at next
      rw [behind]
      cases rest with
      | nil => exact .inl rfl
      | cons x rest =>
          have plain := noQuote x List.mem_cons_self
          rcases isDelimiterChar_of_escapesNext next with blank | isDelimiter
          · exact .inl (by simp [isGap, blank])
          · exact .inr ⟨t.start, x, rfl, tokenAt?_delimiter isDelimiter plain noMarker⟩
  case placed =>
    intro escape text kept _
    have escaped : ∀ e ∈ escape, s.held ≠ none ∨ ∃ x ∈ e.1.before, isGap x = true := by
      rcases kept with rfl | rfl
      · exact ignores.escaped
      · rintro e ⟨⟩
        exact apart
    exact (ignores.toFull.congr escape s.held s.justClosed).ignores_placeText ignores.values
      escaped apart _ _ _ _

theorem onDelimiter (plainLast : ctx.config.plainLast = none) (t : Token) {x : Char}
    (noQuote : Quote.ofChar? x = none)
    (apart : (∀ start, s.escape ≠ some (start, t.start.offset)) →
      s.held ≠ none ∨ ∃ x ∈ t.start.before, isGap x = true) (justClosed : Bool) :
    Ignores ctx m last t.stop (s.onDelimiter ctx t x justClosed) := by
  have cleared := ignores.toFull.congr none s.held s.justClosed
  have noEscape : ∀ escape ∈ (none : Option (Cursor × Nat)),
      s.held ≠ none ∨ ∃ x ∈ escape.1.before, isGap x = true := by simp
  refine onDelimiter_cases ?passed ?escaped ?text ?value ?quoted
  case passed => exact fun long => absurd ignores.noLong long
  case escaped =>
    intro start _ escape
    exact cleared.ignores_placeText ignores.values noEscape (ignores.escaped _ escape) _ _ _ _
  case value => exact fun _ kept => absurd plainLast kept
  case quoted => simp [noQuote]
  case text =>
    intro _ unescaped
    exact cleared.ignores_placeText ignores.values noEscape (apart unescaped) _ _ _ _

/-- A token that opens nothing is ignored, if no backslash stands behind a visible character. -/
theorem step (plainLast : ctx.config.plainLast = none) {kind : TokenKind} {text rest : List Char}
    (split : c.rest = text ++ rest) (front : TokenFront ctx.patterns.delimiters kind text rest)
    (found : tokenAt? ctx.patterns.delimiters c.rest = some (kind, text.length))
    (noQuote : ∀ x ∈ text ++ rest, ctx.patterns.delimiters.isQuoteChar x = false)
    (spaced : EscapesApart (text ++ rest))
    (undeclared : ∀ escapes opening name, kind = .marker escapes opening name →
      ctx.table.option? name = none) :
    Ignores ctx m last (c.past text rest) (s.step ctx (.reading kind c text rest)) := by
  have quiet := ignores.congr false
  have behind : ∀ x ∈ rest, ctx.patterns.delimiters.isQuoteChar x = false :=
    fun x member => noQuote x (List.mem_append_right text member)
  refine step_cases ?marker ?other
  case marker =>
    intro escapes opening name marker _
    obtain rfl : kind = .marker escapes opening name := marker
    rw [quiet.toFull.onMarker_eq _ escapes opening (undeclared _ _ _ rfl)]
    exact quiet.toFull.ignores_placeText quiet.values quiet.escaped
      (quiet.apart split front found (by simp) (by simp)) _ _ _ _
  case other =>
    intro other
    refine onOther_cases ?line ?passed ?backslashes ?delimiter ?word
    case line =>
      intro named opened
      rw [(openSingle?_eq_some.1 opened).1] at quiet
      exact absurd quiet.noNamed (by simp)
    case passed =>
      rintro (slot | named | long | lineFeeds | ⟨escapes, opening, name, marker⟩)
      · exact absurd quiet.noLast slot
      · exact absurd quiet.noNamed named
      · exact absurd quiet.noLong long
      · obtain rfl : kind = .lineFeeds := lineFeeds
        obtain ⟨x, member, before⟩ := Cursor.exists_before c front.ne_nil rest
        have gap : isGap x = true := by
          cases front with
          | lineFeeds _ _ =>
              rw [List.eq_of_mem_replicate member]
              decide
        exact ⟨quiet.toFull, quiet.values, quiet.escaped, .inr (.inl ⟨x, before, gap⟩)⟩
      · exact absurd marker (other quiet.noLong escapes opening name)
    case backslashes =>
      intro count same _
      obtain rfl : kind = .backslashes count := same
      exact quiet.onBackslashes (.reading _ c text rest) front rfl behind
        (quiet.apart split front found (by simp) (by simp)) _
    case delimiter =>
      intro x same _
      obtain rfl : kind = .delimiter x := same
      have noQuote' : Quote.ofChar? x = none := by
        cases front with
        | delimiter isDelimiter =>
            exact ofChar?_eq_none_of_isDelimiterChar isDelimiter (noQuote x (by simp))
      exact quiet.onDelimiter plainLast (.reading _ c text rest) noQuote'
        (fun bare => quiet.apart split front found (by simp) fun _ _ => bare) _
    case word =>
      intro same _ _
      obtain rfl : kind = .word := same
      exact quiet.onWord (.reading _ c text rest) (spaced.hidden_behind_word front behind)
        (quiet.apart split front found (by simp) (by simp)) _

theorem sweep (plainLast : ctx.config.plainLast = none)
    (noQuote : ∀ x ∈ c.rest, ctx.patterns.delimiters.isQuoteChar x = false)
    (spaced : EscapesApart c.rest)
    (undeclared : ∀ t ∈ tokensAt ctx.patterns.delimiters c, ∀ escapes opening name,
      t.kind = .marker escapes opening name → ctx.table.option? name = none) :
    (s.sweep ctx c).values = m := by
  induction c, s using sweep_induction ctx with
  | finish c s ends =>
      rcases ends with ends | stops
      · rw [sweep_end ends]
        exact ignores.values
      · rw [sweep_of_stops stops]
        exact ignores.values
  | skip c s x rest split gap none goes ih =>
      rw [split] at noQuote spaced
      rw [tokensAt_skip split none] at undeclared
      rw [sweep_skip split none]
      have behind : Ignores ctx m last (c.past [x] rest) s :=
        ⟨ignores.toFull, ignores.values, ignores.escaped, .inr (.inl ⟨x, rfl, gap⟩)⟩
      exact ih behind (List.forall_mem_cons.1 noQuote).2 (spaced.suffix [x] rfl) undeclared
  | token c s kind text rest split front found goes ih =>
      have next := ignores.step plainLast split front found
      rw [split] at noQuote spaced
      rw [tokensAt_token split found, List.forall_mem_cons] at undeclared
      rw [sweep_token split found goes]
      exact ih (next noQuote spaced undeclared.1) (List.forall_mem_append.1 noQuote).2
        (spaced.suffix text rfl) undeclared.2

end Ignores

/-! ## Texts for all slots -/

/-- Texts between quotes fill the slots in order. -/
theorem sweep_enclosedAll {q : Quote} (reads : ReadsQuotes ctx q)
    (distinct : (ctx.table.slots.map (·.name)).Nodup) {done : List Filling}
    {names texts : List String} {rest : List Char} {c : Cursor} (closed : Bool)
    (slots : ctx.table.slots.map (·.name) = done.map (·.name) ++ names)
    (enough : texts.length = names.length) (nonempty : ∀ text ∈ texts, text ≠ "")
    (split : c.rest = enclosedAll q texts ++ rest) :
    ∃ (done' : List Filling) (closed' : Bool),
      done'.map (fun f => (f.name, f.value)) =
        done.map (fun f => (f.name, f.value)) ++ names.zip texts ∧
      ({ filled ctx done with justClosed := closed } : State).sweep ctx c =
        ({ filled ctx done' with justClosed := closed' } : State).sweep ctx
          (c.past (enclosedAll q texts) rest) := by
  induction texts generalizing done names c closed with
  | nil =>
      have here : c.past (enclosedAll q []) rest = c := Cursor.past_nil_of_rest split
      exact ⟨done, closed, by simp, by rw [here]⟩
  | cons text texts ih =>
      obtain ⟨name, names, rfl⟩ : ∃ name more, names = name :: more := by
        cases names with
        | nil => simp at enough
        | cons name more => exact ⟨name, more, rfl⟩
      have split' : c.rest = enclosed q text ++ ' ' :: (enclosedAll q texts ++ rest) := by
        rw [split]
        simp [enclosedAll]
      have head : (' ' :: (enclosedAll q texts ++ rest)).head? ≠ some q.char := by
        cases q <;> simp [Quote.char]
      obtain ⟨option, slot, rfl⟩ :
          ∃ option, ctx.table.slots[done.length]? = some option ∧ option.name = name := by
        have here : (ctx.table.slots.map (·.name))[done.length]? = some name := by simp [slots]
        simpa using here
      have fresh : option.name ∉ done.map (·.name) := by
        intro old
        rw [slots, List.nodup_append] at distinct
        exact distinct.2.2 _ old _ List.mem_cons_self rfl
      obtain ⟨start, stop, first⟩ := sweep_enclosed reads
        (s := { filled ctx done with justClosed := closed }) ⟨rfl, rfl, rfl, rfl, rfl⟩
        (nonempty text List.mem_cons_self) split' head
      have slots' : ctx.table.slots.map (·.name) =
          (done ++ [(⟨option.name, text, ⟨start.offset, stop⟩⟩ : Filling)]).map (·.name) ++
            names := by
        simp [slots]
      have placed := place_filled slot fresh true text start stop
      have others := ih (c := (c.past (enclosed q text)
        (' ' :: (enclosedAll q texts ++ rest))).past [' '] (enclosedAll q texts ++ rest)) true
        slots' (by simpa using enough)
        (fun text member => nonempty text (List.mem_cons_of_mem _ member))
        rfl
      obtain ⟨done', closed', values, others⟩ := others
      refine ⟨done', closed', by simp [values], ?_⟩
      rw [first, placed, sweep_blank rfl, others]
      simp [Cursor.past_past, enclosedAll]

/-- Where every slot has a value, the last one was given last. -/
theorem filled_full {done : List Filling} {texts : List String} {slot : OptionDecl} (closed : Bool)
    (values : done.map (fun f => (f.name, f.value)) = (ctx.table.slots.map (·.name)).zip texts)
    (enough : texts.length = ctx.table.slots.length)
    (last : ctx.table.slots.getLast? = some slot) :
    Full ctx ⟨(ctx.table.slots.map (·.name)).zip texts⟩ slot.name
      { filled ctx done with justClosed := closed } := by
  have names : done.map (·.name) = ctx.table.slots.map (·.name) := by
    have fronts := congrArg (List.map Prod.fst) values
    rwa [List.map_map, List.map_fst_zip (by simp [enough])] at fronts
  have count : done.length = ctx.table.slots.length := by
    simpa using congrArg List.length names
  have lastName : done.getLast?.map (·.name) = some slot.name := by
    rw [← List.getLast?_map, names, List.getLast?_map, last, Option.map_some]
  refine ⟨?_, rfl, rfl, rfl, lastName, ?_, ?_⟩
  · simp [freeSlot?, filled, count]
  · rw [Entries.keys, List.map_fst_zip (by simp [enough])]
    exact List.mem_map_of_mem (List.mem_of_getLast? last)
  · rw [← values]
    exact .refl _ _

theorem getLast?_enclosedAll (q : Quote) {texts : List String} (filled : texts ≠ []) :
    (enclosedAll q texts).getLast? = some ' ' := by
  obtain ⟨front, text, rfl⟩ : ∃ front text, texts = front ++ [text] :=
    ⟨_, _, (List.dropLast_concat_getLast filled).symm⟩
  simp [enclosedAll, List.getLast?_append]

theorem closeAll_sweep_surplus {q : Quote} {texts : List String} {rest : List Char}
    {slot : OptionDecl} (reads : ReadsQuotes ctx q)
    (distinct : (ctx.table.slots.map (·.name)).Nodup)
    (last : ctx.table.slots.getLast? = some slot)
    (enough : texts.length = ctx.table.slots.length) (nonempty : ∀ text ∈ texts, text ≠ "")
    (noQuote : ∀ c ∈ rest, ctx.patterns.delimiters.isQuoteChar c = false)
    (opensNone : OpensNone ctx.table ctx.patterns.delimiters rest)
    (content : ctx.content = enclosedAll q texts ++ rest) :
    (⟨(ctx.table.slots.map (·.name)).zip texts⟩ : Entries String).Lengthens slot.name
        (((initial ctx).sweep ctx (Cursor.start ctx.content)).closeAll ctx).values ∧
      (EscapesApart rest →
        (((initial ctx).sweep ctx (Cursor.start ctx.content)).closeAll ctx).values =
          ⟨(ctx.table.slots.map (·.name)).zip texts⟩) := by
  have slots : ctx.table.slots.map (·.name) =
      ([] : List Filling).map (·.name) ++ ctx.table.slots.map (·.name) := rfl
  obtain ⟨done, closed, values, swept⟩ := sweep_enclosedAll reads distinct
    (c := Cursor.start ctx.content) false slots (by simpa using enough) nonempty content
  have full := filled_full closed values enough last
  obtain ⟨c, here⟩ : ∃ c, (Cursor.start ctx.content).past (enclosedAll q texts) rest = c :=
    ⟨_, rfl⟩
  have behind : c.rest = rest := by rw [← here]; rfl
  have before : c.before = some ' ' := by
    have filled : texts ≠ [] := by
      rintro rfl
      rw [List.length_nil, eq_comm, List.length_eq_zero_iff] at enough
      simp [enough] at last
    rw [← here, Cursor.past, getLast?_enclosedAll q filled]
    rfl
  rw [← behind] at noQuote opensNone
  have undeclared := fun t member => opensNone.tokensAt (t := t) member
  have start : (initial ctx).sweep ctx (Cursor.start ctx.content) =
      ({ filled ctx done with justClosed := closed } : State).sweep ctx c := by
    rw [initial_eq_filled, ← here]
    exact swept
  have full' := full.sweep reads.plainLast noQuote undeclared
  rw [start, full'.closeAll]
  refine ⟨full'.longer, fun spaced => ?_⟩
  have ignores : Ignores ctx ⟨(ctx.table.slots.map (·.name)).zip texts⟩ slot.name c
      { filled ctx done with justClosed := closed } :=
    ⟨full, congrArg Entries.mk values, by rintro escape ⟨⟩,
      .inr (.inl ⟨' ', before, by decide⟩)⟩
  rw [← behind] at spaced
  exact ignores.sweep reads.plainLast noQuote spaced undeclared

end State

end Parse

open Parse

namespace Command

variable {command : Command}

/-- Where quoted texts fill all slots, the text behind them may only be added to the last value,
and it is not if no backslash in it stands behind a visible character. -/
theorem parse_surplus (shared : Config) {q : Quote} {slot : OptionDecl} {texts : List String}
    {rest : String}
    (distinct : ((Table.ofCommand command).slots.map (·.name)).Nodup)
    (noChoices : ∀ t ∈ (Table.ofCommand command).choices,
      t.option ∉ (Table.ofCommand command).slots.map (·.name))
    (enabled : ((Table.ofCommand command).configFor shared).delimiters.hasQuote q = true)
    (plainLast : ((Table.ofCommand command).configFor shared).plainLast = none)
    (goesOn : ((Table.ofCommand command).configFor shared).stopWhenFilled = false)
    (last : (Table.ofCommand command).slots.getLast? = some slot)
    (enough : texts.length = (Table.ofCommand command).slots.length)
    (nonempty : ∀ text ∈ texts, text ≠ "")
    (noQuote : ∀ c ∈ rest.toList,
      ((Table.ofCommand command).configFor shared).delimiters.isQuoteChar c = false)
    (opensNone : OpensNone (Table.ofCommand command)
      ((Table.ofCommand command).configFor shared).delimiters rest.toList) :
    (⟨((Table.ofCommand command).slots.map (·.name)).zip texts⟩ : Entries String).Lengthens
        slot.name
        (command.parse shared (String.ofList (enclosedAll q texts ++ rest.toList)) none).values ∧
      (EscapesApart rest.toList →
        (command.parse shared (String.ofList (enclosedAll q texts ++ rest.toList)) none).values =
          ⟨((Table.ofCommand command).slots.map (·.name)).zip texts⟩) := by
  rw [Command.parse]
  generalize (Table.ofCommand command).configFor shared = config
    at enabled plainLast goesOn noQuote opensNone ⊢
  have counted : 0 < (Table.ofCommand command).optionCount :=
    Table.optionCount_pos_of_slot (List.mem_of_getLast? last)
  rw [parse_values counted, String.toList_ofList, State.run_none]
  have reads : ReadsQuotes
      ⟨enclosedAll q texts ++ rest.toList, Table.ofCommand command, config, .ofConfig config⟩ q :=
    ⟨enabled, plainLast, goesOn⟩
  obtain ⟨longer, same⟩ :=
    State.closeAll_sweep_surplus reads distinct last enough nonempty noQuote opensNone rfl
  have unmatched : ∀ t ∈ (Table.ofCommand command).choices, t.option ∉
      (⟨((Table.ofCommand command).slots.map (·.name)).zip texts⟩ : Entries String).keys := by
    rw [Entries.keys, List.map_fst_zip (by simp [enough])]
    exact noChoices
  rw [← longer.keys] at unmatched
  rw [matchChoices_of_notMem unmatched]
  exact ⟨longer, same⟩

/-- Words, markers of no option, and a backslash behind a blank. -/
theorem parse_surplus_words :
    ((⟨"say", [{ name := "what" }, { name := "to" }], none⟩ : Command).parse {}
      (String.ofList (enclosedAll .double ["a b", "c"] ++ "go --on \\-x b:".toList)) none).values =
      ⟨[("what", "a b"), ("to", "c")]⟩ := by
  have chars : "go --on \\-x b:".toList =
      ['g', 'o', ' ', '-', '-', 'o', 'n', ' ', '\\', '-', 'x', ' ', 'b', ':'] := by decide +kernel
  have kinds : (tokens {} "go --on \\-x b:".toList).map (·.kind) =
      [.word, .marker 0 (.hyphens 2) "on", .marker 1 (.hyphens 1) "x", .marker 0 .colon "b"] := by
    decide +kernel
  have opensNone : OpensNone (Table.ofCommand
      ⟨"say", [{ name := "what" }, { name := "to" }], none⟩) {} "go --on \\-x b:".toList := by
    intro t member escapes opening name marker
    have kind := List.mem_map_of_mem (f := Token.kind) member
    rw [marker, kinds] at kind
    simp only [List.mem_cons, TokenKind.marker.injEq, reduceCtorEq, List.not_mem_nil, or_false,
      false_or] at kind
    rcases kind with ⟨-, -, rfl⟩ | ⟨-, -, rfl⟩ | ⟨-, -, rfl⟩ <;> rfl
  have spaced : EscapesApart "go --on \\-x b:".toList := by
    rw [chars]
    intro front c back split
    have behind := (List.mem_tails _ _).2 ⟨front, split.symm⟩
    obtain ⟨rfl, -⟩ : c = ' ' ∧ back = ['-', 'x', ' ', 'b', ':'] := by simpa using behind
    exact .inl (by decide)
  have plain : "go --on \\-x b:".toList.all (fun c => !({} : Delimiters).isQuoteChar c) = true := by
    decide +kernel
  have noQuote : ∀ c ∈ "go --on \\-x b:".toList, ({} : Delimiters).isQuoteChar c = false :=
    fun c inside => by simpa using List.all_eq_true.1 plain c inside
  have last :
      (Table.ofCommand ⟨"say", [{ name := "what" }, { name := "to" }], none⟩).slots.getLast? =
        some { name := "to" } := rfl
  exact (parse_surplus {} (q := .double) (by decide +kernel) (by simp [Table.ofCommand]) rfl rfl rfl
    last rfl (by decide +kernel) noQuote opensNone).2 spaced

/-- A backslash behind a word that was dropped is added to the last value. -/
theorem not_parse_surplus_backslash :
    ¬ ∀ (command : Command) (texts : List String) (rest : String),
      (Table.ofCommand command).configFor {} = {} →
      (command.options.map (·.name)).Nodup → (∀ o ∈ command.options, o.choices = []) →
      0 < (Table.ofCommand command).slots.length →
      texts.length = (Table.ofCommand command).slots.length →
      (∀ text ∈ texts, text ≠ "" ∧ '"' ∉ text.toList ∧ '\\' ∉ text.toList) →
      (∀ c ∈ rest.toList, ({} : Delimiters).isQuoteChar c = false) →
      OpensNone (Table.ofCommand command) {} rest.toList →
      (command.parse {} (String.ofList (enclosedAll .double texts ++ rest.toList)) none).values =
        ⟨((Table.ofCommand command).slots.map (·.name)).zip texts⟩ := by
  intro always
  have kinds : (tokens {} "a\\b".toList).map (·.kind) = [.word, .backslashes 1, .word] := by
    decide +kernel
  have opensNone : OpensNone (Table.ofCommand ⟨"say", [{ name := "what" }], none⟩) {}
      "a\\b".toList := by
    intro t member escapes opening name marker
    have kind := List.mem_map_of_mem (f := Token.kind) member
    rw [marker, kinds] at kind
    simp at kind
  have plain : "a\\b".toList.all (fun c => !({} : Delimiters).isQuoteChar c) = true := by
    decide +kernel
  have kept := always ⟨"say", [{ name := "what" }], none⟩ ["t"] "a\\b" rfl (by decide +kernel)
    (by decide +kernel) (by decide +kernel) rfl (by decide +kernel)
    (fun c inside => by simpa using List.all_eq_true.1 plain c inside) opensNone
  have found : ((⟨"say", [{ name := "what" }], none⟩ : Command).parse {}
      (String.ofList (enclosedAll .double ["t"] ++ "a\\b".toList)) none).values =
      ⟨[("what", "t\\b")]⟩ := rfl
  rw [found] at kept
  exact absurd (congrArg Entries.toList kept) (by decide +kernel)

end Command

end ChatArgs
