import ChatArgs.Proofs.Parse.OneFamily

/-!
# What decides the family of markers

If the markers of one family only may open options, the first marker of an option outside of long
texts decides which family it is. It does so too where backslashes make it text. So the family is
one of which no marker has opened an option exactly as long as the first marker was escaped and no
marker with hyphens that is not escaped came behind it.
-/

namespace ChatArgs

namespace Parse

open Text

/-- A marker of an option, with the number of backslashes in front of it. -/
structure DeclaredMarker where
  escapes : Nat
  opening : Opening
deriving DecidableEq

namespace DeclaredMarker

def family (m : DeclaredMarker) : Family :=
  m.opening.family

/-- The marker is text: it has hyphens and an odd number of backslashes in front of them. -/
def Escaped (m : DeclaredMarker) : Prop :=
  m.family = .hyphen ∧ m.escapes % 2 = 1

instance (m : DeclaredMarker) : Decidable m.Escaped :=
  inferInstanceAs (Decidable (_ ∧ _))

end DeclaredMarker

namespace State

/-- The marker of an option that is read with the token; in a long text there is none. -/
def declared? (table : Table) (s : State) (t : Token) : Option DeclaredMarker :=
  match t.kind, s.longText with
  | .marker escapes opening name, none => (table.option? name).map fun _ => ⟨escapes, opening⟩
  | _, _ => none

def Transition.declared? (table : Table) (tr : Transition) : Option DeclaredMarker :=
  tr.before.declared? table tr.token

def declaredMarkers (table : Table) (trs : List Transition) : List DeclaredMarker :=
  trs.filterMap (·.declared? table)

variable {ctx : Context} {s : State}

/-! ## One step -/

/-- The token is a marker that opens an option, and the option starts behind it. -/
structure StepOpens (ctx : Context) (s : State) (t : Token) (m : DeclaredMarker) : Prop where
  read : s.declared? ctx.table t = some m
  plain : ¬ m.Escaped
  family : (s.step ctx t).family = some m.family
  opened : ∃ named, (s.step ctx t).named = some named ∧ named.start = t.stop ∧
    named.family = m.family

/-- The token opens no option: if it is a marker of one, it is escaped or of the other family. -/
structure StepKeeps (ctx : Context) (s : State) (t : Token) : Prop where
  marker : ∀ m, s.declared? ctx.table t = some m → (s.step ctx t).family = some m.family →
    m.Escaped
  named : ∀ named, (s.step ctx t).named = some named → s.named = some named

theorem declaredMarker_family (s : State) (t : Token) (escapes : Nat) (opening : Opening)
    (option : OptionDecl) (name : String) (justClosed : Bool) :
    (s.declaredMarker ctx t escapes opening option name justClosed).family = s.family := by
  have opens (family : Family) :
      (s.openNamed ctx t escapes family option justClosed).family = s.family := by
    obtain ⟨closed, puts, same⟩ := exists_openNamed s t escapes family option justClosed
    rw [same]
    exact puts.opensNothing.family
  unfold declaredMarker
  split
  · split
    · split
      · exact (puts_placeText ..).opensNothing.family
      · rfl
    · exact opens _
  · exact opens _

theorem declaredMarker_opens (t : Token) (m : DeclaredMarker) (option : OptionDecl) (name : String)
    (justClosed : Bool) :
    let s' := s.declaredMarker ctx t m.escapes m.opening option name justClosed
    (¬ m.Escaped ∧ ∃ named, s'.named = some named ∧ named.start = t.stop ∧
        named.family = m.family) ∨
      (m.Escaped ∧ OpensNothing s s') := by
  obtain ⟨escapes, opening⟩ := m
  intro s'
  unfold s' declaredMarker
  cases opening with
  | colon => exact .inl ⟨fun escaped => (nomatch escaped.1), _, rfl, rfl, rfl⟩
  | hyphens count =>
      by_cases odd : escapes % 2 = 1
      · refine .inr ⟨⟨rfl, odd⟩, ?_⟩
        simp only [odd, beq_self_eq_true, if_true]
        split
        · exact (puts_placeText ..).opensNothing
        · exact .refl s
      · refine .inl ⟨fun escaped => odd escaped.2, ?_⟩
        simp only [beq_eq_false_iff_ne.2 odd, Bool.false_eq_true, if_false]
        exact ⟨_, rfl, rfl, rfl⟩

structure StepDecides (ctx : Context) (s : State) (t : Token) : Prop where
  family : (s.step ctx t).family = s.family.or ((s.declared? ctx.table t).map (·.family))
  opens : (∃ m, StepOpens ctx s t m) ∨ StepKeeps ctx s t

namespace StepDecides

variable {t : Token}

theorem of_text (quiet : OpensNothing s (s.step ctx t))
    (other : ∀ m, s.declared? ctx.table t = some m →
      ∃ family, s.family = some family ∧ family ≠ m.family) : StepDecides ctx s t := by
  cases read : s.declared? ctx.table t with
  | none =>
      refine ⟨by simp [read, quiet.family], .inr ⟨fun m known => ?_, quiet.named⟩⟩
      rw [read] at known
      contradiction
  | some m =>
      obtain ⟨family, decided, different⟩ := other m read
      refine ⟨by simp [quiet.family, decided], .inr ⟨fun m' known own => ?_, quiet.named⟩⟩
      obtain rfl := Option.some.inj (read.symm.trans known)
      rw [quiet.family, decided] at own
      exact absurd (Option.some.inj own) different

/-- A marker whose family is decided, by this marker at the latest. -/
theorem of_marker {m : DeclaredMarker} (read : s.declared? ctx.table t = some m)
    (own : s.family.or (some m.family) = some m.family)
    {option : OptionDecl} {name : String}
    (step : s.step ctx t =
      ({ s with justClosed := false, family := some m.family } : State).declaredMarker ctx t
        m.escapes m.opening option name s.justClosed) : StepDecides ctx s t := by
  have family : (s.step ctx t).family = some m.family := by
    rw [step]
    exact declaredMarker_family ..
  refine ⟨by rw [family, read, Option.map_some, own], ?_⟩
  rcases declaredMarker_opens t m option name s.justClosed with ⟨plain, opened⟩ | ⟨escaped, quiet⟩
  · exact .inl ⟨m, read, plain, family, by rwa [step]⟩
  · refine .inr ⟨fun m' known _ => ?_, fun named opened => ?_⟩
    · obtain rfl := Option.some.inj (read.symm.trans known)
      exact escaped
    · rw [step] at opened
      exact quiet.named named opened

end StepDecides

theorem step_decides_marker (oneFamily : ctx.config.oneFamily = true) {s : State} {t : Token}
    {escapes : Nat} {opening : Opening} {name : String} {option : OptionDecl}
    (kind : t.kind = .marker escapes opening name) (noLong : s.longText = none)
    (found : ctx.table.option? name = some option) : StepDecides ctx s t := by
  have read : s.declared? ctx.table t = some ⟨escapes, opening⟩ := by
    simp [declared?, kind, noLong, found]
  have step : s.step ctx t =
      ({ s with justClosed := false } : State).onMarker ctx t escapes opening name
        s.justClosed := by
    simp only [State.step, kind, noLong]
  simp only [onMarker, found, oneFamily, if_true] at step
  cases decided : s.family with
  | none =>
      refine @StepDecides.of_marker ctx s t ⟨escapes, opening⟩ read
        (by rw [decided]; rfl) option name ?_
      rw [step]
      simp only [decided, DeclaredMarker.family]
  | some family =>
      by_cases same : family = opening.family
      · refine @StepDecides.of_marker ctx s t ⟨escapes, opening⟩ read
          (by rw [decided, same]; rfl) option name ?_
        rw [step]
        simp only [decided, same, beq_self_eq_true, if_true, DeclaredMarker.family]
      · have text : s.step ctx t =
            ({ s with justClosed := false } : State).literalMarker ctx t s.justClosed := by
          rw [step]
          simp only [decided, beq_eq_false_iff_ne.2 same, Bool.false_eq_true, if_false]
        have quiet : OpensNothing s { s with justClosed := false } :=
          ⟨rfl, fun _ opened => opened, rfl⟩
        refine .of_text (text ▸ quiet.trans (puts_literalMarker ..).opensNothing) ?_
        intro m read'
        obtain rfl := Option.some.inj (read.symm.trans read')
        exact ⟨family, decided, same⟩

theorem step_decides (oneFamily : ctx.config.oneFamily = true) (s : State) (t : Token) :
    StepDecides ctx s t := by
  have quiet : OpensNothing s { s with justClosed := false } :=
    ⟨rfl, fun _ opened => opened, rfl⟩
  have other (noMarker : s.declared? ctx.table t = none)
      (opens : OpensNothing s (s.step ctx t)) : StepDecides ctx s t :=
    .of_text opens fun m read => by simp [noMarker] at read
  cases kind : t.kind with
  | marker escapes opening name =>
      cases long : s.longText with
      | some text =>
          apply other
          · simp [declared?, kind, long]
          · have step : s.step ctx t =
                ({ s with justClosed := false } : State).onOther ctx t s.justClosed := by
              simp only [State.step, kind, long]
            rw [step]
            exact quiet.trans (writes_onOther ..).opensNothing
      | none =>
          cases found : ctx.table.option? name with
          | none =>
              apply other
              · simp [declared?, kind, long, found]
              · have step : s.step ctx t =
                    ({ s with justClosed := false } : State).literalMarker ctx t
                      s.justClosed := by
                  simp only [State.step, kind, long, onMarker, found]
                rw [step]
                exact quiet.trans (puts_literalMarker ..).opensNothing
          | some option => exact step_decides_marker oneFamily kind long found
  | _ =>
      apply other
      · simp [declared?, kind]
      · simp only [step, kind]
        exact quiet.trans (writes_onOther ..).opensNothing

/-! ## A run -/

/-- The first marker of an option decides the family, unless it was decided before. -/
theorem family_behind (oneFamily : ctx.config.oneFamily = true) {ts : List Token}
    {front back : List Transition} (split : s.transitions ctx ts = front ++ back) :
    (s.behind front).family =
      s.family.or ((declaredMarkers ctx.table front).head?.map (·.family)) := by
  induction front generalizing s ts with
  | nil => simp [declaredMarkers]
  | cons tr front ih =>
      cases ts with
      | nil => simp [transitions] at split
      | cons t ts =>
          rw [transitions] at split
          split at split
          · simp at split
          · obtain ⟨rfl, later⟩ := List.cons.inj split
            rw [behind_cons, ih later, (step_decides oneFamily s t).family]
            cases read : s.declared? ctx.table t with
            | none => simp [declaredMarkers, Transition.declared?, read]
            | some m =>
                simp only [declaredMarkers, Transition.declared?, read, List.filterMap_cons,
                  List.head?_cons, Option.map_some, Option.or_assoc, Option.some_or]

/-- An option that is open begins in front of the end of every later token. -/
theorem named_start_lt (oneFamily : ctx.config.oneFamily = true) (d : Delimiters) (c : Cursor)
    (known : ∀ named, s.named = some named → named.start.offset ≤ c.offset) :
    ∀ tr ∈ s.transitions ctx (tokensAt d c), ∀ named, tr.before.named = some named →
      named.start.offset < tr.token.stop.offset := by
  induction c using tokensAt_induction d generalizing s with
  | finish c ends => simp [tokensAt_end ends, transitions]
  | skip c x rest split _ none ih =>
      rw [tokensAt_skip split none]
      exact ih fun named opened => (known named opened).trans (by simp)
  | token c kind text rest split front found ih =>
      have filled := byteLength_pos front.ne_nil
      rw [tokensAt_token split found, transitions]
      split
      · simp
      · refine List.forall_mem_cons.2 ⟨fun named opened => ?_, ih fun named opened => ?_⟩
        · have before := known named opened
          simp only [Token.reading, Cursor.past_offset]
          omega
        · rcases (step_decides oneFamily s (.reading kind c text rest)).opens with
            ⟨m, opens⟩ | keeps
          · obtain ⟨named', opened', start, -⟩ := opens.opened
            obtain rfl := Option.some.inj (opened.symm.trans opened')
            rw [start]
            exact Nat.le_refl _
          · have before := known named (keeps.named named opened)
            rw [Cursor.past_offset]
            omega

/-- A step opens an option exactly if a marker is read that is not escaped and of the family that
may open options. -/
theorem opens_iff (oneFamily : ctx.config.oneFamily = true) {tr : Transition}
    (step : tr.after = tr.before.step ctx tr.token)
    (ahead : ∀ named, tr.before.named = some named →
      named.start.offset < tr.token.stop.offset) (family : Family) :
    (∃ named, tr.Opens named ∧ named.family = family) ↔
      ∃ m, tr.declared? ctx.table = some m ∧ ¬ m.Escaped ∧ m.family = family ∧
        tr.after.family = some family := by
  rcases (step_decides oneFamily tr.before tr.token).opens with ⟨m, opens⟩ | keeps
  · obtain ⟨opened, known, start, own⟩ := opens.opened
    constructor
    · rintro ⟨named, ⟨after, -⟩, rfl⟩
      obtain rfl := Option.some.inj ((step ▸ after).symm.trans known)
      exact ⟨m, opens.read, opens.plain, own.symm, by rw [step, opens.family, own]⟩
    · rintro ⟨m', read, -, rfl, -⟩
      obtain rfl := Option.some.inj (opens.read.symm.trans read)
      refine ⟨opened, ⟨step ▸ known, fun before => ?_⟩, own⟩
      have behind := ahead opened before
      rw [start] at behind
      exact absurd behind (Nat.lt_irrefl _)
  · constructor
    · rintro ⟨named, ⟨after, fresh⟩, -⟩
      exact absurd (keeps.named named (step ▸ after)) fresh
    · rintro ⟨m, read, plain, rfl, own⟩
      exact absurd (keeps.marker m read (step ▸ own)) plain

/-- What decides the family up to a step of a parse, and what this means for the steps behind. -/
structure FamilyDecided (table : Table) (front : List Transition) (tr : Transition)
    (back : List Transition) : Prop where
  /-- The first marker of an option decides, be it escaped or not. -/
  first : tr.after.family = (declaredMarkers table (front ++ [tr])).head?.map (·.family)
  /-- Markers that are not escaped open options, if they are of the family. -/
  opens : ∀ family, (∃ named, tr.Opens named ∧ named.family = family) ↔
    ∃ m, tr.declared? table = some m ∧ ¬ m.Escaped ∧ m.family = family ∧
      tr.after.family = some family
  /-- A marker of the family has opened an option, unless the first marker was escaped and all
  others with hyphens were too. -/
  opened : (∀ family, tr.after.family = some family →
      ∃ op ∈ front ++ [tr], ∃ named, op.Opens named ∧ named.family = family) ↔
    ∀ m, (declaredMarkers table (front ++ [tr])).head? = some m → m.Escaped →
      ∃ other ∈ declaredMarkers table (front ++ [tr]), other.family = .hyphen ∧ ¬ other.Escaped
  /-- An escaped marker leaves the family as it was; where there was none, later options are opened
  by markers with hyphens only. -/
  escaped : ∀ m, tr.declared? table = some m → m.Escaped →
    tr.after.family = some (tr.before.family.getD .hyphen) ∧
      ∀ later ∈ back, ∀ named, later.Opens named →
        named.family = tr.before.family.getD .hyphen

section

variable {d : Delimiters} {c : Cursor} {front back : List Transition} {tr : Transition}

theorem declaredMarkers_append (table : Table) (front back : List Transition) :
    declaredMarkers table (front ++ back) =
      declaredMarkers table front ++ declaredMarkers table back :=
  List.filterMap_append

theorem mem_declaredMarkers {table : Table} {trs : List Transition} {m : DeclaredMarker} :
    m ∈ declaredMarkers table trs ↔ ∃ op ∈ trs, op.declared? table = some m :=
  List.mem_filterMap

variable (oneFamily : ctx.config.oneFamily = true) (undecided : s.family = none)
  (split : s.transitions ctx (tokensAt d c) = front ++ tr :: back)
include oneFamily undecided split

theorem after_family : tr.after.family =
    (declaredMarkers ctx.table (front ++ [tr])).head?.map (·.family) := by
  rw [List.append_cons] at split
  have decided := family_behind oneFamily split
  rwa [behind_concat, undecided, Option.none_or] at decided

theorem family_of_read {op : Transition} (member : op ∈ front ++ [tr]) {m : DeclaredMarker}
    (read : op.declared? ctx.table = some m) : op.after.family = tr.after.family := by
  obtain ⟨earlier, later, between⟩ := List.append_of_mem member
  have split' : s.transitions ctx (tokensAt d c) = earlier ++ op :: (later ++ back) := by
    rw [split, List.append_cons, between, List.append_assoc, List.cons_append]
  have filled : declaredMarkers ctx.table (earlier ++ [op]) ≠ [] :=
    List.ne_nil_of_mem (mem_declaredMarkers.2 ⟨op, by simp, read⟩)
  rw [after_family oneFamily undecided split, after_family oneFamily undecided split', between,
    List.append_cons earlier op later, declaredMarkers_append _ (earlier ++ [op]),
    List.head?_append_of_ne_nil _ filled]

theorem familyDecided (closed : s.named = none) :
    FamilyDecided ctx.table front tr back := by
  have steps : ∀ op ∈ s.transitions ctx (tokensAt d c),
      op.after = op.before.step ctx op.token := fun op member =>
    (forall_transitions (p := fun _ => True) trivial (fun _ _ _ _ => trivial) op member).2.2
  have opens (op : Transition) (member : op ∈ s.transitions ctx (tokensAt d c)) (family : Family) :
      (∃ named, op.Opens named ∧ named.family = family) ↔
        ∃ m, op.declared? ctx.table = some m ∧ ¬ m.Escaped ∧ m.family = family ∧
          op.after.family = some family :=
    opens_iff oneFamily (steps op member)
      (named_start_lt oneFamily d c (by simp [closed]) op member) family
  have inside (op : Transition) (member : op ∈ front ++ [tr]) :
      op ∈ s.transitions ctx (tokensAt d c) := by
    rw [split, List.append_cons]
    exact List.mem_append_left _ member
  have first := after_family oneFamily undecided split
  have here : tr ∈ front ++ [tr] := by simp
  refine ⟨first, opens tr (inside tr here), ⟨?_, ?_⟩, ?_⟩
  · intro always m head escaped
    rw [head] at first
    obtain ⟨op, member, opened⟩ := always _ first
    obtain ⟨other, read, plain, own, -⟩ := (opens op (inside op member) _).1 opened
    exact ⟨other, mem_declaredMarkers.2 ⟨op, member, read⟩, own.trans escaped.1, plain⟩
  · intro another family decided
    obtain ⟨m, head, own⟩ := Option.map_eq_some_iff.1 (first.symm.trans decided)
    obtain ⟨other, member, own', plain⟩ : ∃ other ∈ declaredMarkers ctx.table (front ++ [tr]),
        other.family = family ∧ ¬ other.Escaped := by
      by_cases escaped : m.Escaped
      · obtain ⟨other, member, hyphen, plain⟩ := another m head escaped
        exact ⟨other, member, by rw [hyphen, ← own, escaped.1], plain⟩
      · exact ⟨m, List.mem_of_head? head, own, escaped⟩
    obtain ⟨op, member', read⟩ := mem_declaredMarkers.1 member
    refine ⟨op, member', (opens op (inside op member') family).2 ⟨other, read, plain, own', ?_⟩⟩
    rw [family_of_read oneFamily undecided split member' read, decided]
  · intro m read escaped
    have after : tr.after.family = some (tr.before.family.getD .hyphen) := by
      have decided := (step_decides oneFamily tr.before tr.token).family
      rw [← steps tr (inside tr here), ← Transition.declared?, read, Option.map_some,
        escaped.1] at decided
      rw [decided]
      cases tr.before.family <;> rfl
    refine ⟨after, fun later member named opened => ?_⟩
    rw [List.append_cons] at split
    obtain ⟨ts, -, rest⟩ := transitions_eq_append split
    rw [behind_concat] at rest
    exact (family_of_opens oneFamily after ts later (rest ▸ member) named opened).2

end

end State

end Parse

open Parse

namespace Command

/-- Where markers of one family only may open options, the first marker of an option decides the
family, be it escaped or not. The family is one of which no marker has opened an option as long as
the first marker was escaped and so were all markers with hyphens behind it. -/
theorem parse_familyDecided {command : Command} {shared : Config}
    (oneFamily : ((Table.ofCommand command).configFor shared).oneFamily = true) (content : String)
    (message : Option Message) :
    ∀ front tr back, command.transitions shared content message = front ++ tr :: back →
      State.FamilyDecided (.ofCommand command) front tr back := by
  intro front tr back split
  unfold transitions at split
  extract_lets table config at split
  split at split
  · simp at split
  · unfold State.runTransitions at split
    split at split
    · simp at split
    · have untouched := State.started_untouched
        ⟨content.toList, table, config, .ofConfig config⟩ message
      exact State.familyDecided oneFamily untouched.family split untouched.named

/-- An escaped marker with hyphens decides the family, and the marker with a colon is text. -/
theorem parse_familyDecided_escaped :
    let command : Command := ⟨"say", [{ name := "x" }, { name := "y" },
      { name := "n", flag := true }, { name := "b", flag := true }], none⟩
    let steps := command.transitions { oneFamily := true } "\\--n y b: v" none
    (∀ tr ∈ steps, tr.after.family = some .hyphen ∧ tr.after.named.isNone = true) ∧
      ∀ front tr back, steps = front ++ tr :: back →
        State.FamilyDecided (.ofCommand command) front tr back :=
  ⟨by decide +kernel, parse_familyDecided rfl _ none⟩

/-- The family can be one of which no marker has opened an option. -/
theorem not_opened_of_family :
    ¬ ∀ (command : Command) (shared : Config) (content : String),
      ((Table.ofCommand command).configFor shared).oneFamily = true →
      ∀ front tr back, command.transitions shared content none = front ++ tr :: back →
      ∀ family, tr.after.family = some family →
        ∃ op ∈ front ++ [tr], ∃ named, op.Opens named ∧ named.family = family := by
  intro always
  let command : Command := ⟨"say", [{ name := "x" }, { name := "y" },
    { name := "n", flag := true }, { name := "b", flag := true }], none⟩
  let steps := command.transitions { oneFamily := true } "\\--n y b: v" none
  have unopened : ∀ tr ∈ steps, tr.after.family = some .hyphen ∧ tr.after.named.isNone = true := by
    decide +kernel
  obtain ⟨tr, back, split⟩ : ∃ tr back, steps = tr :: back :=
    List.exists_cons_of_ne_nil (List.ne_nil_of_length_pos (by decide +kernel))
  obtain ⟨decided, closed⟩ := unopened tr (by simp [split])
  obtain ⟨op, member, named, opens, -⟩ := always command _ _ rfl [] tr back split .hyphen decided
  rw [List.mem_singleton.1 member] at opens
  rw [opens.1] at closed
  simp at closed

end Command

end ChatArgs
