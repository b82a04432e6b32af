import ChatArgs.Proofs.Parse.Appended
import ChatArgs.Proofs.Parse.SlotOrder

/-!
# Words between options that take one value

A word goes to the first slot that no word and no option took before it. The word for the last
slot that is free takes the text behind it along, since that slot stays open; so options that take
one value are named in front of it.
-/

namespace ChatArgs

namespace Parse

open Text

/-! ## Reading items -/

def Progress.free (p : Progress) (slots : List String) : List String :=
  slots.filter fun name => decide (name ∉ p.consumed)

namespace Item

def text : Item → String
  | alone text => text
  | named _ text => text

def isNamed : Item → Bool
  | alone _ => false
  | named _ _ => true

def plain : Item → List Char
  | alone text => text.toList
  | named name text => markerOf name ++ ' ' :: text.toList

def spaced : List (Item × Nat) → List Char
  | [] => []
  | (item, gap) :: items => item.plain ++ (List.replicate gap ' ' ++ spaced items)

/-- What an item adds in front of the text `behind`, which the last free slot takes along. -/
def readBefore (slots : List String) (behind : List Char) (p : Progress) : Item → Progress
  | alone text =>
      match p.free slots with
      | [] => p
      | [name] =>
          ⟨p.values.insert name (String.ofList (trim (text.toList ++ behind))), name :: p.consumed⟩
      | name :: _ => ⟨p.values.insert name text, name :: p.consumed⟩
  | named name text => ⟨p.values.insert name text, name :: p.consumed⟩

def readAll (slots : List String) (p : Progress) : List (Item × Nat) → Progress
  | [] => p
  | (item, gap) :: items =>
      readAll slots (item.readBefore slots (List.replicate gap ' ' ++ spaced items) p) items

def Apart : List (Item × Nat) → Prop
  | [] => True
  | (_, gap) :: items => (items ≠ [] → 0 < gap) ∧ Apart items

/-- Each option is named while some slot is free. -/
def InTime (slots : List String) (p : Progress) : List (Item × Nat) → Prop
  | [] => True
  | (item, gap) :: items =>
      (item.isNamed = true → p.free slots ≠ []) ∧
        InTime slots (item.readBefore slots (List.replicate gap ' ' ++ spaced items) p) items

instance decidableApart : (items : List (Item × Nat)) → Decidable (Apart items)
  | [] => .isTrue trivial
  | (_, gap) :: items =>
      have := decidableApart items
      inferInstanceAs (Decidable ((items ≠ [] → 0 < gap) ∧ Apart items))

instance decidableInTime (slots : List String) :
    (p : Progress) → (items : List (Item × Nat)) → Decidable (InTime slots p items)
  | _, [] => .isTrue trivial
  | p, (item, gap) :: items =>
      have := decidableInTime slots
        (item.readBefore slots (List.replicate gap ' ' ++ spaced items) p) items
      inferInstanceAs (Decidable ((item.isNamed = true → p.free slots ≠ []) ∧
        InTime slots (item.readBefore slots (List.replicate gap ' ' ++ spaced items) p) items))

variable {slots : List String} {p : Progress} {items : List (Item × Nat)}

/-- Where no slot is free, there are words only, and they are passed. -/
theorem InTime.of_full (full : p.free slots = []) (inTime : InTime slots p items) :
    readAll slots p items = p ∧ ∀ pair ∈ items, ∃ text, pair.1 = alone text := by
  induction items with
  | nil => exact ⟨rfl, by simp⟩
  | cons pair items ih =>
      obtain ⟨item, gap⟩ := pair
      obtain ⟨here, later⟩ := inTime
      cases item with
      | alone text =>
          have passed (behind : List Char) : (alone text).readBefore slots behind p = p := by
            rw [readBefore, full]
          rw [passed] at later
          obtain ⟨same, words⟩ := ih later
          refine ⟨?_, List.forall_mem_cons.2 ⟨⟨text, rfl⟩, words⟩⟩
          rw [readAll, passed, same]
      | named name text => exact absurd full (here rfl)

theorem gap_behind {gap : Nat} (apart : items ≠ [] → 0 < gap) :
    ∀ x ∈ (List.replicate gap ' ' ++ spaced items).head?, isGap x = true := by
  cases gap with
  | zero =>
      have none : items = [] := by
        by_contra some
        exact absurd (apart some) (by decide)
      simp [none, spaced]
  | succ gap => exact isGap_of_head rfl _

end Item

theorem Progress.free_of_single {slots : List String} {p : Progress} {name : String}
    (single : p.free slots = [name]) (values : Entries String) :
    (⟨values, name :: p.consumed⟩ : Progress).free slots = [] := by
  rw [free, List.filter_eq_nil_iff]
  intro other slot isFree
  simp only [List.mem_cons, not_or, decide_eq_true_eq] at isFree
  have member : other ∈ p.free slots := List.mem_filter.2 ⟨slot, by simpa using isFree.2⟩
  rw [single, List.mem_singleton] at member
  exact isFree.1 member

namespace State

variable {ctx : Context} {p : Progress} {s : State}

/-! ## Free slots -/

section

variable (taken : s.taken = ctx.table.slots.map fun o => decide (o.name ∈ p.consumed))
include taken

theorem freeSlot_eq_none_iff :
    s.freeSlot? = none ↔ p.free (ctx.table.slots.map (·.name)) = [] := by
  rw [Progress.free, ← List.head?_eq_none_iff, List.head?_filter]
  constructor
  · exact find_of_noFreeSlot taken
  · intro none
    by_contra some
    obtain ⟨slot, free⟩ := Option.ne_none_iff_exists'.1 some
    obtain ⟨option, -, first⟩ := find_of_freeSlot taken free
    rw [none] at first
    exact absurd first (by simp)

/-- The first of the free slots is the one that a parse fills next. -/
theorem exists_slot_of_free {name : String} {others : List String}
    (free : p.free (ctx.table.slots.map (·.name)) = name :: others) :
    ∃ slot option, s.freeSlot? = some slot ∧ ctx.table.slots[slot]? = some option ∧
      option.name = name := by
  have some : s.freeSlot? ≠ none := by
    rw [ne_eq, freeSlot_eq_none_iff taken, free]
    exact List.cons_ne_nil _ _
  obtain ⟨slot, found⟩ := Option.ne_none_iff_exists'.1 some
  obtain ⟨option, declared, first⟩ := find_of_freeSlot taken found
  rw [← List.head?_filter] at first
  rw [Progress.free] at free
  rw [free] at first
  exact ⟨slot, option, found, declared, (Option.some.inj first).symm⟩

theorem remaining_eq_free (count : s.takenCount = s.taken.count true) :
    s.remaining = (p.free (ctx.table.slots.map (·.name))).length := by
  have parts := List.length_eq_countP_add_countP
    (fun o : OptionDecl => decide (o.name ∈ p.consumed)) (l := ctx.table.slots)
  have isTaken : s.takenCount =
      ctx.table.slots.countP fun o => decide (o.name ∈ p.consumed) := by
    rw [count, taken, List.count_eq_countP, List.countP_map]
    congr 1
    funext o
    simp
  have isFree : (p.free (ctx.table.slots.map (·.name))).length =
      ctx.table.slots.countP fun o => decide ¬ decide (o.name ∈ p.consumed) = true := by
    rw [Progress.free, ← List.countP_eq_length_filter, List.countP_map]
    congr 1
    funext o
    simp
  rw [remaining, isTaken, isFree, taken, List.length_map]
  omega

end

/-! ## What is filled is counted -/

/-- Nothing is open and the last slot never was; slots that are taken are counted, and so are flags
that have a value. -/
structure Tracks (ctx : Context) (p : Progress) (s : State) : Prop
    extends Rests ctx p s, Counted ctx s where
  unclosed : s.lastSlotClosed = false
  once : s.filledFlags.Nodup
  flagged : s.filledFlags ⊆ ctx.table.flags.map (·.name)

theorem initial_tracks (ctx : Context) : Tracks ctx {} (initial ctx) :=
  ⟨initial_rests ctx, .initial ctx, rfl, List.nodup_nil, List.nil_subset _⟩

theorem markFilled_flags {option : OptionDecl}
    (flag : option.flag = true → option ∈ ctx.table.flags)
    (once : s.filledFlags.Nodup) (flagged : s.filledFlags ⊆ ctx.table.flags.map (·.name)) :
    (s.markFilled ctx option).filledFlags.Nodup ∧
      (s.markFilled ctx option).filledFlags ⊆ ctx.table.flags.map (·.name) := by
  refine markFilled_cases ⟨once, flagged⟩ (fun isFlag fresh => ?_) fun slot _ => ?_
  · exact ⟨List.nodup_cons.2 ⟨fresh, once⟩,
      List.cons_subset.2 ⟨List.mem_map_of_mem (flag isFlag), flagged⟩⟩
  · rw [take_frame]
    exact ⟨once, flagged⟩

namespace Tracks

variable (tracks : Tracks ctx p s)
include tracks

/-- While a slot is free, the parse goes on. -/
theorem goes (complete : ctx.table.slots.length + ctx.table.flags.length ≤ ctx.table.optionCount)
    (free : p.free (ctx.table.slots.map (·.name)) ≠ []) : s.stops ctx = false := by
  have flags := (List.subperm_of_subset tracks.once tracks.flagged).length_le
  rw [List.length_map] at flags
  have taken : s.takenCount < s.taken.length := by
    apply Nat.lt_of_le_of_ne
    · exact tracks.count ▸ List.count_le_length
    · intro all
      rw [tracks.count, List.count_eq_length] at all
      apply free
      rw [← freeSlot_eq_none_iff tracks.taken, freeSlot?, List.findIdx?_eq_none_iff]
      intro x member
      rw [← all x member]
      rfl
  have unfilled : s.allFilled ctx = false := by
    have slots := tracks.slots
    simp only [allFilled, decide_eq_false_iff_not]
    omega
  rw [stops, unfilled, Bool.and_false]

theorem quiet : Tracks ctx p { s with justClosed := false } :=
  ⟨⟨tracks.values, tracks.taken, tracks.longText, tracks.escape, tracks.held, tracks.named,
    tracks.lastSlot, tracks.family⟩, tracks.toCounted.congr rfl rfl, tracks.unclosed, tracks.once,
    tracks.flagged⟩

theorem locked : Tracks ctx p (({ s with justClosed := false } : State).locked ctx) := by
  have rests := tracks.toRests.locked
  cases lock : ctx.config.oneFamily with
  | false =>
      have same : ({ s with justClosed := false } : State).locked ctx =
          { s with justClosed := false } := by rw [State.locked, lock]; rfl
      rw [same]
      exact tracks.quiet
  | true =>
      have same : ({ s with justClosed := false } : State).locked ctx =
          { s with justClosed := false, family := some .hyphen } := by rw [State.locked, lock]; rfl
      rw [same] at rests ⊢
      exact ⟨rests, tracks.toCounted.congr rfl rfl, tracks.unclosed, tracks.once, tracks.flagged⟩

theorem closedAt (c : Cursor) : Tracks ctx p (s.closedAt ctx c) := by
  have same : s.closedAt ctx c = ({ s with justClosed := false } : State).locked ctx :=
    closeNamed_of_none tracks.locked.named
  rw [same]
  exact tracks.locked

theorem fillNamed (distinct : (ctx.table.slots.map (·.name)).Nodup) (named : Named)
    (known : named.option.flag = true ∧
        (∀ o ∈ ctx.table.slots, o.name ≠ named.option.name) ∨
      named.option.flag = false ∧ ∃ slot, ctx.table.slotOf? named.option.name = some slot)
    (flag : named.option.flag = true → named.option ∈ ctx.table.flags) (text : String)
    (start stop : Nat) :
    Tracks ctx (Item.read (ctx.table.slots.map (·.name)) p (.named named.option.name text))
      (({ s with named := some named } : State).fillNamed ctx named text start stop) := by
  have rests := tracks.toRests.fillNamed distinct named known text start stop
  have counted : Counted ctx ({ s with named := some named } : State) :=
    tracks.toCounted.congr rfl rfl
  have flags := markFilled_flags (s := ({ s with
      named := none
      justClosed := true
      lastFilled := some named.option.name } : State).setValue named.option.name text start stop)
    flag tracks.once tracks.flagged
  refine ⟨rests, (counted.fillNamed named text start stop).2, ?_, flags.1, flags.2⟩
  rw [State.fillNamed, markFilled_frame]
  exact tracks.unclosed

end Tracks

/-! ## One item -/

def FitsPlain (ctx : Context) : Item → Prop
  | .alone text => text.toList ≠ [] ∧ ∀ x ∈ text.toList, isNamePart x = true
  | .named name text => FitsWord ctx name text

section

variable (distinct : (ctx.table.slots.map (·.name)).Nodup)
  (complete : ctx.table.slots.length + ctx.table.flags.length ≤ ctx.table.optionCount)
  (tracks : Tracks ctx p s) {c : Cursor} {rest : List Char}
  (stop : ∀ x ∈ rest.head?, isGap x = true)
include distinct complete tracks stop

theorem Tracks.sweep_named (indexed : ctx.table.Indexed) {name text : String}
    (fits : FitsWord ctx name text) (free : p.free (ctx.table.slots.map (·.name)) ≠ [])
    (split : c.rest = (Item.named name text).plain ++ rest) :
    ∃ s', Tracks ctx (Item.read (ctx.table.slots.map (·.name)) p (.named name text)) s' ∧
      s.sweep ctx c = s'.sweep ctx (c.past (Item.named name text).plain rest) := by
  have tracks' := tracks.closedAt c
  have some : (s.closedAt ctx c).freeSlot? ≠ none := fun none =>
    free ((freeSlot_eq_none_iff tracks'.taken).1 none)
  have awaits : Awaits ctx p (s.closedAt ctx c) :=
    ⟨tracks'.toRests, tracks'.unclosed, tracks'.goes complete free, some⟩
  have split' : c.rest = markerOf name ++ ' ' :: (text.toList ++ rest) := by
    rw [split, Item.plain, List.append_assoc, List.cons_append]
  obtain ⟨named, start, stop', declared, rfl, takes, reads⟩ := sweep_namedWord fits stop split'
    tracks.longText tracks.held tracks.lastSlot tracks.family (tracks.goes complete free) awaits
  exact ⟨_, tracks'.fillNamed distinct named takes.known (indexed.flags _ _ declared) text start
    stop', reads⟩

end

/-! ## A word -/

structure SlotsTaken (s : State) : Prop where
  noSlot : s.freeSlot? = none
  longText : s.longText = none
  held : s.held = none
  named : s.named = none

section

variable (tracks : Tracks ctx p s) {name : String} (text : String) (start : Cursor) (stop : Nat)
include tracks

theorem Tracks.fillSlot_eq {others : List String}
    (free : p.free (ctx.table.slots.map (·.name)) = name :: others) :
    ∃ (slot : Nat) (option : OptionDecl), ctx.table.slots[slot]? = some option ∧
      option.name = name ∧ s.fillSlot ctx text start stop false =
        (({ s with
            lastSlot := if others = [] then some ⟨name, start, start.offset, ""⟩ else none
            lastFilled := some name } : State).setValue name text start.offset stop).take slot := by
  obtain ⟨slot, option, found, declared, rfl⟩ := exists_slot_of_free tracks.taken free
  have last : s.remaining = 1 ↔ others = [] := by
    rw [remaining_eq_free tracks.taken tracks.count, free, List.length_cons, Nat.add_eq_right,
      List.length_eq_zero_iff]
  refine ⟨slot, option, declared, rfl, ?_⟩
  rw [fillSlot_of_freeSlot tracks.held found declared]
  simp [last, tracks.longText, tracks.lastSlot]

variable (distinct : (ctx.table.slots.map (·.name)).Nodup)
include distinct

theorem Tracks.fillSlot_earlier {next : String} {others : List String}
    (free : p.free (ctx.table.slots.map (·.name)) = name :: next :: others) :
    Tracks ctx ⟨p.values.insert name text, name :: p.consumed⟩
      (s.fillSlot ctx text start stop false) := by
  have counted := (tracks.toCounted.fillSlot text start stop false).2
  obtain ⟨slot, option, declared, rfl, fills⟩ := tracks.fillSlot_eq text start stop free
  rw [if_neg (List.cons_ne_nil next others)] at fills
  have taken := take_taken (s := ({ s with
      lastSlot := none
      lastFilled := some option.name } : State).setValue option.name text start.offset stop)
    distinct tracks.taken declared
  rw [fills] at counted ⊢
  rw [take_frame] at taken counted ⊢
  exact ⟨⟨by rw [setValue, tracks.values], taken, tracks.longText, tracks.escape, tracks.held,
    tracks.named, rfl, tracks.family⟩, counted, tracks.unclosed, tracks.once, tracks.flagged⟩

/-- The last slot stays open, and then no slot is free. -/
theorem Tracks.fillSlot_last (free : p.free (ctx.table.slots.map (·.name)) = [name]) :
    SlotsTaken (s.fillSlot ctx text start stop false) ∧
      (s.fillSlot ctx text start stop false).values = p.values.insert name text ∧
      (s.fillSlot ctx text start stop false).lastSlot = some ⟨name, start, start.offset, ""⟩ := by
  obtain ⟨slot, option, declared, rfl, fills⟩ := tracks.fillSlot_eq text start stop free
  have taken := take_taken (s := ({ s with
      lastSlot := some ⟨option.name, start, start.offset, ""⟩
      lastFilled := some option.name } : State).setValue option.name text start.offset stop)
    distinct tracks.taken declared
  rw [if_pos rfl] at fills
  rw [fills]
  rw [take_frame] at taken ⊢
  refine ⟨⟨?_, tracks.longText, tracks.held, tracks.named⟩, by rw [setValue, tracks.values], rfl⟩
  exact (freeSlot_eq_none_iff (p := ⟨p.values, option.name :: p.consumed⟩) taken).2
    (Progress.free_of_single free _)

end

/-! ## Words behind the last slot -/

theorem exists_blank_before {gap : Nat} (positive : 0 < gap) (c : Cursor) (rest : List Char) :
    ∃ x ∈ (c.past (List.replicate gap ' ') rest).before, isGap x = true := by
  obtain ⟨more, rfl⟩ : ∃ more, gap = more + 1 := ⟨gap - 1, by omega⟩
  refine ⟨' ', ?_, by decide⟩
  rw [Cursor.past, List.replicate_succ', List.getLast?_concat]
  rfl

namespace SlotsTaken

variable (taken : SlotsTaken s)
include taken

theorem quiet : SlotsTaken { s with justClosed := false } :=
  ⟨taken.noSlot, taken.longText, taken.held, taken.named⟩

theorem closeAll_eq : s.closeAll ctx = s.closeLastSlot ctx ctx.length [] := by
  have noNamed : (s.closeLastSlot ctx ctx.length []).named = none := by
    rw [closeLastSlot_frame]
    exact taken.named
  rw [State.closeAll_eq taken.longText, closeNamed_of_none noNamed]

theorem closeAll_quiet :
    (({ s with justClosed := false } : State).closeAll ctx).values = (s.closeAll ctx).values := by
  rw [taken.closeAll_eq, taken.quiet.closeAll_eq]
  cases last : s.lastSlot <;> simp [closeLastSlot, last, setValue]

theorem step_word {c : Cursor} {word rest : List Char} (split : c.rest = word ++ rest)
    (stands : s.lastSlot ≠ none ∨ s.lastFilled = none ∨ ∃ x ∈ c.before, isGap x = true) :
    s.step ctx (.reading .word c word rest) = { s with justClosed := false } := by
  by_cases last : s.lastSlot = none
  · rw [State.step_word taken.longText taken.held taken.named last split
      (stands.resolve_left fun some => some last), fillSlot_of_noFreeSlot taken.quiet.noSlot]
  · have opened : s.lastSlot.isSome = true := Option.isSome_iff_ne_none.2 last
    simp [step, onOther, openSingle?, Token.reading, taken.longText, taken.named, opened]

theorem closeAll_sweep {items : List (Item × Nat)}
    (words : ∀ pair ∈ items, ∃ text, pair.1 = .alone text)
    (fits : ∀ pair ∈ items, FitsPlain ctx pair.1) (apart : Item.Apart items) {c : Cursor}
    (stands : items ≠ [] →
      s.lastSlot ≠ none ∨ s.lastFilled = none ∨ ∃ x ∈ c.before, isGap x = true)
    (split : c.rest = Item.spaced items) :
    ((s.sweep ctx c).closeAll ctx).values = (s.closeAll ctx).values := by
  induction items generalizing s c with
  | nil => rw [sweep_end split]
  | cons pair items ih =>
      obtain ⟨item, gap⟩ := pair
      rw [List.forall_mem_cons] at words fits
      obtain ⟨⟨text, rfl⟩, words⟩ := words
      obtain ⟨⟨filled, parts⟩, fits⟩ := fits
      cases goes : s.stops ctx with
      | true => rw [sweep_of_stops goes]
      | false =>
          have split' : c.rest = text.toList ++ (List.replicate gap ' ' ++ Item.spaced items) :=
            split
          rw [sweep_wordToken filled parts (Item.gap_behind apart.1) split' goes,
            taken.step_word split' (stands (List.cons_ne_nil _ _)), sweep_blanks rfl,
            ih taken.quiet words fits apart.2 _ rfl, taken.closeAll_quiet]
          exact fun more => .inr (.inr (exists_blank_before (apart.1 more) _ _))

end SlotsTaken

/-! ## Item after item -/

theorem backslash_notMem_spaced {items : List (Item × Nat)}
    (fits : ∀ pair ∈ items, FitsPlain ctx pair.1) : '\\' ∉ Item.spaced items := by
  induction items with
  | nil => simp [Item.spaced]
  | cons pair items ih =>
      obtain ⟨item, gap⟩ := pair
      rw [List.forall_mem_cons] at fits
      have inItem : '\\' ∉ item.plain := by
        cases item with
        | alone text => exact backslash_notMem_of_nameParts fits.1.2
        | named name text =>
            have word := fits.1
            obtain ⟨-, -, ⟨-, letters⟩, -⟩ := word.item
            simp [Item.plain, markerOf, backslash_notMem_of_nameParts letters,
              backslash_notMem_of_nameParts word.parts]
      simp [Item.spaced, inItem, ih fits.2]

section

variable (distinct : (ctx.table.slots.map (·.name)).Nodup)
  (complete : ctx.table.slots.length + ctx.table.flags.length ≤ ctx.table.optionCount)
include distinct complete

theorem Tracks.sweep_earlierWord (tracks : Tracks ctx p s) {name next text : String}
    {others : List String}
    (free : p.free (ctx.table.slots.map (·.name)) = name :: next :: others)
    (fits : FitsPlain ctx (.alone text)) {c : Cursor} {rest : List Char}
    (stop : ∀ x ∈ rest.head?, isGap x = true)
    (stands : s.lastFilled = none ∨ ∃ x ∈ c.before, isGap x = true)
    (split : c.rest = (Item.alone text).plain ++ rest) :
    ∃ s', Tracks ctx ⟨p.values.insert name text, name :: p.consumed⟩ s' ∧
      s.sweep ctx c = s'.sweep ctx (c.past (Item.alone text).plain rest) := by
  have goes := tracks.goes complete (free ▸ List.cons_ne_nil name (next :: others))
  have split' : c.rest = text.toList ++ rest := split
  refine ⟨_, tracks.quiet.fillSlot_earlier text c (c.past text.toList rest).offset distinct free,
    ?_⟩
  rw [sweep_wordToken fits.1 fits.2 stop split' goes,
    step_word tracks.longText tracks.held tracks.named tracks.lastSlot split' stands,
    String.ofList_toList]
  rfl

/-- The last slot takes the text from its word on. -/
theorem Tracks.closeAll_lastWord (tracks : Tracks ctx p s) {name text : String}
    (free : p.free (ctx.table.slots.map (·.name)) = [name]) {gap : Nat}
    {items : List (Item × Nat)} (words : ∀ pair ∈ items, ∃ text, pair.1 = .alone text)
    (fits : ∀ pair ∈ (.alone text, gap) :: items, FitsPlain ctx pair.1)
    (apart : Item.Apart ((.alone text, gap) :: items)) {c : Cursor}
    (stands : s.lastFilled = none ∨ ∃ x ∈ c.before, isGap x = true)
    (split : c.rest = Item.spaced ((.alone text, gap) :: items))
    (total : c.offset + byteLength c.rest = ctx.length) :
    ((s.sweep ctx c).closeAll ctx).values =
      p.values.insert name (String.ofList (trim c.rest)) := by
  obtain ⟨⟨filled, parts⟩, fits'⟩ := List.forall_mem_cons.1 fits
  have goes := tracks.goes complete (free ▸ List.cons_ne_nil name [])
  have raw : c.textTo ctx.length = c.rest := by
    rw [← total]
    exact Cursor.textTo_eq_rest
  have plain : '\\' ∉ c.rest := split ▸ backslash_notMem_spaced fits
  have split' : c.rest = text.toList ++ (List.replicate gap ' ' ++ Item.spaced items) := split
  obtain ⟨taken, values, last⟩ := tracks.quiet.fillSlot_last text c
    (c.past text.toList (List.replicate gap ' ' ++ Item.spaced items)).offset distinct free
  rw [sweep_wordToken filled parts (Item.gap_behind apart.1) split' goes,
    step_word tracks.longText tracks.held tracks.named tracks.lastSlot split' stands,
    String.ofList_toList, sweep_blanks rfl,
    taken.closeAll_sweep words fits' apart.2 (fun _ => .inl (last ▸ Option.some_ne_none _)) rfl,
    taken.closeAll_eq, closeLastSlot_values last raw plain, values]
  exact congrArg Entries.mk (Entries.put_put ..)

/-- What a parse finds in items with blanks between them is what reading the items finds. -/
theorem Tracks.closeAll_items (indexed : ctx.table.Indexed) (tracks : Tracks ctx p s)
    {items : List (Item × Nat)} (fits : ∀ pair ∈ items, FitsPlain ctx pair.1)
    (apart : Item.Apart items)
    (inTime : Item.InTime (ctx.table.slots.map (·.name)) p items) {c : Cursor}
    (stands : items ≠ [] → s.lastFilled = none ∨ ∃ x ∈ c.before, isGap x = true)
    (split : c.rest = Item.spaced items) (total : c.offset + byteLength c.rest = ctx.length) :
    ((s.sweep ctx c).closeAll ctx).values =
      (Item.readAll (ctx.table.slots.map (·.name)) p items).values := by
  induction items generalizing p s c with
  | nil =>
      rw [sweep_end split, tracks.toRests.closeAll]
      exact tracks.values
  | cons pair items ih =>
      obtain ⟨item, gap⟩ := pair
      have split' : c.rest = item.plain ++ (List.replicate gap ' ' ++ Item.spaced items) := split
      have gapped := Item.gap_behind apart.1
      obtain ⟨fitsFirst, fits'⟩ := List.forall_mem_cons.1 fits
      obtain ⟨here, inTime'⟩ := inTime
      -- The place behind the blanks, for whatever state is reached there.
      have further {p' : Progress} {s' : State} (tracks' : Tracks ctx p' s')
          (inTime' : Item.InTime (ctx.table.slots.map (·.name)) p' items) :
          ((s'.sweep ctx (c.past item.plain (List.replicate gap ' ' ++ Item.spaced items))).closeAll
            ctx).values = (Item.readAll (ctx.table.slots.map (·.name)) p' items).values := by
        rw [sweep_blanks rfl]
        exact ih tracks' fits' apart.2 inTime'
          (fun more => .inr (exists_blank_before (apart.1 more) _ _)) rfl
          ((Cursor.past_total rfl).trans ((Cursor.past_total split').trans total))
      rw [Item.readAll]
      cases item with
      | named name text =>
          obtain ⟨s', tracks', reads⟩ := tracks.sweep_named distinct complete gapped indexed
            fitsFirst (here rfl) split'
          rw [reads]
          exact further tracks' inTime'
      | alone text =>
          have stands := stands (List.cons_ne_nil _ _)
          rw [Item.readBefore] at inTime' ⊢
          cases free : p.free (ctx.table.slots.map (·.name)) with
          | nil =>
              rw [free] at inTime'
              obtain ⟨same, words⟩ := inTime'.of_full free
              have taken : SlotsTaken s :=
                ⟨(freeSlot_eq_none_iff tracks.taken).2 free, tracks.longText, tracks.held,
                  tracks.named⟩
              rw [taken.closeAll_sweep (List.forall_mem_cons.2 ⟨⟨text, rfl⟩, words⟩) fits apart
                (fun _ => .inr stands) split, tracks.toRests.closeAll, same]
              exact tracks.values
          | cons name others =>
              cases others with
              | nil =>
                  rw [free] at inTime'
                  obtain ⟨same, words⟩ := inTime'.of_full (Progress.free_of_single free _)
                  rw [tracks.closeAll_lastWord distinct complete free words fits apart stands split
                    total, same, split]
                  rfl
              | cons next others =>
                  rw [free] at inTime'
                  obtain ⟨s', tracks', reads⟩ := tracks.sweep_earlierWord distinct complete free
                    fitsFirst gapped stands split'
                  rw [reads]
                  exact further tracks' inTime'

end

end State

end Parse

open Parse Text

namespace Command

variable {command : Command} {config : Config}

theorem fitsPlain (distinct : (command.options.map (·.name)).Nodup) {content : List Char}
    {item : Item} (fits : item.Fits command config)
    (plain : ∀ x ∈ item.text.toList, x.isAlphanum = true) :
    State.FitsPlain ⟨content, Table.ofCommand command, config, .ofConfig config⟩ item := by
  have parts : ∀ x ∈ item.text.toList, isNamePart x = true := fun x inside =>
    isNamePart_of_isAlphanum (plain x inside)
  cases item with
  | alone text => exact ⟨fun empty => fits (String.toList_eq_nil_iff.1 empty), parts⟩
  | named name text => exact ⟨fitsItem distinct fits, parts⟩

/-- Words and options that take one value are read one by one, as long as every option is named
while some slot is free. -/
theorem parse_spacedItems (shared : Config) (message : Option Message) (front : Nat)
    {items : List (Item × Nat)} (distinct : (command.options.map (·.name)).Nodup)
    (noChoices : (Table.ofCommand command).choices = [])
    (noReply : ((Table.ofCommand command).configFor shared).replyFilling = none ∨ message = none)
    (fits : ∀ pair ∈ items, pair.1.Fits command ((Table.ofCommand command).configFor shared))
    (plain : ∀ pair ∈ items, ∀ x ∈ pair.1.text.toList, x.isAlphanum = true)
    (apart : Item.Apart items)
    (inTime : Item.InTime ((Table.ofCommand command).slots.map (·.name)) {} items) :
    (command.parse shared (String.ofList (List.replicate front ' ' ++ Item.spaced items))
        message).values =
      (Item.readAll ((Table.ofCommand command).slots.map (·.name)) {} items).values := by
  rw [Command.parse]
  generalize (Table.ofCommand command).configFor shared = config at noReply fits ⊢
  by_cases counted : 0 < (Table.ofCommand command).optionCount
  · rw [parse_of_noChoices counted noChoices, String.toList_ofList]
    obtain ⟨ctx, hctx⟩ : ∃ ctx : Context, (⟨List.replicate front ' ' ++ Item.spaced items,
        Table.ofCommand command, config, .ofConfig config⟩ : Context) = ctx := ⟨_, rfl⟩
    have alone : State.run ctx message = State.run ctx none := by
      rcases noReply with off | none
      · exact State.run_of_noReply (by rw [← hctx]; exact off) message
      · rw [none]
    have fits' : ∀ pair ∈ items, State.FitsPlain ctx pair.1 := fun pair member =>
      hctx ▸ fitsPlain distinct (fits pair member) (plain pair member)
    have table : ctx.table = Table.ofCommand command := by rw [← hctx]
    have content : (Cursor.start ctx.content).rest =
        List.replicate front ' ' ++ Item.spaced items := by rw [← hctx]; rfl
    rw [hctx, alone, State.run_none, State.sweep_blanks content,
      (State.initial_tracks ctx).closeAll_items (table ▸ Table.slot_names_nodup distinct)
        (table ▸ (Table.optionCount_eq_add distinct).ge) (table ▸ Table.indexed_ofCommand command)
        fits' apart (table ▸ inTime) (fun _ => .inl rfl) rfl
        ((Cursor.past_total content).trans (Nat.zero_add _)), table]
  · have none : (Table.ofCommand command).optionCount = 0 := by omega
    have noSlots : (Table.ofCommand command).slots = [] := by
      have fewer := Table.slots_length_le_optionCount distinct
      apply List.eq_nil_of_length_eq_zero
      omega
    have full : ({} : Progress).free ((Table.ofCommand command).slots.map (·.name)) = [] := by
      rw [noSlots]
      rfl
    rw [(inTime.of_full full).1, Table.parse, none]
    rfl

/-- An option that is named in front of the words, a flag between them, and two words for the last
slot. -/
theorem parse_spacedItems_skipped :
    ((⟨"go", [{ name := "a" }, { name := "b" }, { name := "c" }, { name := "on", flag := true }],
        none⟩ : Command).parse { singleValue := true } " --b x y --on z v  w " none).values =
      ⟨[("b", "x"), ("a", "y"), ("on", "z"), ("c", "v  w")]⟩ := by
  have identifiers : ∀ name ∈ ["b", "on"], IsIdentifier name.toList := by
    simp only [List.mem_cons, List.not_mem_nil, or_false]
    rintro name (rfl | rfl) <;> exact ⟨⟨_, rfl, rfl⟩, List.all_eq_true.1 (by decide +kernel)⟩
  have fits : ∀ pair ∈ [(Item.named "b" "x", 1), (.alone "y", 1), (.named "on" "z", 1),
      (.alone "v", 2), (.alone "w", 1)],
      pair.1.Fits ⟨"go", [{ name := "a" }, { name := "b" }, { name := "c" },
        { name := "on", flag := true }], none⟩ { singleValue := true } := by
    simp only [List.mem_cons, List.not_mem_nil, or_false]
    rintro pair (rfl | rfl | rfl | rfl | rfl)
    · exact ⟨by decide, rfl, identifiers "b" (by simp), { name := "b" }, by simp, rfl, rfl, rfl⟩
    · exact (by decide : "y" ≠ "")
    · exact ⟨by decide, rfl, identifiers "on" (by simp), { name := "on", flag := true }, by simp,
        rfl, rfl, rfl⟩
    · exact (by decide : "v" ≠ "")
    · exact (by decide : "w" ≠ "")
  have plain : ∀ pair ∈ [(Item.named "b" "x", 1), (.alone "y", 1), (.named "on" "z", 1),
      (.alone "v", 2), (.alone "w", 1)], ∀ x ∈ pair.1.text.toList, x.isAlphanum = true := by
    simp only [List.mem_cons, List.not_mem_nil, or_false]
    rintro pair (rfl | rfl | rfl | rfl | rfl) <;> exact List.all_eq_true.1 (by decide +kernel)
  have parsed := parse_spacedItems { singleValue := true } none 1 (by decide +kernel)
    (by simp [Table.ofCommand]) (.inr rfl) fits plain (by decide +kernel) (by decide +kernel)
  exact parsed.trans (congrArg Entries.mk (by decide +kernel))

end Command

end ChatArgs
