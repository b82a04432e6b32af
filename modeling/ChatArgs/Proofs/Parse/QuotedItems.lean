import ChatArgs.Proofs.Command.Names
import ChatArgs.Proofs.Parse.NamedOption
import ChatArgs.Proofs.Parse.QuotedText

/-!
# Sequences of quoted items

Items are values between quotes, some of them named by a marker. What a parse of their
text finds is what `Item.read` finds by going over the items themselves: a slot map that
never looks at a character.
-/

namespace ChatArgs

namespace Parse

open Text

/-- A text between quotes, with the quotes in it escaped. -/
def enclosed (q : Quote) (text : String) : List Char :=
  q.char :: (escape { quotes := [q] } text.toList ++ [q.char])

/-- A value, for the next free slot or for the option that is named. -/
inductive Item where
  | alone (text : String)
  | named (name text : String)
deriving Repr, DecidableEq

structure Progress where
  values : Entries String := {}
  consumed : List String := []
deriving Repr

namespace Item

def written (q : Quote) : Item → List Char
  | alone text => enclosed q text
  | named name text => markerOf name ++ ' ' :: enclosed q text

def writtenAll (q : Quote) (items : List Item) : List Char :=
  [' '].intercalate (items.map (written q))

/-- What an item adds, for slots with these names. -/
def read (slots : List String) (p : Progress) : Item → Progress
  | alone text =>
      match slots.find? fun name => decide (name ∉ p.consumed) with
      | some name => ⟨p.values.insert name text, name :: p.consumed⟩
      | none => p
  | named name text => ⟨p.values.insert name text, name :: p.consumed⟩

/-- The item holds some text, and its name is that of an option that a marker with two
hyphens can open and that takes one value. -/
def Fits (command : Command) (config : Config) : Item → Prop
  | alone text => text ≠ ""
  | named name text =>
      text ≠ "" ∧ config.delimiters.hasDoubleHyphen = true ∧ IsIdentifier name.toList ∧
        ∃ o ∈ command.options, o.name = name ∧ o.isFillable = true ∧
          o.takesOneValue config.singleValue = true

end Item

namespace State

variable {ctx : Context} {p : Progress} {s : State}

structure Rests (ctx : Context) (p : Progress) (s : State) : Prop where
  values : s.values = p.values
  taken : s.taken = ctx.table.slots.map fun o => decide (o.name ∈ p.consumed)
  longText : s.longText = none
  escape : s.escape = none
  held : s.held = none
  named : s.named = none
  lastSlot : s.lastSlot = none
  family : s.family ≠ some .colon

theorem initial_rests (ctx : Context) : Rests ctx {} (initial ctx) where
  values := rfl
  taken := by simp [initial]
  longText := rfl
  escape := rfl
  held := rfl
  named := rfl
  lastSlot := rfl
  family := by simp [initial]

theorem Rests.ready (rests : Rests ctx p s) : Ready ctx s where
  longText := rests.longText
  escape := rests.escape
  held := rests.held
  lastSlot := rests.lastSlot
  single := by simp [openSingle?, rests.named]

theorem Rests.closeAll (rests : Rests ctx p s) : s.closeAll ctx = s := by
  simp [State.closeAll, closeLastSlot, closeNamed, closeLongText, rests.lastSlot, rests.named,
    rests.longText]

/-! ## Taking slots -/

section

variable {consumed : List String} {option : OptionDecl} {slot : Nat}

theorem take_taken (distinct : (ctx.table.slots.map (·.name)).Nodup)
    (taken : s.taken = ctx.table.slots.map fun o => decide (o.name ∈ consumed))
    (found : ctx.table.slots[slot]? = some option) :
    (s.take slot).taken =
      ctx.table.slots.map fun o => decide (o.name ∈ option.name :: consumed) := by
  have here : s.taken[slot]? = some (decide (option.name ∈ consumed)) := by
    rw [taken, List.getElem?_map, found]
    rfl
  by_cases known : option.name ∈ consumed
  · have same : s.take slot = s := by simp [take, here, known]
    rw [same, taken]
    apply List.map_congr_left
    intro o _
    rw [decide_eq_decide, List.mem_cons]
    constructor
    · exact .inr
    · rintro (name | old)
      · rw [name]
        exact known
      · exact old
  · have set : (s.take slot).taken = s.taken.set slot true := by simp [take, here, known]
    rw [set, taken]
    apply List.ext_getElem?
    intro index
    rw [List.getElem?_set, List.getElem?_map, List.getElem?_map]
    by_cases same : slot = index
    · subst same
      obtain ⟨bound, -⟩ := List.getElem?_eq_some_iff.1 found
      rw [found]
      simp [bound]
    · rw [if_neg same]
      cases other : ctx.table.slots[index]? with
      | none => rfl
      | some o =>
          have different : o.name ≠ option.name := by
            intro equal
            apply same
            obtain ⟨bound, -⟩ := List.getElem?_eq_some_iff.1 found
            apply (List.getElem?_inj (by simpa using bound) distinct).1
            rw [List.getElem?_map, List.getElem?_map, found, other, Option.map_some,
              Option.map_some, equal]
          simp [different]

theorem markFilled_taken (distinct : (ctx.table.slots.map (·.name)).Nodup)
    (taken : s.taken = ctx.table.slots.map fun o => decide (o.name ∈ consumed))
    (known : option.flag = true ∧ (∀ o ∈ ctx.table.slots, o.name ≠ option.name) ∨
      option.flag = false ∧ ∃ slot, ctx.table.slotOf? option.name = some slot) :
    (s.markFilled ctx option).taken =
      ctx.table.slots.map fun o => decide (o.name ∈ option.name :: consumed) := by
  rcases known with ⟨flag, others⟩ | ⟨flag, slot, found⟩
  · have same : (s.markFilled ctx option).taken = s.taken := by
      simp only [markFilled, flag, if_true]
      split <;> rfl
    rw [same, taken]
    apply List.map_congr_left
    intro o member
    simp [others o member]
  · have marked : s.markFilled ctx option = s.take slot := by
      simp [markFilled, flag, found]
    rw [Table.slotOf?, List.findIdx?_eq_some_iff_getElem] at found
    obtain ⟨bound, same, -⟩ := found
    have named : ctx.table.slots[slot].name = option.name := by simpa using same
    rw [marked, take_taken distinct taken (List.getElem?_eq_getElem bound), named]

theorem taken_of_freeSlot {slot : Nat} (free : s.freeSlot? = some slot) :
    s.taken[slot]? = some false := by
  obtain ⟨bound, isFree, -⟩ := List.findIdx?_eq_some_iff_getElem.1 free
  rw [List.getElem?_eq_getElem bound]
  simpa using isFree

/-- The first free slot is the first whose name is not consumed. -/
theorem find_of_freeSlot (taken : s.taken = ctx.table.slots.map fun o => decide (o.name ∈ consumed))
    (free : s.freeSlot? = some slot) :
    ∃ option, ctx.table.slots[slot]? = some option ∧
      (ctx.table.slots.map (·.name)).find? (fun name => decide (name ∉ consumed)) =
        some option.name := by
  rw [freeSlot?, taken, List.findIdx?_map, List.findIdx?_eq_some_iff_getElem] at free
  obtain ⟨bound, isFree, earlier⟩ := free
  refine ⟨ctx.table.slots[slot], List.getElem?_eq_getElem bound, ?_⟩
  rw [List.find?_map]
  have found : ctx.table.slots.find? ((fun name => decide (name ∉ consumed)) ∘ (·.name)) =
      some ctx.table.slots[slot] := by
    rw [List.find?_eq_some_iff_getElem]
    refine ⟨by simpa using isFree, slot, bound, rfl, ?_⟩
    intro index small
    simpa using earlier index small
  rw [found]
  rfl

theorem find_of_noFreeSlot
    (taken : s.taken = ctx.table.slots.map fun o => decide (o.name ∈ consumed))
    (full : s.freeSlot? = none) :
    (ctx.table.slots.map (·.name)).find? (fun name => decide (name ∉ consumed)) = none := by
  rw [freeSlot?, taken, List.findIdx?_map, List.findIdx?_eq_none_iff] at full
  rw [List.find?_eq_none]
  intro name member
  obtain ⟨o, inside, rfl⟩ := List.mem_map.1 member
  simpa using full o inside

theorem fillSlot_of_noFreeSlot (full : s.freeSlot? = none) (text : String) (start : Cursor)
    (stop : Nat) (long : Bool) : s.fillSlot ctx text start stop long = s := by
  simp [fillSlot, full]

theorem fillSlot_of_freeSlot (noHeld : s.held = none) (free : s.freeSlot? = some slot)
    (found : ctx.table.slots[slot]? = some option) (text : String) (start : Cursor) (stop : Nat)
    (long : Bool) :
    s.fillSlot ctx text start stop long =
      (({ s with
          lastSlot :=
            if s.remaining == 1 && !long && s.longText.isNone then
              some ⟨option.name, start, start.offset, ""⟩
            else s.lastSlot
          lastFilled := some option.name } : State).setValue option.name text start.offset
        stop).take slot := by
  simp [fillSlot, free, found, noHeld]

end

/-! ## Placing a quoted text -/

theorem Rests.closed (rests : Rests ctx p s) : Rests ctx p { s with justClosed := true } :=
  ⟨rests.values, rests.taken, rests.longText, rests.escape, rests.held, rests.named,
    rests.lastSlot, rests.family⟩

theorem Rests.locked (rests : Rests ctx p s) :
    Rests ctx p (({ s with justClosed := false } : State).locked ctx) := by
  unfold State.locked
  split
  · exact ⟨rests.values, rests.taken, rests.longText, rests.escape, rests.held, rests.named,
      rests.lastSlot, by simp⟩
  · exact ⟨rests.values, rests.taken, rests.longText, rests.escape, rests.held, rests.named,
      rests.lastSlot, rests.family⟩

/-- A value of its own goes to the first free slot, or nowhere. -/
theorem Rests.place (distinct : (ctx.table.slots.map (·.name)).Nodup) (rests : Rests ctx p s)
    (text : String) (start : Cursor) (stop : Nat) :
    Rests ctx (Item.read (ctx.table.slots.map (·.name)) p (.alone text))
      (s.place ctx text start stop true) := by
  have placed : s.place ctx text start stop true = s.fillSlot ctx text start stop true := by
    simp [State.place, openSingle?, rests.named, rests.held]
  rw [placed, Item.read]
  cases free : s.freeSlot? with
  | none =>
      rw [find_of_noFreeSlot rests.taken free, fillSlot_of_noFreeSlot free]
      exact rests
  | some slot =>
      obtain ⟨option, found, first⟩ := find_of_freeSlot rests.taken free
      have filled : s.fillSlot ctx text start stop true =
          (({ s with lastFilled := some option.name } : State).setValue option.name text
            start.offset stop).take slot := by
        simp [fillSlot_of_freeSlot rests.held free found]
      rw [first, filled]
      have taken := take_taken (s := ({ s with lastFilled := some option.name } : State).setValue
        option.name text start.offset stop) distinct rests.taken found
      rw [take_frame] at taken ⊢
      exact ⟨by rw [setValue, rests.values], taken, rests.longText, rests.escape, rests.held,
        rests.named, rests.lastSlot, rests.family⟩

theorem Rests.fillNamed (distinct : (ctx.table.slots.map (·.name)).Nodup)
    (rests : Rests ctx p s) (named : Named)
    (known : named.option.flag = true ∧
        (∀ o ∈ ctx.table.slots, o.name ≠ named.option.name) ∨
      named.option.flag = false ∧ ∃ slot, ctx.table.slotOf? named.option.name = some slot)
    (text : String) (start stop : Nat) :
    Rests ctx (Item.read (ctx.table.slots.map (·.name)) p (.named named.option.name text))
      (({ s with named := some named } : State).fillNamed ctx named text start stop) := by
  have taken := markFilled_taken (s := ({ s with
      named := none
      justClosed := true
      lastFilled := some named.option.name } : State).setValue named.option.name text start stop)
    distinct rests.taken known
  rw [State.fillNamed]
  simp only
  rw [markFilled_frame] at taken ⊢
  exact ⟨by rw [setValue, rests.values]; rfl, taken, rests.longText, rests.escape, rests.held,
    rfl, rests.lastSlot, rests.family⟩

/-! ## Item after item -/

/-- `Item.Fits`, as a parse sees it. -/
def FitsItem (ctx : Context) : Item → Prop
  | .alone text => text ≠ ""
  | .named name text =>
      text ≠ "" ∧ ctx.patterns.delimiters.hasDoubleHyphen = true ∧ IsIdentifier name.toList ∧
        ∃ option, ctx.table.option? name = some option ∧ option.name = name ∧
          option.takesOneValue ctx.config.singleValue = true ∧
          (option.flag = true ∧ (∀ o ∈ ctx.table.slots, o.name ≠ option.name) ∨
            option.flag = false ∧ ∃ slot, ctx.table.slotOf? option.name = some slot)

section

variable {q : Quote} (reads : ReadsQuotes ctx q)
  (distinct : (ctx.table.slots.map (·.name)).Nodup) (rests : Rests ctx p s)
include reads distinct rests

omit distinct rests in
theorem sweep_enclosed (ready : Ready ctx s) {c : Cursor} {text : String} {rest : List Char}
    (filled : text ≠ "") (split : c.rest = enclosed q text ++ rest)
    (head : rest.head? ≠ some q.char) :
    ∃ start stop, s.sweep ctx c =
      (({ s with justClosed := true } : State).place ctx text start stop true).sweep ctx
        (c.past (enclosed q text) rest) := by
  have split' : c.rest =
      q.char :: (Parse.escape { quotes := [q] } text.toList ++ q.char :: rest) := by
    rw [split, enclosed]
    simp
  have filled' : text.toList ≠ [] := by
    intro empty
    exact filled (String.toList_eq_nil_iff.1 empty)
  have placed := sweep_quoted reads ready filled' split' head
  rwa [String.ofList_toList] at placed

theorem sweep_alone {c : Cursor} {text : String} {rest : List Char} (filled : text ≠ "")
    (split : c.rest = enclosed q text ++ rest) (head : rest.head? ≠ some q.char) :
    ∃ s', Rests ctx (Item.read (ctx.table.slots.map (·.name)) p (.alone text)) s' ∧
      s.sweep ctx c = s'.sweep ctx (c.past (enclosed q text) rest) := by
  obtain ⟨start, stop, placed⟩ := sweep_enclosed reads rests.ready filled split head
  exact ⟨_, rests.closed.place distinct text start stop, placed⟩

theorem sweep_named {c : Cursor} {name text : String} {rest : List Char}
    (fits : FitsItem ctx (.named name text))
    (split : c.rest = markerOf name ++ ' ' :: (enclosed q text ++ rest))
    (head : rest.head? ≠ some q.char) :
    ∃ s', Rests ctx (Item.read (ctx.table.slots.map (·.name)) p (.named name text)) s' ∧
      s.sweep ctx c = s'.sweep ctx (c.past (markerOf name ++ ' ' :: enclosed q text) rest) := by
  obtain ⟨filled, enabled, valid, option, declared, rfl, single, known⟩ := fits
  have opens := sweep_marker rests.longText rests.held rests.lastSlot rests.family declared enabled
    valid (reads.stops s) split
  generalize hbehind : c.past (markerOf option.name) (' ' :: (enclosed q text ++ rest)) = behind
    at opens
  have blank : behind.rest = ' ' :: (enclosed q text ++ rest) := by rw [← hbehind]; rfl
  have rests' := rests.locked
  generalize ({ s with justClosed := false } : State).locked ctx = s' at opens rests'
  generalize hnamed : (⟨option, behind, c.offset, .hyphen⟩ : Named) = named
  have isOpen : s'.opened ctx option c behind = { s' with named := some named } := by
    rw [opened, closeNamed, rests'.named, hnamed]
  have single' (justClosed : Bool) :
      ({ s' with named := some named, justClosed := justClosed } : State).openSingle? ctx =
        some named := by
    rw [← hnamed]
    simp [openSingle?, single]
  have ready : Ready ctx { s' with named := some named } :=
    ⟨rests'.longText, rests'.escape, rests'.held, rests'.lastSlot,
      by rw [single' s'.justClosed]⟩
  obtain ⟨start, stop, placed⟩ :=
    sweep_enclosed reads ready (c := behind.past [' '] (enclosed q text ++ rest)) filled rfl head
  have fills : ({ s' with named := some named, justClosed := true } : State).place ctx text start
        stop true =
      ({ s' with named := some named, justClosed := true } : State).fillNamed ctx named text
        start.offset stop := by
    simp only [State.place, single' true]
  have path : (behind.past [' '] (enclosed q text ++ rest)).past (enclosed q text) rest =
      c.past (markerOf option.name ++ ' ' :: enclosed q text) rest := by
    rw [← hbehind, Cursor.past_past, Cursor.past_past, List.singleton_append]
  have isOption : named.option = option := by rw [← hnamed]
  rw [← isOption] at known
  have result := rests'.closed.fillNamed distinct named known text start.offset stop
  rw [isOption] at result
  refine ⟨_, result, ?_⟩
  rw [opens, isOpen, sweep_blank blank, placed, fills, path]

/-- An item is read as a whole. -/
theorem sweep_item {item : Item} {c : Cursor} {rest : List Char} (fits : FitsItem ctx item)
    (split : c.rest = item.written q ++ rest) (head : rest.head? ≠ some q.char) :
    ∃ s', Rests ctx (item.read (ctx.table.slots.map (·.name)) p) s' ∧
      s.sweep ctx c = s'.sweep ctx (c.past (item.written q) rest) := by
  cases item with
  | alone text => exact sweep_alone reads distinct rests fits split head
  | named name text =>
      apply sweep_named reads distinct rests fits _ head
      rw [split, Item.written]
      simp

/-- What a parse finds in written items is what reading the items finds. -/
theorem sweep_items {items : List Item} {c : Cursor} (fits : ∀ item ∈ items, FitsItem ctx item)
    (split : c.rest = Item.writtenAll q items) :
    Rests ctx (items.foldl (Item.read (ctx.table.slots.map (·.name))) p) (s.sweep ctx c) := by
  induction items generalizing p s c with
  | nil =>
      rw [sweep_end split]
      exact rests
  | cons item items ih =>
      have first := fits item List.mem_cons_self
      have others : ∀ item ∈ items, FitsItem ctx item := fun other member =>
        fits other (List.mem_cons_of_mem item member)
      rw [List.foldl_cons]
      cases items with
      | nil =>
          have split' : c.rest = item.written q ++ [] := by
            rw [split]
            simp [Item.writtenAll]
          obtain ⟨s', rests', read⟩ := sweep_item reads distinct rests first split' (by simp)
          rw [read, sweep_end rfl]
          exact rests'
      | cons next items =>
          have split' : c.rest =
              item.written q ++ ' ' :: Item.writtenAll q (next :: items) := by
            rw [split]
            simp [Item.writtenAll]
          have head : (' ' :: Item.writtenAll q (next :: items)).head? ≠ some q.char := by
            cases q <;> simp [Quote.char]
          obtain ⟨s', rests', read⟩ := sweep_item reads distinct rests first split' head
          rw [read, sweep_blank rfl]
          exact ih rests' others rfl

end

end State

end Parse

open Parse

namespace Command

variable {command : Command} {config : Config}

theorem fitsItem (distinct : (command.options.map (·.name)).Nodup) {content : List Char}
    {item : Item} (fits : item.Fits command config) :
    State.FitsItem ⟨content, Table.ofCommand command, config, .ofConfig config⟩ item := by
  cases item with
  | alone text => exact fits
  | named name text =>
      obtain ⟨filled, enabled, valid, o, member, rfl, fillable, single⟩ := fits
      have known := Table.option?_of_mem distinct member fillable
      exact ⟨filled, enabled, valid, o, known, rfl, single, Table.flag_or_slot distinct known⟩

theorem foldl_read_of_noOptions (distinct : (command.options.map (·.name)).Nodup)
    (empty : ¬ 0 < (Table.ofCommand command).optionCount) {items : List Item}
    (fits : ∀ item ∈ items, item.Fits command config) :
    items.foldl (Item.read ((Table.ofCommand command).slots.map (·.name))) {} = {} := by
  have counted := Table.slots_length_le_optionCount distinct
  have noSlots : (Table.ofCommand command).slots = [] := by
    apply List.eq_nil_of_length_eq_zero
    omega
  induction items with
  | nil => rfl
  | cons item items ih =>
      cases item with
      | alone text =>
          have passed : Item.read ((Table.ofCommand command).slots.map (·.name)) {} (.alone text) =
              {} := by
            rw [noSlots]
            rfl
          rw [List.foldl_cons, passed]
          exact ih fun other member => fits other (List.mem_cons_of_mem _ member)
      | named name text =>
          exfalso
          obtain ⟨-, -, -, o, member, -, fillable, -⟩ := fits _ List.mem_cons_self
          exact empty (Table.optionCount_pos distinct member fillable)

/-- Quoted items are read one by one: a value of its own goes to the first free slot, a named
value to its option. -/
theorem parse_quotedItems (shared : Config) {q : Quote} {items : List Item}
    (distinct : (command.options.map (·.name)).Nodup)
    (noChoices : (Table.ofCommand command).choices = [])
    (enabled : ((Table.ofCommand command).configFor shared).delimiters.hasQuote q = true)
    (plainLast : ((Table.ofCommand command).configFor shared).plainLast = none)
    (goesOn : ((Table.ofCommand command).configFor shared).stopWhenFilled = false)
    (fits : ∀ item ∈ items, item.Fits command ((Table.ofCommand command).configFor shared)) :
    (command.parse shared (String.ofList (Item.writtenAll q items)) none).values =
      (items.foldl (Item.read ((Table.ofCommand command).slots.map (·.name))) {}).values := by
  rw [Command.parse]
  generalize (Table.ofCommand command).configFor shared = config at enabled plainLast goesOn fits ⊢
  by_cases counted : 0 < (Table.ofCommand command).optionCount
  · have reads : ReadsQuotes
        ⟨Item.writtenAll q items, Table.ofCommand command, config, .ofConfig config⟩ q :=
      ⟨enabled, plainLast, goesOn⟩
    have rests := State.sweep_items reads (Table.slot_names_nodup distinct)
      (State.initial_rests _) (fun item member => fitsItem distinct (fits item member))
      (c := Text.Cursor.start (Item.writtenAll q items)) rfl
    rw [parse_of_noChoices counted noChoices, String.toList_ofList, State.run_none,
      rests.closeAll]
    exact rests.values
  · have none : (Table.ofCommand command).optionCount = 0 := by omega
    rw [foldl_read_of_noOptions distinct counted fits, Table.parse, none]
    rfl

/-- A quote and a marker inside of a value, and a named value between two others. -/
theorem parse_quotedItems_between :
    ((⟨"go", [{ name := "first" }, { name := "tag", singleValue := some true },
        { name := "last" }], none⟩ : Command).parse {}
      "\"a\\\" --tag\" --tag \"b\" \"c\"" none).values =
      ⟨[("first", "a\" --tag"), ("tag", "b"), ("last", "c")]⟩ := by
  have identifier : IsIdentifier "tag".toList :=
    ⟨⟨'t', rfl, rfl⟩, List.all_eq_true.1 (by decide +kernel)⟩
  have fits : ∀ item ∈ [Item.alone "a\" --tag", .named "tag" "b", .alone "c"],
      item.Fits ⟨"go", [{ name := "first" }, { name := "tag", singleValue := some true },
        { name := "last" }], none⟩ {} := by
    simp only [List.mem_cons, List.not_mem_nil, or_false]
    rintro item (rfl | rfl | rfl)
    · exact (by decide : "a\" --tag" ≠ "")
    · exact ⟨by decide, rfl, identifier, { name := "tag", singleValue := some true }, by simp, rfl,
        rfl, rfl⟩
    · exact (by decide : "c" ≠ "")
  have written : String.ofList (Item.writtenAll .double
      [.alone "a\" --tag", .named "tag" "b", .alone "c"]) =
      "\"a\\\" --tag\" --tag \"b\" \"c\"" := rfl
  have parsed := parse_quotedItems {} (q := .double) (by decide) rfl rfl rfl rfl fits
  rw [written] at parsed
  rw [parsed]
  rfl

end Command

end ChatArgs
