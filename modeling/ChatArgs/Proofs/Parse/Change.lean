import ChatArgs.Proofs.Parse.BlockLines
import ChatArgs.Proofs.Parse.Keys
import ChatArgs.Proofs.Parse.ReplacedTokens
import ChatArgs.Proofs.Text.Extended

/-!
# Changes of a text

A second parse may differ from a first in three ways: ordinary characters of the text are replaced,
the first slots are filled before the text is looked at, and more text stands behind a blank at its
end. `Change.place` is where a place of the first text is in the second one. There the same tokens
stand up to the end of the first text, and what follows is seen in the same way.
-/

namespace ChatArgs

/-! ## Entries -/

namespace Entries

variable {α β : Type} {name : String}

theorem find_append {front : List (String × α)} (fresh : name ∉ front.map (·.1))
    (back : List (String × α)) : find name (front ++ back) = find name back := by
  induction front with
  | nil => rfl
  | cons entry front ih =>
      simp only [List.map_cons, List.mem_cons, not_or] at fresh
      rw [List.cons_append, find, if_neg (Ne.symm fresh.1), ih fresh.2]

theorem put_map (f : α → β) (name : String) (value : α) (l : List (String × α)) :
    put name (f value) (l.map fun entry => (entry.1, f entry.2)) =
      (put name value l).map fun entry => (entry.1, f entry.2) := by
  induction l with
  | nil => rfl
  | cons entry rest ih =>
      rw [List.map_cons, put, put, ih]
      split <;> rfl

theorem find_map (f : α → β) (name : String) (l : List (String × α)) :
    find name (l.map fun entry => (entry.1, f entry.2)) = (find name l).map f := by
  induction l with
  | nil => rfl
  | cons entry rest ih =>
      rw [List.map_cons, find, find, ih]
      split <;> rfl

end Entries

theorem Quote.char_ne_blank (q : Quote) : q.char ≠ ' ' := by
  cases q <;> decide

namespace Parse

open Text

structure Change where
  /-- What each character of the text is replaced by. -/
  char : Char → Char := id
  /-- Slots in front of all others, and the values that fill them from the start. -/
  seats : List (OptionDecl × String) := []
  /-- What stands behind the text. -/
  tail : List Char := []

namespace Change

variable {v : Change} {name : String}

def Seats (v : Change) (name : String) : Prop :=
  ∃ seat ∈ v.seats, seat.1.name = name

def entries (v : Change) (values : Entries String) : Entries String :=
  ⟨v.seats.map (fun seat => (seat.1.name, seat.2)) ++
    values.toList.map fun entry => (entry.1, entry.2.map v.char)⟩

theorem notMem_of_not_seats (fresh : ¬ v.Seats name) :
    name ∉ (v.seats.map fun seat => (seat.1.name, seat.2)).map (·.1) := by
  rw [List.map_map]
  intro member
  obtain ⟨seat, member, same⟩ := List.mem_map.1 member
  exact fresh ⟨seat, member, same⟩

theorem entries_insert (fresh : ¬ v.Seats name) (values : Entries String) (value : String) :
    (v.entries values).insert name (value.map v.char) = v.entries (values.insert name value) := by
  unfold entries Entries.insert
  rw [Entries.put_append_of_notMem (notMem_of_not_seats fresh), Entries.put_map]

theorem entries_get? (fresh : ¬ v.Seats name) (values : Entries String) :
    (v.entries values).get? name = (values.get? name).map (String.map v.char) := by
  unfold entries Entries.get?
  rw [Entries.find_append (notMem_of_not_seats fresh), Entries.find_map]

/-! ## Places -/

def place (v : Change) (c : Cursor) : Cursor :=
  (c.map v.char).extend v.tail

section

variable (v : Change) (c : Cursor)

@[simp] theorem place_before : (v.place c).before = c.before.map v.char := rfl

@[simp] theorem place_rest : (v.place c).rest = c.rest.map v.char ++ v.tail := rfl

end

def context (v : Change) (ctx : Context) (table : Table) : Context :=
  ⟨ctx.content.map v.char ++ v.tail, table, ctx.config, ctx.patterns⟩

/-- The table of the second parse has the seats too, and no marker of the text names one. Only
ordinary characters are replaced, and more text stands behind a blank. -/
structure Relates (v : Change) (ctx : Context) (table : Table) : Prop where
  neutral : Neutral ctx.patterns.delimiters v.char
  tail : v.tail = [] ∨ v.tail.head? = some ' '
  slots : table.slots = v.seats.map (·.1) ++ ctx.table.slots
  optionCount : table.optionCount = v.seats.length + ctx.table.optionCount
  option? : ∀ name, ¬ v.Seats name → table.option? name = ctx.table.option? name
  fresh : ∀ name, ctx.table.Holds name → ¬ v.Seats name
  unmarked : ∀ front text rest escapes opening name, ctx.content = front ++ (text ++ rest) →
    TokenFront ctx.patterns.delimiters (.marker escapes opening name) text rest → ¬ v.Seats name

end Change

theorem isVisible_map {d : Delimiters} {r : Char → Char} (neutral : Neutral d r)
    (next : Option Char) : isVisible (next.map r) = isVisible next := by
  cases next with
  | none => rfl
  | some c => exact congrArg (!·) (neutral.isGap c)

namespace Change.Relates

variable {v : Change} {ctx : Context} {table' : Table} (relates : v.Relates ctx table')
include relates

theorem length_context : (v.context ctx table').length = ctx.length + byteLength v.tail := by
  have size := relates.neutral.size
  rw [Context.length, context, byteLength_append, Cursor.byteLength_map size, Context.length]

/-- Behind a place stands the same, but for the blank behind the whole text. -/
theorem after_place (c : Cursor) :
    (v.place c).after = c.after.map v.char ∨
      c.after = none ∧ (v.place c).after = some ' ' := by
  unfold Cursor.after
  rw [place_rest]
  cases c.rest with
  | nil =>
      rcases relates.tail with none | blank
      · exact .inl (by rw [none]; rfl)
      · exact .inr ⟨rfl, blank⟩
  | cons x rest => exact .inl rfl

theorem isVisible_before (c : Cursor) :
    isVisible (v.place c).before = isVisible c.before :=
  isVisible_map relates.neutral c.before

theorem isVisible_after (c : Cursor) : isVisible (v.place c).after = isVisible c.after := by
  rcases relates.after_place c with same | ⟨none, blank⟩
  · rw [same, isVisible_map relates.neutral]
  · rw [none, blank]
    decide

theorem after_beq {x : Char} (special : ¬ IsOrdinary ctx.patterns.delimiters x) (other : x ≠ ' ')
    (c : Cursor) : ((v.place c).after == some x) = (c.after == some x) := by
  rcases relates.after_place c with same | ⟨none, blank⟩
  · rw [same, map_beq_some (relates.neutral.beq special)]
  · rw [none, blank]
    simpa using Ne.symm other

theorem escapesNext_after (lock : Option Family) (c : Cursor) :
    ctx.patterns.delimiters.escapesNext lock (v.place c).after =
      ctx.patterns.delimiters.escapesNext lock c.after := by
  rcases relates.after_place c with same | ⟨none, blank⟩
  · rw [same, relates.neutral.escapesNext_map]
  · have isBlank : isBlank ' ' = true := by decide
    rw [none, blank]
    simp [Delimiters.escapesNext, EscapeSet.contains, isBlank]

/-- A quote that is switched off may be replaced, but it is not escaped then. -/
theorem quote_after {lock : Option Family} {c : Cursor}
    (escaped : ctx.patterns.delimiters.escapesNext lock c.after = true) :
    ((v.place c).after.bind Quote.ofChar?).isSome = (c.after.bind Quote.ofChar?).isSome := by
  rcases relates.after_place c with same | ⟨none, blank⟩
  · rw [same, relates.neutral.map_of_escapesNext escaped]
  · rw [none, blank]
    rfl

theorem textTo_place {c : Cursor} {stop : Nat} (inside : c.In ctx.content)
    (ahead : stop ≤ ctx.length) : (v.place c).textTo stop = (c.textTo stop).map v.char := by
  have size := relates.neutral.size
  have total := inside.offset_add
  rw [place, Cursor.textTo_extend, Cursor.textTo_map size]
  rwa [Cursor.map_offset, Cursor.map_rest, Cursor.byteLength_map size, total]

theorem past_place (c : Cursor) (front rest : List Char) :
    (v.place c).past (front.map v.char) (rest.map v.char ++ v.tail) =
      v.place (c.past front rest) := by
  have moved := congrArg (Cursor.extend v.tail)
    (Cursor.past_map relates.neutral.size c front rest)
  exact moved

theorem tokenAt?_place (c : Cursor) :
    tokenAt? ctx.patterns.delimiters (v.place c).rest =
      tokenAt? ctx.patterns.delimiters c.rest := by
  rw [place_rest]
  rcases relates.tail with none | blank
  · rw [none, List.append_nil, relates.neutral.tokenAt?_map]
  · rw [tokenAt?_append_blank blank, relates.neutral.tokenAt?_map]

theorem isPrefixOf_place {front : List Char}
    (special : ∀ x ∈ front, ¬ IsOrdinary ctx.patterns.delimiters x) (visible : ' ' ∉ front)
    (c : Cursor) : front.isPrefixOf (v.place c).rest = front.isPrefixOf c.rest := by
  have replaced : front.isPrefixOf (c.rest.map v.char) = front.isPrefixOf c.rest :=
    isPrefixOf_map (fun x member => relates.neutral.beq (special x member)) c.rest
  rw [place_rest]
  rcases relates.tail with none | blank
  · rw [none, List.append_nil, replaced]
  · rw [isPrefixOf_append_blank blank visible, replaced]

/-! ## Tables -/

/-- The slots behind the seats are those of the first parse. -/
theorem slots_get (slot : Nat) :
    table'.slots[slot + v.seats.length]? = ctx.table.slots[slot]? := by
  rw [relates.slots, List.getElem?_append_right (by simp), List.length_map, Nat.add_sub_cancel]

theorem slotOf?_eq {name : String} (fresh : ¬ v.Seats name) :
    table'.slotOf? name = (ctx.table.slotOf? name).map (· + v.seats.length) := by
  unfold Table.slotOf?
  rw [relates.slots, List.findIdx?_append, List.length_map]
  have other : (v.seats.map (·.1)).findIdx? (fun o => o.name == name) = none := by
    rw [List.findIdx?_eq_none_iff]
    intro option member
    obtain ⟨seat, seated, rfl⟩ := List.mem_map.1 member
    exact beq_false_of_ne fun same => fresh ⟨seat, seated, same⟩
  rw [other, Option.none_or]

/-! ## Blocks -/

theorem language_map (block : List Char) :
    Block.language (block.map v.char) = (Block.language block).map v.char := by
  unfold Block.language
  rw [takeWhile_map fun c => congrArg (!·) (relates.neutral.isBlank c)]

theorem hasLanguage_map (block : List Char) :
    Block.hasLanguage (block.map v.char) = Block.hasLanguage block := by
  unfold Block.hasLanguage
  rw [relates.language_map, List.length_map, ← List.map_drop, List.head?_map,
    map_beq_some (relates.neutral.beq not_isOrdinary_lineFeed), List.isEmpty_map]

/-- The language of a block stands in front of what follows the text. -/
theorem codeLines_place {start : Cursor} {block : List Char}
    (short : block.length ≤ start.rest.length) :
    Block.codeLines (v.place start) (block.map v.char) = v.place (Block.codeLines start block) := by
  unfold Block.codeLines Block.behindLanguage
  rw [relates.hasLanguage_map, relates.language_map, List.length_map]
  split
  · rename_i has
    have inside := (Block.language_lt_length has).trans_le short
    rw [place, Cursor.forward_extend (by rw [Cursor.map_rest, List.length_map]; exact inside),
      Cursor.forward_map relates.neutral.size]
    rfl
  · rfl

theorem behindFeed_place (c : Cursor) :
    Block.behindFeed (v.place c) = v.place (Block.behindFeed c) := by
  unfold Block.behindFeed
  rw [relates.after_beq not_isOrdinary_lineFeed (by decide)]
  split
  · rename_i feed
    have feed : c.after = some '\n' := by simpa using feed
    have there : (c.map v.char).after = some (v.char '\n') := by rw [Cursor.map_after, feed]; rfl
    rw [place, Cursor.next_extend there, Cursor.next_map relates.neutral.size]
    rfl
  · rfl

theorem beforeFeed_place (c : Cursor) : Block.beforeFeed (v.place c) = Block.beforeFeed c := by
  unfold Block.beforeFeed
  rw [place_before, map_beq_some (relates.neutral.beq not_isOrdinary_lineFeed)]
  rfl

end Change.Relates

end Parse

end ChatArgs
