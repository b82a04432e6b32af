import ChatArgs.Parse.Step
import ChatArgs.Proofs.Text.Places

/-!
# The lines of a code block

A block is closed in three parts. A first line of one word is its language, which may fill a slot;
one line feed in front of the code and one behind it do not belong to the code; and the code is the
value of a long text.
-/

namespace ChatArgs.Parse

open Text

/-! ## Where the code stands -/

namespace Block

def language (block : List Char) : List Char :=
  block.takeWhile fun c => !isBlank c

def hasLanguage (block : List Char) : Bool :=
  !(language block).isEmpty && (block.drop (language block).length).head? == some '\n'

def behindLanguage (start : Cursor) (block : List Char) : Cursor :=
  start.forward ((language block).length + 1)

def codeLines (start : Cursor) (block : List Char) : Cursor :=
  if hasLanguage block then behindLanguage start block else start

def behindFeed (c : Cursor) : Cursor :=
  if c.after == some '\n' then c.next else c

def beforeFeed (c : Cursor) : Nat :=
  if c.before == some '\n' then c.offset - 1 else c.offset

theorem language_lt_length {block : List Char} (has : hasLanguage block = true) :
    (language block).length < block.length := by
  simp only [hasLanguage, Bool.and_eq_true, beq_iff_eq, List.head?_drop] at has
  exact (List.getElem?_eq_some_iff.1 has.2).1

theorem le_codeLines_offset (start : Cursor) (block : List Char) :
    start.offset ≤ (codeLines start block).offset := by
  unfold codeLines
  split
  · exact start.le_forward_offset _
  · exact Nat.le_refl _

theorem codeLines_offset_le {start : Cursor} {stop : Nat} (ahead : start.offset ≤ stop) :
    (codeLines start (start.textTo stop)).offset ≤ stop := by
  unfold codeLines
  split
  · rename_i has
    exact Cursor.forward_offset_le ahead (language_lt_length has)
  · exact ahead

theorem le_behindFeed_offset (c : Cursor) : c.offset ≤ (behindFeed c).offset := by
  unfold behindFeed
  split
  · exact c.le_next_offset
  · exact Nat.le_refl _

theorem behindFeed_offset_le (c : Cursor) : (behindFeed c).offset ≤ c.offset + 1 := by
  unfold behindFeed
  split
  · rename_i lineFeed
    have after : c.after = some '\n' := by simpa using lineFeed
    obtain ⟨rest, all⟩ := List.head?_eq_some_iff.1 after
    have size : '\n'.utf8Size = 1 := by decide
    rw [Cursor.next_eq_past all, Cursor.past_offset, byteLength_cons, byteLength_nil, size]
  · exact Nat.le_succ _

theorem codeLines_in {text : List Char} {start : Cursor} (inside : start.In text)
    (block : List Char) : (codeLines start block).In text := by
  unfold codeLines
  split
  · exact Cursor.forward_in inside _
  · exact inside

theorem behindFeed_in {text : List Char} {c : Cursor} (inside : c.In text) :
    (behindFeed c).In text := by
  unfold behindFeed
  split
  · exact Cursor.next_in inside
  · exact inside

theorem beforeFeed_le (c : Cursor) : beforeFeed c ≤ c.offset := by
  unfold beforeFeed
  split
  · exact Nat.sub_le ..
  · exact Nat.le_refl _

end Block

/-! ## The parts of a block -/

namespace State

variable {ctx : Context} {s : State}

/-- Where the language is a value, the first line of a block takes the next slot; a block without a
language leaves that slot without a value. -/
def placeLanguage (ctx : Context) (language : List Char) (hasLanguage : Bool) (start : Cursor)
    (stop : Nat) (s : State) : State :=
  if !(ctx.config.languageAsValue && s.named.isNone) then s
  else if hasLanguage then s.place ctx (String.ofList language) start stop false
  else match s.freeSlot? with
    | some slot => s.take slot
    | none => s

theorem placeLanguage_off (off : ctx.config.languageAsValue = false) (language : List Char)
    (hasLanguage : Bool) (start : Cursor) (stop : Nat) :
    s.placeLanguage ctx language hasLanguage start stop = s := by
  rw [placeLanguage, off]
  rfl

/-- The language is left out, it is placed, or a slot is left without a value. -/
@[elab_as_elim]
theorem placeLanguage_cases {motive : State → Prop} {language : List Char} {hasLanguage : Bool}
    {start : Cursor} {stop : Nat} (passed : motive s)
    (placed : s.named = none → hasLanguage = true →
      motive (s.place ctx (String.ofList language) start stop false))
    (taken : ∀ slot, ctx.config.languageAsValue = true → motive (s.take slot)) :
    motive (s.placeLanguage ctx language hasLanguage start stop) := by
  unfold placeLanguage
  split
  · exact passed
  · rename_i fills
    simp only [Bool.not_eq_true', Bool.not_eq_false, Bool.and_eq_true,
      Option.isNone_iff_eq_none] at fills
    split
    · rename_i has
      exact placed fills.2 has
    · split
      · exact taken _ fills.1
      · exact passed

def openCode (ctx : Context) (long : LongText) (closing : Cursor) (s : State) : State :=
  let block := long.body.textTo closing.offset
  let lines := Block.codeLines long.body block
  { s.placeLanguage ctx (Block.language block) (Block.hasLanguage block) long.body lines.offset with
    longText := some { long with body := Block.behindFeed lines } }

theorem closeCodeBlock_eq (ctx : Context) (long : LongText) (closing : Cursor) (s : State) :
    s.closeCodeBlock ctx long closing =
      (s.openCode ctx long closing).closeLongText ctx (Block.beforeFeed closing) := by
  unfold closeCodeBlock openCode
  extract_lets block language hasLanguage fillsSlot behind placed body front stop closed lines
  have same : placed = s.placeLanguage ctx (Block.language block) (Block.hasLanguage block)
      long.body lines.offset := by
    unfold placeLanguage
    refine if_congr Iff.rfl rfl (ite_congr rfl (fun has => ?_) fun _ => rfl)
    rw [show lines = behind from if_pos has]
    rfl
  rw [same]
  rfl

end State

end ChatArgs.Parse
