import ChatArgs.Document.Json.Reader
import ChatArgs.Document.Json.Writer

/-!
# Reading what was written as JSON

`Written d` says that a document is made of null, truth values, texts, lists, and records whose
keys are texts. The compact form of such a document is a JSON text that reads as the document,
whatever characters its texts have (`ofJson?_toJson`).
-/

namespace ChatArgs.Document

/-- The document has no numbers, and nothing that only the other notation can say. -/
inductive Written : Document → Prop
  | null : Written .null
  | bool (b : Bool) : Written (.bool b)
  | text (s : String) : Written (.text s)
  | list {items : List Document} : (∀ d ∈ items, Written d) → Written (.list items)
  | record {fields : List (String × Document)} :
      (∀ field ∈ fields, Written field.2) → Written (.ofFields fields)

namespace Json

/-! ## Characters -/

theorem hexFour?_hexDigit {n : Nat} (control : n < 0x20) :
    hexFour? '0' '0' (hexDigit (n / 16)) (hexDigit (n % 16)) = some n := by
  revert n
  decide

/-- A character is written with a letter of its own, by its code, or as itself. -/
theorem escapeChar_cases (c : Char) :
    (∃ e, escapeChar c = ['\\', e] ∧ escaped? e = some c ∧ e ≠ 'u') ∨
      (escapeChar c =
          ['\\', 'u', '0', '0', hexDigit (c.toNat / 16), hexDigit (c.toNat % 16)] ∧
        c.toNat < 0x20) ∨
      (escapeChar c = [c] ∧ c ≠ '"' ∧ c ≠ '\\' ∧ ¬ c.toNat < 0x20) := by
  by_cases named : c ∈ ['"', '\\', '\x08', '\t', '\n', '\x0c', '\r']
  · left
    simp only [List.mem_cons, List.not_mem_nil, or_false] at named
    rcases named with rfl | rfl | rfl | rfl | rfl | rfl | rfl
    all_goals exact ⟨_, rfl, by decide, by decide⟩
  · right
    simp only [List.mem_cons, List.not_mem_nil, or_false, not_or] at named
    by_cases control : c.toNat < 0x20
    · left
      simp [escapeChar, named, control]
    · right
      simp [escapeChar, named, control]

theorem scanText_escapeChar (c : Char) (reversed : List Nat) (rest : List Char) :
    scanText reversed (escapeChar c ++ rest) = scanText (c.toNat :: reversed) rest := by
  rcases escapeChar_cases c with
    ⟨e, written, back, other⟩ | ⟨written, control⟩ | ⟨written, noQuote, noBackslash, visible⟩
  · rw [written, List.cons_append, List.singleton_append, scanText]
    · simp only [back]
    · simp [other]
  · rw [written]
    simp only [List.cons_append, List.nil_append]
    rw [scanText, hexFour?_hexDigit control]
  · rw [written, List.singleton_append, scanText]
    · simp [noBackslash, visible]
    · simpa using noQuote
    · simp [noBackslash]
    · simp [noBackslash]

theorem scanText_flatMap (cs : List Char) (reversed : List Nat) (rest : List Char) :
    scanText reversed (cs.flatMap escapeChar ++ '"' :: rest) =
      some ((cs.map Char.toNat).reverse ++ reversed, rest) := by
  induction cs generalizing reversed with
  | nil => simp [scanText]
  | cons c cs ih =>
      rw [List.flatMap_cons, List.append_assoc, scanText_escapeChar, ih]
      simp

/-! ## Texts -/

/-- Codes of characters are no halves of pairs. -/
theorem isHalf_toNat (c : Char) : isLowHalf c.toNat = false ∧ isHighHalf c.toNat = false := by
  have valid : c.toNat < 0xD800 ∨ 0xDFFF < c.toNat ∧ c.toNat < 0x110000 := c.valid
  simp only [isLowHalf, isHighHalf, Bool.and_eq_false_iff, decide_eq_false_iff_not]
  omega

theorem joinHalves_map (cs found : List Char) :
    joinHalves found (cs.map Char.toNat) = some (cs.reverse ++ found) := by
  induction cs generalizing found with
  | nil => rfl
  | cons c cs ih =>
      obtain ⟨noLow, noHigh⟩ := isHalf_toNat c
      rw [List.map_cons, joinHalves.eq_def]
      simp [noLow, noHigh, Char.ofNat_toNat, ih]

theorem readText_flatMap (s : String) (rest : List Char) :
    readText (s.toList.flatMap escapeChar ++ '"' :: rest) = some (.text s, rest) := by
  rw [readText, scanText_flatMap, List.append_nil, ← List.map_reverse]
  simp only [textOf, joinHalves_map, List.reverse_reverse, List.append_nil, String.ofList_toList]

end Json

open Json

/-! ## Values -/

/-- A value that is written starts with a visible character that closes nothing. -/
theorem Written.head {d : Document} (written : Written d) :
    ∃ c cs, render d = c :: cs ∧ isWhite c = false ∧ c ≠ ']' := by
  cases written with
  | null => exact ⟨_, _, rfl, by decide, by decide⟩
  | bool b => cases b <;> exact ⟨_, _, rfl, by decide, by decide⟩
  | text s => exact ⟨_, _, rfl, by decide, by decide⟩
  | list _ => exact ⟨_, _, rfl, by decide, by decide⟩
  | record _ => exact ⟨_, _, rfl, by decide, by decide⟩

theorem skipWhite_cons {c : Char} (visible : isWhite c = false) (cs : List Char) :
    skipWhite (c :: cs) = c :: cs := by
  simp [skipWhite, visible]

/-- The document is read back from its compact form, in no more calls than two for each
character, whatever stands behind it. -/
def ReadsBack (d : Document) : Prop :=
  ∀ fuel rest, 2 * (render d).length ≤ fuel + 1 →
    readValue fuel (render d ++ rest) = some (d, rest)

theorem renderItems_true (d : Document) (ds : List Document) :
    renderItems true (d :: ds) = render d ++ renderItems false ds := rfl

theorem renderItems_false (d : Document) (ds : List Document) :
    renderItems false (d :: ds) = ',' :: renderItems true (d :: ds) := rfl

theorem readItems_render {d : Document} {ds : List Document}
    (back : ∀ d' ∈ d :: ds, ReadsBack d') (fuel : Nat) (rest : List Char)
    (enough : 2 * (renderItems true (d :: ds)).length ≤ fuel) :
    readItems fuel (renderItems true (d :: ds) ++ rest) = some (d :: ds, rest) := by
  induction ds generalizing d fuel with
  | nil =>
      rw [renderItems_true, List.length_append] at enough
      have closing : (renderItems false []).length = 1 := rfl
      obtain ⟨fuel, rfl⟩ : ∃ n, fuel = n + 1 := ⟨fuel - 1, by omega⟩
      rw [renderItems_true, List.append_assoc, readItems,
        back d List.mem_cons_self fuel _ (by omega)]
      rfl
  | cons d' ds ih =>
      have length : (renderItems true (d :: d' :: ds)).length =
          (render d).length + (renderItems true (d' :: ds)).length + 1 := by
        rw [renderItems_true, renderItems_false, List.length_append, List.length_cons,
          Nat.add_assoc]
      obtain ⟨fuel, rfl⟩ : ∃ n, fuel = n + 1 := ⟨fuel - 1, by omega⟩
      have others := ih (fun other member => back other (List.mem_cons_of_mem d member)) fuel
        (by omega)
      rw [renderItems_true, renderItems_false, List.append_assoc, List.cons_append, readItems,
        back d List.mem_cons_self fuel _ (by omega)]
      simp only [skipWhite_cons (c := ',') (by decide), others, Option.map_some]

def textFields (fields : List (String × Document)) : List (Document × Document) :=
  fields.map fun field => (.text field.1, field.2)

section

variable {key : String} {d : Document} {fuel : Nat} {rest : List Char}

theorem readFields_last
    (value : readValue fuel (render d ++ '\x7d' :: rest) = some (d, '\x7d' :: rest)) :
    readFields (fuel + 1) (renderText key ++ ':' :: (render d ++ '\x7d' :: rest)) =
      some ([(.text key, d)], rest) := by
  rw [renderText, List.cons_append, List.append_assoc, List.singleton_append, readFields,
    skipWhite_cons (by decide)]
  simp only [readText_flatMap, skipWhite_cons (c := ':') (by decide), value,
    skipWhite_cons (c := '\x7d') (by decide)]

theorem readFields_more {others : List Char} {fields : List (Document × Document)}
    (value : readValue fuel (render d ++ ',' :: others) = some (d, ',' :: others))
    (back : readFields fuel others = some (fields, rest)) :
    readFields (fuel + 1) (renderText key ++ ':' :: (render d ++ ',' :: others)) =
      some ((.text key, d) :: fields, rest) := by
  rw [renderText, List.cons_append, List.append_assoc, List.singleton_append, readFields,
    skipWhite_cons (by decide)]
  simp only [readText_flatMap, skipWhite_cons (c := ':') (by decide), value,
    skipWhite_cons (c := ',') (by decide), back, Option.map_some]

end

theorem readFields_render {field : String × Document} {fields : List (String × Document)}
    (back : ∀ field' ∈ field :: fields, ReadsBack field'.2) (fuel : Nat) (rest : List Char)
    (enough : 2 * (renderFields true (textFields (field :: fields))).length ≤ fuel) :
    readFields fuel (renderFields true (textFields (field :: fields)) ++ rest) =
      some (textFields (field :: fields), rest) := by
  induction fields generalizing field fuel with
  | nil =>
      have written : renderFields true (textFields [field]) =
          renderText field.1 ++ ':' :: (render field.2 ++ ['\x7d']) := rfl
      rw [written] at enough ⊢
      simp only [List.length_append, List.length_cons] at enough
      obtain ⟨fuel, rfl⟩ : ∃ n, fuel = n + 1 := ⟨fuel - 1, by omega⟩
      have value := back field List.mem_cons_self fuel ('\x7d' :: rest) (by omega)
      rw [List.append_assoc, List.cons_append, List.append_assoc]
      exact readFields_last value
  | cons field' fields ih =>
      have written : renderFields true (textFields (field :: field' :: fields)) =
          renderText field.1 ++ ':' ::
            (render field.2 ++ ',' :: renderFields true (textFields (field' :: fields))) := rfl
      rw [written] at enough ⊢
      simp only [List.length_append, List.length_cons] at enough
      obtain ⟨fuel, rfl⟩ : ∃ n, fuel = n + 1 := ⟨fuel - 1, by omega⟩
      have value := back field List.mem_cons_self fuel
        (',' :: (renderFields true (textFields (field' :: fields)) ++ rest)) (by omega)
      have others := ih (fun other member => back other (List.mem_cons_of_mem field member)) fuel
        (by omega)
      rw [List.append_assoc, List.cons_append, List.append_assoc, List.cons_append]
      exact readFields_more value others

theorem Written.readsBack_of_succ {d : Document} (written : Written d)
    (back : ∀ fuel rest, 2 * (render d).length ≤ fuel + 2 →
      readValue (fuel + 1) (render d ++ rest) = some (d, rest)) : ReadsBack d := by
  intro fuel rest enough
  obtain ⟨c, cs, shown, -⟩ := written.head
  have positive : 0 < (render d).length := by simp [shown]
  obtain ⟨fuel, rfl⟩ : ∃ n, fuel = n + 1 := ⟨fuel - 1, by omega⟩
  exact back fuel rest enough

theorem readValue_list {d : Document} {ds : List Document} (written : Written d) {fuel : Nat}
    {rest : List Char}
    (found : readItems fuel (renderItems true (d :: ds) ++ rest) = some (d :: ds, rest)) :
    readValue (fuel + 1) (render (.list (d :: ds)) ++ rest) = some (.list (d :: ds), rest) := by
  obtain ⟨c, cs, shown, visible, opens⟩ := written.head
  obtain ⟨tail, front⟩ : ∃ tail, renderItems true (d :: ds) ++ rest = c :: tail :=
    ⟨cs ++ renderItems false ds ++ rest, by rw [renderItems_true, shown]; simp⟩
  rw [render, List.cons_append, readValue, skipWhite_cons (by decide)]
  rw [front] at found ⊢
  simp only [skipWhite_cons visible]
  split
  · rename_i other same
    exact absurd (List.cons.inj same).1 opens
  · rw [found]
    rfl

theorem readValue_record {field : String × Document} {fields : List (String × Document)}
    {fuel : Nat} {rest : List Char}
    (found : readFields fuel (renderFields true (textFields (field :: fields)) ++ rest) =
      some (textFields (field :: fields), rest)) :
    readValue (fuel + 1) (render (.ofFields (field :: fields)) ++ rest) =
      some (.ofFields (field :: fields), rest) := by
  have written : render (.ofFields (field :: fields)) =
      '\x7b' :: renderFields true (textFields (field :: fields)) := rfl
  obtain ⟨tail, front⟩ : ∃ tail, renderFields true (textFields (field :: fields)) ++ rest =
      '"' :: tail := ⟨_, rfl⟩
  rw [written, List.cons_append, readValue, skipWhite_cons (by decide)]
  rw [front] at found ⊢
  simp only [skipWhite_cons (c := '"') (by decide)]
  split
  · rename_i other same
    exact absurd (List.cons.inj same).1 (by decide)
  · rw [found]
    rfl

theorem Written.readsBack {d : Document} (written : Written d) : ReadsBack d := by
  induction written with
  | null => exact Written.null.readsBack_of_succ fun _ _ _ => rfl
  | bool b =>
      apply (Written.bool b).readsBack_of_succ
      cases b <;> exact fun _ _ _ => rfl
  | text s =>
      apply (Written.text s).readsBack_of_succ
      intro fuel rest _
      rw [render, renderText, List.cons_append, List.append_assoc, List.singleton_append, readValue,
        skipWhite_cons (by decide)]
      exact readText_flatMap s rest
  | @list items written back =>
      apply (Written.list written).readsBack_of_succ
      intro fuel rest enough
      cases items with
      | nil => rfl
      | cons d ds =>
          have length : (render (.list (d :: ds))).length =
              (renderItems true (d :: ds)).length + 1 := rfl
          exact readValue_list (written d List.mem_cons_self)
            (readItems_render back fuel rest (by omega))
  | @record fields written back =>
      apply (Written.record written).readsBack_of_succ
      intro fuel rest enough
      cases fields with
      | nil => rfl
      | cons field fields =>
          have length : (render (.ofFields (field :: fields))).length =
              (renderFields true (textFields (field :: fields))).length + 1 := rfl
          exact readValue_record (readFields_render back fuel rest (by omega))

theorem ofJson?_toJson {d : Document} (written : Written d) : ofJson? d.toJson = some d := by
  have back := written.readsBack (2 * (render d).length + 2) [] (by omega)
  rw [List.append_nil] at back
  simp [ofJson?, toJson, back, skipWhite]

end ChatArgs.Document
