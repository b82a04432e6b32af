import ChatArgs.Proofs.Options.SpelledOut

/-!
# Options without repetitions

Options are deduplicated on some of the ways they come in, and on others not. Nothing that is
decided by them tells the difference: each list of delimiters keeps every item at its first place,
merging commutes with leaving repetitions out, and so options resolve alike with and without them.
-/

namespace ChatArgs

/-! ## First occurrences -/

section

variable {α : Type}

/-- The items of a list, every one once, and in the order in which they occur first. -/
structure KeepsFirsts (items kept : List α) : Prop where
  sublist : kept.Sublist items
  nodup : kept.Nodup
  mem_iff : ∀ x, x ∈ kept ↔ x ∈ items
  /-- In front of an item stand those that stand in front of its first occurrence. -/
  first : ∀ front x back, items = front ++ x :: back → x ∉ front →
    ∃ front' back', kept = front' ++ x :: back' ∧ ∀ y, y ∈ front' ↔ y ∈ front

variable [DecidableEq α] {seen xs : List α}

theorem sublist_firstOccurrencesAux (seen xs : List α) :
    (firstOccurrencesAux seen xs).Sublist xs := by
  induction xs generalizing seen with
  | nil => exact List.Sublist.slnil
  | cons x xs ih =>
      rw [firstOccurrencesAux]
      split
      · exact (ih seen).cons x
      · exact (ih (x :: seen)).cons_cons x

theorem mem_firstOccurrencesAux {x : α} :
    x ∈ firstOccurrencesAux seen xs ↔ x ∈ xs ∧ x ∉ seen := by
  constructor
  · intro kept
    exact ⟨(sublist_firstOccurrencesAux seen xs).mem kept, notMem_of_mem_firstOccurrencesAux kept⟩
  · induction xs generalizing seen with
    | nil => simp
    | cons y ys ih =>
        rintro ⟨member, fresh⟩
        rw [firstOccurrencesAux]
        by_cases same : x = y
        · subst same
          rw [if_neg fresh]
          exact List.mem_cons_self
        · have later := (List.mem_cons.1 member).resolve_left same
          split
          · exact ih ⟨later, fresh⟩
          · exact List.mem_cons_of_mem y (ih ⟨later, by simp [same, fresh]⟩)

/-- Which items were seen matters, and not in what order. -/
theorem firstOccurrencesAux_congr {seen' : List α} (same : ∀ x, x ∈ seen ↔ x ∈ seen')
    (xs : List α) : firstOccurrencesAux seen xs = firstOccurrencesAux seen' xs := by
  induction xs generalizing seen seen' with
  | nil => rfl
  | cons x xs ih =>
      have same' (y : α) : y ∈ x :: seen ↔ y ∈ x :: seen' := by simp [same]
      simp only [firstOccurrencesAux, same x, ih same, ih same']

theorem firstOccurrencesAux_append (seen front back : List α) :
    firstOccurrencesAux seen (front ++ back) =
      firstOccurrencesAux seen front ++ firstOccurrencesAux (front ++ seen) back := by
  induction front generalizing seen with
  | nil => rfl
  | cons x front ih =>
      have known (member : x ∈ seen) (y : α) : y ∈ front ++ seen ↔ y ∈ x :: (front ++ seen) := by
        simp only [List.mem_append, List.mem_cons]
        constructor
        · exact .inr
        · rintro (rfl | old)
          · exact .inr member
          · exact old
      have moved (y : α) : y ∈ front ++ x :: seen ↔ y ∈ x :: (front ++ seen) := by
        simp only [List.mem_append, List.mem_cons, or_left_comm]
      simp only [List.cons_append, firstOccurrencesAux]
      split
      · rename_i member
        rw [ih, firstOccurrencesAux_congr (known member)]
      · rw [ih, firstOccurrencesAux_congr moved, List.cons_append]

theorem keepsFirsts_firstOccurrences (items : List α) :
    KeepsFirsts items (firstOccurrences items) where
  sublist := sublist_firstOccurrencesAux [] items
  nodup := nodup_firstOccurrencesAux [] items
  mem_iff := by simp [firstOccurrences, mem_firstOccurrencesAux]
  first := by
    rintro front x back rfl fresh
    have split := firstOccurrencesAux_append [] front (x :: back)
    rw [List.append_nil, firstOccurrencesAux, if_neg fresh] at split
    exact ⟨firstOccurrences front, _, split, by simp [firstOccurrences, mem_firstOccurrencesAux]⟩

theorem firstOccurrences_firstOccurrences (items : List α) :
    firstOccurrences (firstOccurrences items) = firstOccurrences items :=
  firstOccurrences_eq_self_iff.2 (nodup_firstOccurrencesAux [] items)

theorem map_firstOccurrences_twice (given : Option (List α)) :
    (given.map firstOccurrences).map firstOccurrences = given.map firstOccurrences := by
  cases given with
  | none => rfl
  | some items => exact congrArg some (firstOccurrences_firstOccurrences items)

theorem rel_map_firstOccurrences (given : Option (List α)) :
    Option.Rel KeepsFirsts given (given.map firstOccurrences) := by
  cases given with
  | none => exact .none
  | some items => exact .some (keepsFirsts_firstOccurrences items)

end

/-! ## Delimiters -/

structure DelimiterOptions.KeepsFirsts (given kept : DelimiterOptions) : Prop where
  quotes : Option.Rel ChatArgs.KeepsFirsts given.quotes kept.quotes
  markers : Option.Rel ChatArgs.KeepsFirsts given.markers kept.markers

namespace Options

/-- A list that is given upstairs hides the one underneath, with or without repetitions. -/
theorem delimiters_deduplicated_merge (lower upper : Options) :
    (lower.merge upper).deduplicated.delimiters =
      mergeDelimiters lower.deduplicated.delimiters upper.deduplicated.delimiters := by
  simp only [deduplicated, merge]
  cases lower.delimiters with
  | none => rfl
  | some lower =>
      cases upper.delimiters with
      | none => rfl
      | some upper =>
          simp only [mergeDelimiters, Option.map_some, DelimiterOptions.merge, Option.map_or]

theorem deduplicated_merge (lower upper : Options) :
    (lower.merge upper).deduplicated = lower.deduplicated.merge upper.deduplicated := by
  calc (lower.merge upper).deduplicated
      = { lower.merge upper with delimiters := (lower.merge upper).deduplicated.delimiters } := rfl
    _ = lower.deduplicated.merge upper.deduplicated := by
        rw [delimiters_deduplicated_merge]
        rfl

theorem deduplicated_deduplicated (o : Options) : o.deduplicated.deduplicated = o.deduplicated := by
  simp only [deduplicated, Option.map_map, Function.comp_def,
    firstOccurrences_firstOccurrences]

/-- All that deduplication may change. -/
structure KeepsFirsts (o kept : Options) : Prop where
  delimiters : Option.Rel DelimiterOptions.KeepsFirsts o.delimiters kept.delimiters
  others : kept = { o with delimiters := kept.delimiters }

theorem keepsFirsts_deduplicated (o : Options) : KeepsFirsts o o.deduplicated where
  delimiters := by
    unfold deduplicated
    cases o.delimiters with
    | none => exact .none
    | some given =>
        exact .some ⟨rel_map_firstOccurrences given.quotes, rel_map_firstOccurrences given.markers⟩
  others := rfl

end Options

theorem Config.resolve_deduplicated (base : Config) (o : Options) :
    base.resolve o.deduplicated = base.resolve o := by
  have delimiters : base.delimiters.resolve o.deduplicated.delimiters =
      base.delimiters.resolve o.delimiters := by
    unfold Options.deduplicated
    cases o.delimiters with
    | none => rfl
    | some given => simp only [Option.map_some, Delimiters.resolve, map_firstOccurrences_twice]
  rw [resolve, delimiters]
  rfl

/-- Deduplicating options keeps every delimiter at its first place and all else as it is, once is
enough, it commutes with merging, and what options resolve to does not depend on it. -/
theorem Options.deduplicated_unseen :
    (∀ o : Options, KeepsFirsts o o.deduplicated) ∧
    (∀ o : Options, o.deduplicated.deduplicated = o.deduplicated) ∧
    (∀ lower upper : Options,
      (lower.merge upper).deduplicated = lower.deduplicated.merge upper.deduplicated) ∧
    ∀ (base : Config) (o : Options), base.resolve o.deduplicated = base.resolve o :=
  ⟨keepsFirsts_deduplicated, deduplicated_deduplicated, deduplicated_merge,
    Config.resolve_deduplicated⟩

end ChatArgs
