import ChatArgs.Options.Layering

/-!
# Configurations that are spelled out

Written as options, a configuration decides every field, so it comes back whatever lies under it;
only a delimiter that is listed twice is lost. No configuration that options lead to lists one
twice. Options that were laid over a configuration change nothing when they are laid over it again.
-/

namespace ChatArgs

/-! ## Every item once -/

section

variable {α : Type} [DecidableEq α]

theorem notMem_of_mem_firstOccurrencesAux {seen xs : List α} {x : α}
    (kept : x ∈ firstOccurrencesAux seen xs) : x ∉ seen := by
  induction xs generalizing seen with
  | nil => simp [firstOccurrencesAux] at kept
  | cons y ys ih =>
      rw [firstOccurrencesAux] at kept
      split at kept
      · exact ih kept
      · rename_i fresh
        rcases List.mem_cons.1 kept with rfl | later
        · exact fresh
        · exact fun known => ih later (List.mem_cons_of_mem y known)

theorem nodup_firstOccurrencesAux (seen xs : List α) : (firstOccurrencesAux seen xs).Nodup := by
  induction xs generalizing seen with
  | nil => exact List.nodup_nil
  | cons x xs ih =>
      rw [firstOccurrencesAux]
      split
      · exact ih seen
      · rw [List.nodup_cons]
        exact ⟨fun again => notMem_of_mem_firstOccurrencesAux again List.mem_cons_self,
          ih (x :: seen)⟩

theorem firstOccurrencesAux_of_nodup {seen xs : List α} (distinct : xs.Nodup)
    (fresh : ∀ x ∈ xs, x ∉ seen) : firstOccurrencesAux seen xs = xs := by
  induction xs generalizing seen with
  | nil => rfl
  | cons x xs ih =>
      rw [List.nodup_cons] at distinct
      rw [List.forall_mem_cons] at fresh
      rw [firstOccurrencesAux, if_neg fresh.1, ih distinct.2]
      intro y later
      rw [List.mem_cons, not_or]
      exact ⟨fun same => distinct.1 (same ▸ later), fresh.2 y later⟩

/-- A list that is given has no item twice, since repetitions are left out. -/
theorem nodup_getD_firstOccurrences (given : Option (List α)) {base : List α}
    (distinct : base.Nodup) : ((given.map firstOccurrences).getD base).Nodup := by
  cases given with
  | none => exact distinct
  | some given => exact nodup_firstOccurrencesAux [] given

theorem firstOccurrences_eq_self_iff {xs : List α} : firstOccurrences xs = xs ↔ xs.Nodup := by
  constructor
  · intro same
    rw [← same]
    exact nodup_firstOccurrencesAux [] xs
  · intro distinct
    exact firstOccurrencesAux_of_nodup distinct (by simp)

end

/-! ## Delimiters -/

namespace Delimiters

structure Distinct (d : Delimiters) : Prop where
  quotes : d.quotes.Nodup
  markers : d.markers.Nodup

theorem Distinct.resolve {base : Delimiters} (distinct : base.Distinct)
    (given : Option DelimiterOptions) : (base.resolve given).Distinct := by
  cases given with
  | none => exact distinct
  | some given =>
      exact ⟨nodup_getD_firstOccurrences given.quotes distinct.quotes,
        nodup_getD_firstOccurrences given.markers distinct.markers⟩

theorem resolve_resolve (base : Delimiters) (given : Option DelimiterOptions) :
    (base.resolve given).resolve given = base.resolve given := by
  cases given with
  | none => rfl
  | some given => simp only [Delimiters.resolve, ← Option.getD_or, Option.or_self]

theorem resolve_own_iff (base d : Delimiters) :
    base.resolve (some ⟨some d.quotes, some d.markers⟩) = d ↔ d.Distinct := by
  have lists : base.resolve (some ⟨some d.quotes, some d.markers⟩) =
      ⟨firstOccurrences d.quotes, firstOccurrences d.markers⟩ := rfl
  rw [lists]
  constructor
  · intro same
    exact ⟨firstOccurrences_eq_self_iff.1 (congrArg quotes same),
      firstOccurrences_eq_self_iff.1 (congrArg markers same)⟩
  · rintro ⟨quotes, markers⟩
    rw [firstOccurrences_eq_self_iff.2 quotes, firstOccurrences_eq_self_iff.2 markers]

end Delimiters

/-! ## Nested features -/

theorem PlainLast.resolve_resolve (base : Option PlainLast) (given : Option PlainLastOption) :
    resolve (resolve base given) given = resolve base given := by
  rcases given with - | (value | keep)
  · rfl
  · cases value <;> rfl
  · cases keep <;> simp [resolve]

/-- A feature with one field, which `field` reads and `make` sets. -/
theorem Setting.resolve_resolve {ρ : Type} (make : Bool → ρ) (field : ρ → Bool)
    (made : ∀ value, field (make value) = value) (standard : Bool) (base : Option ρ)
    (given : Setting (Option Bool)) :
    given.resolve
        (given.resolve base fun under given => make ((given.or (under.map field)).getD standard))
        (fun under given => make ((given.or (under.map field)).getD standard)) =
      given.resolve base fun under given => make ((given.or (under.map field)).getD standard) := by
  rcases given with - | - | given
  · rfl
  · rfl
  · cases given <;> simp [resolve, made]

theorem Setting.resolve_ofOption {ρ : Type} (make : Bool → ρ) (field : ρ → Bool)
    (made : ∀ feature, make (field feature) = feature) (standard : Bool)
    (base target : Option ρ) :
    (Setting.ofOption (target.map fun feature => some (field feature))).resolve base
        (fun under given => make ((given.or (under.map field)).getD standard)) = target := by
  cases target <;> simp [ofOption, resolve, made]

/-! ## Whole configurations -/

namespace Config

/-- Laying options over a configuration a second time changes nothing. -/
theorem resolve_resolve (base : Config) (o : Options) :
    (base.resolve o).resolve o = base.resolve o := by
  have choices := Setting.resolve_resolve ChoiceMatching.mk ChoiceMatching.byValue (fun _ => rfl)
    true base.choices o.choices
  have replyFilling := Setting.resolve_resolve ReplyFilling.mk ReplyFilling.requirePing
    (fun _ => rfl) false base.replyFilling o.replyFilling
  simp only [resolve, Delimiters.resolve_resolve, PlainLast.resolve_resolve, ← Option.getD_or,
    Option.or_self]
  rw [choices, replyFilling]

/-- A configuration that is spelled out comes back, apart from delimiters listed twice. -/
theorem resolve_spellOut (base target : Config) :
    base.resolve target.spellOut =
      { target with
        delimiters := base.delimiters.resolve
          (some ⟨some target.delimiters.quotes, some target.delimiters.markers⟩) } := by
  have choices := Setting.resolve_ofOption ChoiceMatching.mk ChoiceMatching.byValue (fun _ => rfl)
    true base.choices target.choices
  have replyFilling := Setting.resolve_ofOption ReplyFilling.mk ReplyFilling.requirePing
    (fun _ => rfl) false base.replyFilling target.replyFilling
  have plainLast : PlainLast.resolve base.plainLast target.spellOut.plainLast =
      target.plainLast := by
    cases plain : target.plainLast <;> simp [spellOut, plain, PlainLast.resolve]
  rw [resolve, plainLast]
  simp only [spellOut]
  rw [choices, replyFilling]
  rfl

theorem resolve_spellOut_iff (base target : Config) :
    base.resolve target.spellOut = target ↔ target.delimiters.Distinct := by
  rw [resolve_spellOut, ← Delimiters.resolve_own_iff base.delimiters target.delimiters]
  constructor
  · exact congrArg delimiters
  · intro same
    rw [same]

/-- The configurations that options lead to, layer by layer, from the default. -/
inductive Reachable : Config → Prop
  | default : Reachable {}
  | ofOptions (o : Options) : Reachable (.ofOptions o)
  | resolve {config : Config} (o : Options) : Reachable config → Reachable (config.resolve o)

theorem Reachable.distinct {config : Config} (reachable : config.Reachable) :
    config.delimiters.Distinct := by
  have standard : ({} : Config).delimiters.Distinct := ⟨by decide, by decide⟩
  induction reachable with
  | default => exact standard
  | ofOptions o => exact standard.resolve o.delimiters
  | resolve o _ ih => exact ih.resolve o.delimiters

theorem reachable_iff {config : Config} : config.Reachable ↔ config.delimiters.Distinct := by
  constructor
  · exact Reachable.distinct
  · intro distinct
    have spelledOut := Reachable.ofOptions config.spellOut
    rwa [ofOptions, (resolve_spellOut_iff {} config).2 distinct] at spelledOut

/-- Options lead to the configurations without repeated delimiters. These are the ones that come
back over every base when they are spelled out, and options need to be laid over a base only
once. -/
theorem spelledOut_reapplied :
    (∀ config : Config, config.Reachable ↔ config.delimiters.Distinct) ∧
    (∀ base target : Config, base.resolve target.spellOut = target ↔ target.delimiters.Distinct) ∧
    ∀ (base : Config) (o : Options), (base.resolve o).resolve o = base.resolve o :=
  ⟨fun _ => reachable_iff, resolve_spellOut_iff, resolve_resolve⟩

end Config

end ChatArgs
