import ChatArgs.Options.Layering

/-!
# Stacks of layers

Options can be laid over a configuration one after the other, or be merged first. Merging is
associative with empty options as its unit, and resolving turns it into composition, so both
ways answer the same for every stack of layers.
-/

namespace ChatArgs

/-! ## Delimiters -/

namespace Delimiters

theorem resolve_mergeDelimiters (base : Delimiters) (lower upper : Option DelimiterOptions) :
    base.resolve (Options.mergeDelimiters lower upper) = (base.resolve lower).resolve upper := by
  cases lower with
  | none => rfl
  | some lower =>
      cases upper with
      | none => rfl
      | some upper =>
          simp only [Options.mergeDelimiters, DelimiterOptions.merge, resolve, Option.map_or,
            Option.getD_or]

end Delimiters

namespace Options

theorem mergeDelimiters_assoc (lower middle upper : Option DelimiterOptions) :
    mergeDelimiters (mergeDelimiters lower middle) upper =
      mergeDelimiters lower (mergeDelimiters middle upper) := by
  cases lower with
  | none => rfl
  | some lower =>
      cases middle with
      | none => rfl
      | some middle =>
          cases upper with
          | none => rfl
          | some upper => simp only [mergeDelimiters, DelimiterOptions.merge, Option.or_assoc]

@[simp] theorem mergeDelimiters_none (lower : Option DelimiterOptions) :
    mergeDelimiters lower none = lower := by
  cases lower <;> rfl

end Options

/-! ## The last slot -/

namespace PlainLast

/-- Details over a plain choice start from the default, as they do over what the plain choice
resolves to. -/
theorem resolve_merge (base : Option PlainLast) (lower upper : Option PlainLastOption) :
    resolve base (PlainLastOption.merge lower upper) = resolve (resolve base lower) upper := by
  cases upper with
  | none => simp [PlainLastOption.merge, resolve]
  | some upper =>
      cases upper with
      | enabled value => cases value <;> simp [PlainLastOption.merge, resolve]
      | detailed given =>
          cases lower with
          | none => rfl
          | some lower =>
              cases lower with
              | enabled value => cases value <;> cases given <;> rfl
              | detailed under => cases given <;> simp [PlainLastOption.merge, resolve]

end PlainLast

namespace PlainLastOption

theorem merge_assoc (lower middle upper : Option PlainLastOption) :
    merge (merge lower middle) upper = merge lower (merge middle upper) := by
  cases upper with
  | none => simp [merge]
  | some upper =>
      cases upper with
      | enabled value => simp [merge]
      | detailed given =>
          cases middle with
          | none => cases lower <;> simp [merge]
          | some middle =>
              cases middle with
              | enabled value =>
                  rcases lower with - | - | - <;> simp [merge]
              | detailed under =>
                  rcases lower with - | - | - <;> simp [merge, Option.or_assoc]

@[simp] theorem merge_none_left (upper : Option PlainLastOption) : merge none upper = upper := by
  rcases upper with - | - | - <;> rfl

@[simp] theorem merge_none_right (lower : Option PlainLastOption) : merge lower none = lower := by
  simp [merge]

end PlainLastOption

/-! ## Nested features -/

namespace Setting

/-- A feature with one field, which `field` reads and `make` sets. A layer that switches it off
hides the layers underneath, so that those above it start from the standard value. -/
theorem resolve_merge {ρ : Type} (make : Bool → ρ) (field : ρ → Bool)
    (made : ∀ value, field (make value) = value) (standard : Bool) (base : Option ρ)
    (lower upper : Setting (Option Bool)) :
    (merge standard lower upper).resolve base
        (fun under given => make ((given.or (under.map field)).getD standard)) =
      upper.resolve
        (lower.resolve base
          fun under given => make ((given.or (under.map field)).getD standard))
        fun under given => make ((given.or (under.map field)).getD standard) := by
  cases upper with
  | unset => rfl
  | off => rfl
  | on given =>
      cases lower with
      | unset => simp [merge, resolve]
      | off => cases given <;> simp [merge, resolve]
      | on under => cases given <;> simp [merge, resolve, made]

theorem merge_assoc (standard : Bool) (lower middle upper : Setting (Option Bool)) :
    merge standard (merge standard lower middle) upper =
      merge standard lower (merge standard middle upper) := by
  cases upper with
  | unset => rfl
  | off => rfl
  | on given =>
      cases middle with
      | unset => simp [merge]
      | off => simp [merge]
      | on under => simp [merge, Option.or_assoc]

@[simp] theorem merge_unset_left (standard : Bool) (upper : Setting (Option Bool)) :
    merge standard .unset upper = upper := by
  cases upper <;> simp [merge]

@[simp] theorem merge_unset_right (standard : Bool) (lower : Setting (Option Bool)) :
    merge standard lower .unset = lower := rfl

end Setting

/-! ## Whole options -/

namespace Options

theorem merge_assoc (lower middle upper : Options) :
    (lower.merge middle).merge upper = lower.merge (middle.merge upper) := by
  simp only [merge, mergeDelimiters_assoc, PlainLastOption.merge_assoc, Setting.merge_assoc,
    Option.or_assoc]

theorem empty_merge (upper : Options) : ({} : Options).merge upper = upper := by
  simp [merge, mergeDelimiters]

theorem merge_empty (lower : Options) : lower.merge {} = lower := by
  simp [merge]

end Options

namespace Config

theorem resolve_empty (base : Config) : base.resolve {} = base := rfl

theorem resolve_merge (base : Config) (lower upper : Options) :
    base.resolve (lower.merge upper) = (base.resolve lower).resolve upper := by
  have choices := Setting.resolve_merge ChoiceMatching.mk ChoiceMatching.byValue (fun _ => rfl)
    true base.choices lower.choices upper.choices
  have replyFilling := Setting.resolve_merge ReplyFilling.mk ReplyFilling.requirePing
    (fun _ => rfl) false base.replyFilling lower.replyFilling upper.replyFilling
  simp only [resolve, Options.merge, Delimiters.resolve_mergeDelimiters, PlainLast.resolve_merge]
  rw [choices, replyFilling]
  simp only [Option.getD_or]

theorem foldl_resolve (base : Config) (merged : Options) (layers : List Options) :
    layers.foldl resolve (base.resolve merged) =
      base.resolve (layers.foldl Options.merge merged) := by
  induction layers generalizing merged with
  | nil => rfl
  | cons layer layers ih => rw [List.foldl_cons, List.foldl_cons, ← resolve_merge, ih]

end Config

/-- Options form a monoid under merging, and a stack of layers resolves as its product does. -/
theorem Options.merge_layers :
    (∀ lower middle upper : Options,
      (lower.merge middle).merge upper = lower.merge (middle.merge upper)) ∧
    (∀ o : Options, ({} : Options).merge o = o ∧ o.merge {} = o) ∧
    ∀ (base : Config) (layers : List Options),
      layers.foldl Config.resolve base = base.resolve (layers.foldl Options.merge {}) := by
  refine ⟨merge_assoc, fun o => ⟨empty_merge o, merge_empty o⟩, fun base layers => ?_⟩
  have whole := Config.foldl_resolve base {} layers
  rwa [Config.resolve_empty] at whole

end ChatArgs
