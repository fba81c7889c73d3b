import Formula.Proofs.Typing.Soundness

/-!
# Promotion of declared types

A variable that is declared as an integer may be declared as a real instead: a tree with a type
keeps it, or gets the type of reals in the place of that of integers.  The typing rules are monotone
in the promotion of integers to reals, one rule at a time:

* `ValueType.PromotesTo.promoted`, `ValueType.PromotesTo.exists_unify`: the types of arithmetic and
  of conditionals
* `Operator.Allows.exists_promoted`: the rule of every operator
* `Expr.checkWithin_promote`: checks of whole trees, within a limit
-/

namespace Formula

/-- Whether a type is another one or is promoted to it, as that of integers is to that of reals. -/
def ValueType.PromotesTo (s t : ValueType) : Prop :=
  t = s ∨ s = .integer ∧ t = .real

/-- Whether types declare the same variables as others do, and each with the same type, or with that
    of reals for that of integers. -/
def TypeEnvironment.PromotesTo (types types' : TypeEnvironment) : Prop :=
  ∀ name, types'.find? name = types.find? name ∨
    types.find? name = some .integer ∧ types'.find? name = some .real

/-! ## Types -/

namespace ValueType

variable {s t u s' t' : ValueType}

theorem promotesTo_real_iff : t.PromotesTo .real ↔ t.isNumeric := by
  cases t <;> simp [PromotesTo, isNumeric]

/-- A common type is that of a number if each of the two types is. -/
theorem isNumeric_eq_of_unify (h : s.unify t = some u) :
    s.isNumeric = u.isNumeric ∧ t.isNumeric = u.isNumeric := by
  cases s <;> cases t <;> cases h <;> exact ⟨rfl, rfl⟩

/-- Beside a real every number becomes one. -/
theorem unify_real (h : t.isNumeric) :
    t.unify .real = some .real ∧ ValueType.real.unify t = some .real := by
  cases t with
  | integer | real => exact ⟨rfl, rfl⟩
  | boolean => cases h

namespace PromotesTo

theorem refl (t : ValueType) : t.PromotesTo t := .inl rfl

/-- Promotion is among the types of numbers. -/
theorem isNumeric_eq (h : s.PromotesTo t) : t.isNumeric = s.isNumeric := by
  obtain rfl | ⟨rfl, rfl⟩ := h
  · rfl
  · rfl

theorem eq_boolean (h : ValueType.boolean.PromotesTo t) : t = .boolean := by
  obtain h | ⟨h, -⟩ := h
  · exact h
  · cases h

/-- Promoted operands have the same result or that of reals. -/
theorem promoted (hs : s.PromotesTo s') (ht : t.PromotesTo t') :
    (Checker.promoted s t).PromotesTo (Checker.promoted s' t') := by
  obtain rfl | ⟨rfl, rfl⟩ := hs
  · obtain rfl | ⟨rfl, rfl⟩ := ht
    · exact refl _
    · rw [promoted_real_right]
      exact promotesTo_real_iff.mpr (isNumeric_promoted _ _)
  · rw [promoted_real_left]
    exact promotesTo_real_iff.mpr (isNumeric_promoted _ _)

/-- Promoted types have a common type if the types before had one: the same or that of reals. -/
theorem exists_unify (hs : s.PromotesTo s') (ht : t.PromotesTo t') (hu : s.unify t = some u) :
    ∃ u', s'.unify t' = some u' ∧ u.PromotesTo u' := by
  obtain ⟨hsu, htu⟩ := isNumeric_eq_of_unify hu
  -- where one of the two is promoted, the other one is a number, and the real wins
  obtain rfl | ⟨rfl, rfl⟩ := hs
  · obtain rfl | ⟨rfl, rfl⟩ := ht
    · exact ⟨u, hu, refl u⟩
    · have hs' := hsu.trans htu.symm
      exact ⟨.real, (unify_real hs').1, promotesTo_real_iff.mpr htu.symm⟩
  · have ht' := ht.isNumeric_eq.trans (htu.trans hsu.symm)
    exact ⟨.real, (unify_real ht').2, promotesTo_real_iff.mpr hsu.symm⟩

end PromotesTo

end ValueType

/-! ## Rules -/

/-- An operator that accepts two types accepts what they are promoted to. -/
theorem Operator.Allows.exists_promoted {op : Operator} {s t u s' t' : ValueType}
    (h : op.Allows s t u) (hs : s.PromotesTo s') (ht : t.PromotesTo t') :
    ∃ u', op.Allows s' t' u' ∧ u.PromotesTo u' := by
  have hs' := hs.isNumeric_eq
  have ht' := ht.isNumeric_eq
  -- numbers stay numbers, and truth values are not promoted
  cases op with
  | arithmetic op =>
    obtain ⟨hsn, htn, rfl⟩ := h
    exact ⟨_, ⟨hs'.trans hsn, ht'.trans htn, rfl⟩, hs.promoted ht⟩
  | and | or =>
    obtain ⟨rfl, rfl, rfl⟩ := h
    exact ⟨.boolean, ⟨hs.eq_boolean, ht.eq_boolean, rfl⟩, .refl _⟩
  | distinct => exact ⟨u, h, .refl u⟩
  | compare comparator =>
    obtain ⟨hst, rfl⟩ := h
    refine ⟨.boolean, ⟨?_, rfl⟩, .refl _⟩
    cases hc : comparator.isOrdering with
    | true =>
      rw [hc] at hst
      exact ⟨hs'.trans hst.1, ht'.trans hst.2⟩
    | false =>
      -- equality needs no more than a common type
      rw [hc] at hst
      obtain ⟨common, hcommon⟩ := Option.isSome_iff_exists.mp hst
      obtain ⟨common', hcommon', -⟩ := hs.exists_unify ht hcommon
      exact Option.isSome_iff_exists.mpr ⟨common', hcommon'⟩

/-! ## Trees -/

namespace Expr

variable {types types' : TypeEnvironment} {t : ValueType}

/-- A tree with a type has one under promoted declarations too, promoted or the same. -/
theorem exists_typeIn_promote (h : types.PromotesTo types') {e : Expr}
    (ht : e.typeIn types = .ok t) : ∃ t', e.typeIn types' = .ok t' ∧ t.PromotesTo t' := by
  -- on the tree: a part with a promoted type makes the whole have one too, or changes nothing
  induction e generalizing t with
  | lit negative value => exact ⟨t, ht, .refl t⟩
  | var negative name =>
    simp only [typeIn] at ht ⊢
    cases hx : types.find? name with
    | none =>
      rw [hx] at ht
      cases ht
    | some s =>
      rw [hx] at ht
      obtain ⟨rfl, hn⟩ := Checker.signed_eq_ok_iff.mp ht
      -- declared as before, or as a real instead of an integer
      obtain hsame | ⟨hinteger, hreal⟩ := h name
      · rw [hsame, hx]
        exact ⟨s, ht, .refl s⟩
      · rw [hreal]
        cases hinteger.symm.trans hx
        exact ⟨.real, Checker.signed_eq_ok_iff.mpr ⟨rfl, fun _ => rfl⟩, .inr ⟨rfl, rfl⟩⟩
  | binary negative op left right ihl ihr =>
    obtain ⟨s₁, s₂, hl, hr, hop, hn⟩ := typeIn_binary_eq_ok_iff.mp ht
    obtain ⟨s₁', hl', hs₁⟩ := ihl hl
    obtain ⟨s₂', hr', hs₂⟩ := ihr hr
    obtain ⟨t', hop', ht'⟩ := hop.exists_promoted hs₁ hs₂
    exact ⟨t', typeIn_binary_eq_ok_iff.mpr
      ⟨s₁', s₂', hl', hr', hop', fun hneg => ht'.isNumeric_eq.trans (hn hneg)⟩, ht'⟩
  | cond negative condition whenTrue whenFalse ihc iht ihf =>
    obtain ⟨hc, s₁, s₂, h₁, h₂, hu, hn⟩ := typeIn_cond_eq_ok_iff.mp ht
    obtain ⟨c, hc', hboolean⟩ := ihc hc
    obtain ⟨s₁', h₁', hs₁⟩ := iht h₁
    obtain ⟨s₂', h₂', hs₂⟩ := ihf h₂
    obtain ⟨t', hu', ht'⟩ := hs₁.exists_unify hs₂ hu
    rw [hboolean.eq_boolean] at hc'
    exact ⟨t', typeIn_cond_eq_ok_iff.mpr
      ⟨hc', s₁', s₂', h₁', h₂', hu', fun hneg => ht'.isNumeric_eq.trans (hn hneg)⟩, ht'⟩

/-- A check that succeeds still does within the same limit where some variables are declared as
    reals and no longer as integers.  The type stays the same or is promoted. -/
theorem checkWithin_promote (h : types.PromotesTo types') {limit : Nat} {e : Expr}
    (ht : e.checkWithin limit types = .ok t) :
    ∃ t', e.checkWithin limit types' = .ok t' ∧ (t' = t ∨ t = .integer ∧ t' = .real) := by
  -- the check that succeeds has shown that the tree keeps to the limit
  rw [checkWithin_of_depth_le types' e (depth_le_of_checkWithin ht)]
  exact exists_typeIn_promote h (typeIn_of_checkWithin ht)

/-- The type of a conditional between two integers, one of which is declared as a real instead. -/
theorem checkWithin_promote_conditional :
    let types : TypeEnvironment := (Bindings.empty.insert "m" .integer).insert "n" .integer
    let types' : TypeEnvironment := (Bindings.empty.insert "m" .integer).insert "n" .real
    let e : Expr := .cond true
      (.binary false (.compare .equal) (.var false "m") (.var true "n"))
      (.var false "m") (.binary false (.arithmetic .power) (.var false "n") (.var false "m"))
    types.PromotesTo types' ∧ e.checkWithin 3 types = .ok .integer ∧
      ∃ t', e.checkWithin 3 types' = .ok t' ∧
        (t' = .integer ∨ ValueType.integer = .integer ∧ t' = .real) := by
  intro types types' e
  have hpromotes : types.PromotesTo types' := by
    intro name
    by_cases hn : name = "n"
    · subst hn
      exact .inr ⟨rfl, rfl⟩
    · left
      rw [Bindings.find?_insert_ne _ hn, Bindings.find?_insert_ne _ hn]
  have ht : e.checkWithin 3 types = .ok .integer := rfl
  exact ⟨hpromotes, ht, checkWithin_promote hpromotes ht⟩

end Expr

end Formula
