import Formula.Proofs.Expr.Subtrees
import Formula.Proofs.Typing.Unlimited

/-!
# A check covers the whole tree

A typing rule asks for the types of all children, also of those that an evaluation may leave out.
So where a check succeeds it has accepted every subtree, found every variable declared, and gone
down to the deepest leaf (`Expr.checkWithin_covers`).
-/

namespace Formula.Expr

variable {types : TypeEnvironment} {e : Expr} {t : ValueType} {limit : Nat}

/-- A tree has a type only if its children have one. -/
theorem exists_typeIn_of_mem_children {child : Expr} (hchild : child ∈ e.children)
    (h : ∃ t, e.typeIn types = .ok t) : ∃ u, child.typeIn types = .ok u := by
  obtain ⟨t, h⟩ := h
  cases e with
  | lit negative value | var negative name => cases hchild
  | binary negative op left right =>
    -- both operands, whichever of them an evaluation would need
    obtain ⟨s₁, s₂, hl, hr, -⟩ := typeIn_binary_eq_ok_iff.mp h
    simp only [children, List.mem_cons, List.not_mem_nil, or_false] at hchild
    obtain rfl | rfl := hchild
    · exact ⟨s₁, hl⟩
    · exact ⟨s₂, hr⟩
  | cond negative condition whenTrue whenFalse =>
    -- the condition and both branches
    obtain ⟨hc, s₁, s₂, ht, hf, -⟩ := typeIn_cond_eq_ok_iff.mp h
    simp only [children, List.mem_cons, List.not_mem_nil, or_false] at hchild
    obtain rfl | rfl | rfl := hchild
    · exact ⟨.boolean, hc⟩
    · exact ⟨s₁, ht⟩
    · exact ⟨s₂, hf⟩

/-- A variable has a type only if it is declared. -/
theorem exists_find?_of_typeIn_var {negative : Bool} {name : String}
    (h : (var negative name).typeIn types = .ok t) : ∃ u, types.find? name = some u := by
  simp only [typeIn] at h
  cases hfind : types.find? name with
  | none =>
    rw [hfind] at h
    cases h
  | some u => exact ⟨u, rfl⟩

/-- A tree that checks does so in all its parts. -/
theorem exists_checkWithin_of_mem_subtrees (h : e.checkWithin limit types = .ok t) {s : Expr}
    (hs : s ∈ e.subtrees) : ∃ u, s.checkWithin limit types = .ok u := by
  -- a child is as well typed as its parent, and not as deep
  have hdown {e child : Expr} (hchild : child ∈ e.children)
      (he : (∃ t, e.typeIn types = .ok t) ∧ e.depth ≤ limit) :
      (∃ t, child.typeIn types = .ok t) ∧ child.depth ≤ limit :=
    ⟨exists_typeIn_of_mem_children hchild he.1,
      Nat.le_trans (Nat.le_of_lt (depth_lt_of_mem_children hchild)) he.2⟩
  obtain ⟨⟨u, hu⟩, hdepth⟩ :=
    of_mem_subtrees hdown ⟨⟨t, typeIn_of_checkWithin h⟩, depth_le_of_checkWithin h⟩ hs
  exact ⟨u, by rw [checkWithin_of_depth_le types s hdepth, hu]⟩

/-- A check that succeeds has left out nothing: every subtree checks under the same declarations and
    the same limit, every variable of the tree is declared, and the tree keeps to the limit. -/
theorem checkWithin_covers (h : e.checkWithin limit types = .ok t) :
    (∀ s ∈ e.subtrees, ∃ u, s.checkWithin limit types = .ok u) ∧
      (∀ name, e.Mentions name → ∃ u, types.find? name = some u) ∧ e.depth ≤ limit := by
  refine ⟨fun s => exists_checkWithin_of_mem_subtrees h, fun name hname => ?_,
    depth_le_of_checkWithin h⟩
  obtain ⟨negative, hs⟩ := hname
  obtain ⟨u, hu⟩ := exists_checkWithin_of_mem_subtrees h hs
  exact exists_find?_of_typeIn_var (typeIn_of_checkWithin hu)

/-- In `false and (if b then x < 1 else -y = x)` the check goes on behind the operand that decides,
    down to `-y` in the last branch. -/
theorem checkWithin_covers_shortCircuit :
    let types : TypeEnvironment :=
      ((Bindings.empty.insert "b" .boolean).insert "x" .real).insert "y" .integer
    let e : Expr := .binary false .and (.lit false (.boolean false))
      (.cond false (.var false "b")
        (.binary false (.compare .lessThan) (.var false "x") (.lit false (.integer 1)))
        (.binary false (.compare .equal) (.var true "y") (.var false "x")))
    e.checkWithin 4 types = .ok .boolean ∧
      (∃ u, (var true "y").checkWithin 4 types = .ok u) ∧
      (∃ u, types.find? "y" = some u) ∧ e.depth ≤ 4 := by
  intro types e
  have h : e.checkWithin 4 types = .ok .boolean := rfl
  obtain ⟨hsubtrees, hdeclared, hdepth⟩ := checkWithin_covers h
  exact ⟨h, hsubtrees _ (by simp [e, subtrees]), hdeclared "y" (by simp [e]), hdepth⟩

end Formula.Expr
