import Formula.Proofs.Expr.Variables

/-!
# The subtrees of an expression

`Expr.children` says what stands directly below a node, and everything about subtrees follows from
it: `Expr.subtrees` is the preorder of the nodes by their children (`subtrees_eq`), the depth is one
more than that of the deepest child, and a property that nodes hand down to their children holds of
all subtrees (`of_mem_subtrees`).
-/

namespace Formula.Expr

/-- A property of all trees may be proved of a node from the trees of its children. -/
@[elab_as_elim]
theorem children_induction {motive : Expr → Prop}
    (node : ∀ e : Expr, (∀ child ∈ e.children, motive child) → motive e) (e : Expr) : motive e := by
  induction e with
  | lit negative value => exact node _ (by simp [children])
  | var negative name => exact node _ (by simp [children])
  | binary negative op left right ihl ihr => exact node _ (by simp [children, ihl, ihr])
  | cond negative condition whenTrue whenFalse ihc iht ihf =>
    exact node _ (by simp [children, ihc, iht, ihf])

/-- The subtrees are the tree itself and then those of each child, in source order. -/
theorem subtrees_eq (e : Expr) : e.subtrees = e :: e.children.flatMap subtrees := by
  cases e <;> simp [subtrees, children]

/-- What every node hands down to its children holds of all subtrees. -/
theorem of_mem_subtrees {p : Expr → Prop}
    (hdown : ∀ {e child : Expr}, child ∈ e.children → p e → p child) {e s : Expr} (he : p e)
    (hs : s ∈ e.subtrees) : p s := by
  induction e using children_induction with
  | node e ih =>
    rw [subtrees_eq, List.mem_cons, List.mem_flatMap] at hs
    obtain rfl | ⟨child, hchild, hs⟩ := hs
    · exact he
    · exact ih child hchild (hdown hchild he) hs

/-- A node with children is one step higher than the highest of them. -/
theorem exists_depth_eq {e : Expr} (h : e.children ≠ []) :
    ∃ child ∈ e.children, e.depth = child.depth + 1 := by
  cases e with
  | lit negative value | var negative name => exact absurd rfl h
  | binary negative op left right =>
    simp only [children, depth, List.mem_cons, List.not_mem_nil, or_false, exists_eq_or_imp,
      exists_eq_left]
    omega
  | cond negative condition whenTrue whenFalse =>
    simp only [children, depth, List.mem_cons, List.not_mem_nil, or_false, exists_eq_or_imp,
      exists_eq_left]
    omega

end Formula.Expr
