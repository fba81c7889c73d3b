import Formula.Expr.Basic

/-!
# The variables of an expression

`Expr.Mentions` says which variables occur in a tree.  `Expr.replaceVars` puts a tree in the place
of each occurrence, and `Expr.substitute` a literal in the places of one variable.  A literal keeps
the sign flag of the occurrence that it stands for.
-/

namespace Formula.Expr

/-- Whether a variable occurs in a tree. -/
def Mentions (name : String) (e : Expr) : Prop :=
  ∃ negative, var negative name ∈ e.subtrees

/-- The tree with every variable replaced by what stands for it, given its sign flag and name. -/
def replaceVars (stand : Bool → String → Expr) : Expr → Expr
  | .lit negative value => .lit negative value
  | .var negative name => stand negative name
  | .binary negative op left right =>
    .binary negative op (left.replaceVars stand) (right.replaceVars stand)
  | .cond negative condition whenTrue whenFalse =>
    .cond negative (condition.replaceVars stand) (whenTrue.replaceVars stand)
      (whenFalse.replaceVars stand)

/-- The tree with a literal in the place of every occurrence of a variable. -/
def substitute (name : String) (value : Value) (e : Expr) : Expr :=
  e.replaceVars fun negative other =>
    if other = name then .lit negative value else .var negative other

variable {name : String} {negative : Bool}

@[simp] theorem mentions_lit_iff {value : Value} : (lit negative value).Mentions name ↔ False := by
  simp [Mentions, subtrees]

@[simp] theorem mentions_var_iff {other : String} :
    (var negative other).Mentions name ↔ name = other := by
  simp [Mentions, subtrees]

@[simp] theorem mentions_binary_iff {op : Operator} {left right : Expr} :
    (binary negative op left right).Mentions name ↔ left.Mentions name ∨ right.Mentions name := by
  simp [Mentions, subtrees, exists_or]

@[simp] theorem mentions_cond_iff {condition whenTrue whenFalse : Expr} :
    (cond negative condition whenTrue whenFalse).Mentions name ↔
      condition.Mentions name ∨ whenTrue.Mentions name ∨ whenFalse.Mentions name := by
  simp [Mentions, subtrees, exists_or]

/-- A tree has the variables of its children. -/
theorem Mentions.of_child {child e : Expr} (h : child.Mentions name) (hchild : child ∈ e.children) :
    e.Mentions name := by
  -- a node mentions what one of its operands mentions, and a leaf has none
  cases e with
  | lit | var => cases hchild
  | binary negative op left right =>
    rw [mentions_binary_iff]
    simp only [children, List.mem_cons, List.not_mem_nil, or_false] at hchild
    obtain rfl | rfl := hchild
    · exact .inl h
    · exact .inr h
  | cond negative condition whenTrue whenFalse =>
    rw [mentions_cond_iff]
    simp only [children, List.mem_cons, List.not_mem_nil, or_false] at hchild
    obtain rfl | rfl | rfl := hchild
    · exact .inl h
    · exact .inr (.inl h)
    · exact .inr (.inr h)

/-- A tree is deeper than its children. -/
theorem depth_lt_of_mem_children {child e : Expr} (h : child ∈ e.children) :
    child.depth < e.depth := by
  cases e with
  | lit | var => cases h
  | binary | cond =>
    simp only [children, List.mem_cons, List.not_mem_nil, or_false] at h
    simp only [depth]
    grind

/-- Variables that stand for themselves leave a tree as it is. -/
@[simp] theorem replaceVars_var (e : Expr) : e.replaceVars var = e := by
  induction e with
  | lit | var => rfl
  | binary negative op left right ihl ihr => rw [replaceVars, ihl, ihr]
  | cond negative condition whenTrue whenFalse ihc iht ihf => rw [replaceVars, ihc, iht, ihf]

end Formula.Expr
