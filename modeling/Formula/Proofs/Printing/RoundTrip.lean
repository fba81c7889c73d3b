import Formula.Proofs.Parser.Correctness
import Formula.Proofs.Printing.Canonical

/-!
# Parsing undoes printing

The canonical source of a tree is an operand: a literal, a variable, or something in parentheses.
`reads_tokens` reads it back, and `Expr.printedNeed` counts how deep expressions nest in it: two
levels for every node with children, and two for every sign flag.
-/

namespace Formula

namespace Expr

/-- The nesting of a node with its sign flag, given its nesting without. -/
def signedNeed (negative : Bool) (need : Nat) : Nat :=
  if negative then need + 2 else need

/-- How deep expressions nest in the canonical source of a tree. -/
def printedNeed : Expr → Nat
  | .lit negative _ | .var negative _ => signedNeed negative 0
  | .binary negative _ left right =>
    signedNeed negative (max left.printedNeed (right.printedNeed + 1) + 1)
  | .cond negative condition whenTrue whenFalse =>
    signedNeed negative (max (condition.printedNeed + 1)
      (max (whenTrue.printedNeed + 1) (whenFalse.printedNeed + 1)) + 1)

/-- Every level of a tree takes at most four levels of nesting. -/
theorem printedNeed_le (tree : Expr) : tree.printedNeed + 2 ≤ 4 * tree.depth := by
  induction tree with
  | lit negative value | var negative name =>
    cases negative <;> simp [printedNeed, signedNeed, depth]
  | binary negative op left right ihl ihr =>
    cases negative <;> simp only [printedNeed, signedNeed, depth] <;> simp <;> omega
  | cond negative condition whenTrue whenFalse ihc iht ihf =>
    cases negative <;> simp only [printedNeed, signedNeed, depth] <;> simp <;> omega

end Expr

namespace Reads

variable {need : Nat} {ts rest : List Token} {tree : Expr}

/-- An operand is an expression if no operator of the expression's levels follows it. -/
theorem toExpression {least : Level} (h : Reads .operand need ts tree rest)
    (hstops : Stops least rest) : Reads (.expression least) (need + 1) ts tree rest := by
  have hexpression := Reads.expression h (.stop hstops)
  rwa [Nat.max_zero] at hexpression

/-- An operand in parentheses. -/
theorem inParens (h : Reads .operand need ts tree (.mark .rightParen :: rest)) :
    Reads .operand (need + 1) (.mark .leftParen :: ts) tree rest :=
  .parenthesized (h.toExpression (stops_of_none rfl))

/-- A minus sign and an operand in parentheses negate the operand. -/
theorem negated (h : Reads .operand need (ts ++ .mark .rightParen :: rest) tree
    (.mark .rightParen :: rest)) :
    Reads .operand (need + 2) (Expr.signedTokens true ts ++ rest) tree.negated rest := by
  -- the parenthesis that closes the sign also stops the loop behind the operand
  have hstops : Stops .unary (.mark .rightParen :: rest) := stops_of_none rfl
  have hminus := Reads.minus (h.toExpression hstops)
  simp only [Expr.signedTokens, if_true, List.cons_append, List.append_assoc, List.nil_append]
  exact hminus.inParens

/-- A sign flag is read back from its parentheses and its minus sign. -/
theorem signed (negative : Bool) (h : ∀ rest, Reads .operand need (ts ++ rest) tree rest)
    (hsign : tree.isNegative = false) (rest : List Token) :
    Reads .operand (Expr.signedNeed negative need) (Expr.signedTokens negative ts ++ rest)
      (tree.withSign negative) rest := by
  cases negative with
  | false =>
    rw [← hsign, Expr.withSign_isNegative, hsign]
    exact h rest
  | true =>
    have hnegated := (h (.mark .rightParen :: rest)).negated
    rwa [Expr.negated, hsign] at hnegated

/-- An operator between two operands, up to a parenthesis. -/
theorem joined {n₁ n₂ : Nat} {ls rs : List Token} {left right : Expr} {least : Level}
    (op : Operator) (hlevel : least.rank ≤ op.level.rank)
    (hleft : Reads .operand n₁ (ls ++ op.token :: (rs ++ .mark .rightParen :: rest)) left
      (op.token :: (rs ++ .mark .rightParen :: rest)))
    (hright : Reads .operand n₂ (rs ++ .mark .rightParen :: rest) right
      (.mark .rightParen :: rest)) :
    Reads (.expression least) (max n₁ (n₂ + 1) + 1)
      (ls ++ op.token :: (rs ++ .mark .rightParen :: rest)) (.binary false op left right)
      (.mark .rightParen :: rest) := by
  have hnone : operatorAhead? (.mark .rightParen :: rest) = none := rfl
  have hstops : Stops op.level.ofRightOperand (.mark .rightParen :: rest) := stops_of_none hnone
  -- the loop joins the one operator, and stops at the parenthesis
  have hjoin : Reads (.climb least left) (max (n₂ + 1) 0)
      (op.token :: (rs ++ .mark .rightParen :: rest)) (.binary false op left right)
      (.mark .rightParen :: rest) :=
    join op.operator?_token hlevel (hright.toExpression hstops) (.stop (stops_of_none hnone))
  rw [Nat.max_zero] at hjoin
  exact .expression hleft hjoin

/-- An operator between two operands in parentheses. -/
theorem binary {n₁ n₂ : Nat} {ls rs : List Token} {left right : Expr} (op : Operator)
    (hleft : Reads .operand n₁ (ls ++ op.token :: (rs ++ .mark .rightParen :: rest)) left
      (op.token :: (rs ++ .mark .rightParen :: rest)))
    (hright : Reads .operand n₂ (rs ++ .mark .rightParen :: rest) right
      (.mark .rightParen :: rest)) :
    Reads .operand (max n₁ (n₂ + 1) + 1)
      (.mark .leftParen :: (ls ++ op.token :: (rs ++ [.mark .rightParen])) ++ rest)
      (.binary false op left right) rest := by
  have hlevel : Level.or.rank ≤ op.level.rank := op.level.rank_pos
  simp only [List.cons_append, List.append_assoc, List.nil_append]
  exact .parenthesized (joined op hlevel hleft hright)

/-- A conditional in parentheses. -/
theorem cond {n₁ n₂ n₃ : Nat} {cs ts fs : List Token} {condition whenTrue whenFalse : Expr}
    (hcondition : Reads .operand n₁ (cs ++ .keyword .thenWord ::
      (ts ++ .keyword .elseWord :: (fs ++ .mark .rightParen :: rest))) condition
      (.keyword .thenWord :: (ts ++ .keyword .elseWord :: (fs ++ .mark .rightParen :: rest))))
    (htrue : Reads .operand n₂ (ts ++ .keyword .elseWord :: (fs ++ .mark .rightParen :: rest))
      whenTrue (.keyword .elseWord :: (fs ++ .mark .rightParen :: rest)))
    (hfalse : Reads .operand n₃ (fs ++ .mark .rightParen :: rest) whenFalse
      (.mark .rightParen :: rest)) :
    Reads .operand (max (n₁ + 1) (max (n₂ + 1) (n₃ + 1)) + 1)
      (.mark .leftParen :: .keyword .ifWord :: (cs ++ .keyword .thenWord ::
        (ts ++ .keyword .elseWord :: (fs ++ [.mark .rightParen]))) ++ rest)
      (.cond false condition whenTrue whenFalse) rest := by
  simp only [List.cons_append, List.append_assoc, List.nil_append]
  exact (conditional (hcondition.toExpression (stops_of_none rfl))
    (htrue.toExpression (stops_of_none rfl))
    (hfalse.toExpression (stops_of_none rfl))).inParens

end Reads

/-- A literal is an operand by itself. -/
theorem Value.operand?_token (value : Value) :
    value.token.operand? = some (.lit false value) := by
  cases value with
  | boolean b => cases b <;> rfl
  | integer | real => rfl

/-- The canonical source of a tree is read back as an operand. -/
theorem reads_tokens (tree : Expr) :
    ∀ rest, Reads .operand tree.printedNeed (tree.tokens ++ rest) tree rest := by
  -- on the tree; every printed part is an operand, for it is a token or stands in parentheses
  induction tree with
  | lit negative value =>
    have hliteral (rest : List Token) :
        Reads .operand 0 ([value.token] ++ rest) (.lit false value) rest :=
      .operand value.operand?_token
    have hsigned := Reads.signed negative hliteral rfl
    exact hsigned
  | var negative name =>
    have hname (rest : List Token) :
        Reads .operand 0 ([.identifier name] ++ rest) (.var false name) rest :=
      .operand rfl
    have hsigned := Reads.signed negative hname rfl
    exact hsigned
  | binary negative op left right ihl ihr =>
    have hsigned := Reads.signed negative (fun rest => Reads.binary op (ihl _) (ihr _)) rfl
    exact hsigned
  | cond negative condition whenTrue whenFalse ihc iht ihf =>
    have hsigned := Reads.signed negative (fun rest => Reads.cond (ihc _) (iht _) (ihf _)) rfl
    exact hsigned

namespace Expr

/-- Parsing undoes printing: the canonical source of a canonical tree parses to the same tree, bit
    for bit, under every limit of at least four times the depth of the tree. -/
theorem parseWithin_print {tree : Expr} {limit : Nat} (htree : tree.isCanonical = true)
    (hlimit : 4 * tree.depth ≤ limit) : parseWithin limit tree.print = .ok tree := by
  -- the text has the tokens of the tree, and nothing behind them
  obtain ⟨lexemes, hyields, htokens⟩ := writes_print htree delimited_nil .nil 0
  simp only [List.append_nil] at hyields htokens
  -- and reading them back takes one level more than the nesting inside
  have hneed := tree.printedNeed_le
  have hreads : Reads (.expression .or) (tree.printedNeed + 1) (tree.tokens ++ []) tree [] :=
    (reads_tokens tree []).toExpression (stops_of_none rfl)
  rw [List.append_nil, ← htokens] at hreads
  exact (parseWithin_eq_ok_iff hyields).mpr ⟨_, by omega, hreads, by omega⟩

/-- A tree with signs on a real and on the whole, which is printed and parsed back. -/
theorem parseWithin_print_signs :
    let tree : Expr := .binary true (.compare .lessThanOrEqual) (.lit true (.real 1.5))
      (.var false "x_1")
    tree.isCanonical = true ∧ 4 * tree.depth ≤ 8 ∧ parseWithin 8 tree.print = .ok tree := by
  intro tree
  have htree : tree.isCanonical = true := by decide +kernel
  have hlimit : 4 * tree.depth ≤ 8 := by decide
  exact ⟨htree, hlimit, parseWithin_print htree hlimit⟩

end Expr

end Formula
