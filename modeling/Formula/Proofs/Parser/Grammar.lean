import Formula.Expr.Basic
import Formula.Parser.Level

/-!
# The grammar of expressions

`Derives` is the grammar, stratified by levels: an expression of a level is one of the next stronger
level, or two operands with an operator of the level between them, the left one of the same level
and the right one of the next.  Signs stand before operands of the level `unary`, and a power has a
primary on its left and a signed operand on its right.

A conditional takes in everything that follows its last branch.  So an operand that ends in a
conditional is never followed by an operator, unless parentheses close it first; the grammar keeps
track of that by the `Ending` of an expression.
-/

namespace Formula

/-- The tree of a token that is an operand by itself. -/
def Token.operand? : Token → Option Expr
  | .integer i => some (.ofValue (.integer i))
  | .real x => some (.ofValue (.real x))
  | .keyword .trueWord => some (.ofValue (.boolean true))
  | .keyword .falseWord => some (.ofValue (.boolean false))
  | .identifier name => some (.var false name)
  | _ => none

/-- Such a token stands for a literal or a variable, without a sign. -/
theorem Token.cases_of_operand? {token : Token} {tree : Expr} (h : token.operand? = some tree) :
    (∃ value, tree = .ofValue value) ∨ ∃ name, tree = .var false name := by
  -- a value or a name; the other tokens are no operands
  cases token with
  | integer i =>
    cases h
    exact .inl ⟨.integer i, rfl⟩
  | real x =>
    cases h
    exact .inl ⟨.real x, rfl⟩
  | identifier name =>
    cases h
    exact .inr ⟨name, rfl⟩
  | keyword keyword =>
    cases keyword with
    | trueWord =>
      cases h
      exact .inl ⟨.boolean true, rfl⟩
    | falseWord =>
      cases h
      exact .inl ⟨.boolean false, rfl⟩
    | _ => exact nomatch h
  | mark mark => exact nomatch h

/-- So its tree has one node. -/
theorem Token.depth_of_operand? {token : Token} {tree : Expr} (h : token.operand? = some tree) :
    tree.depth = 1 := by
  obtain ⟨value, rfl⟩ | ⟨name, rfl⟩ := cases_of_operand? h
  · rfl
  · rfl

/-- Whether an operand can start with a token. -/
def Token.StartsOperand (token : Token) : Prop :=
  (∃ tree, token.operand? = some tree) ∨ token = .mark .leftParen ∨ token = .mark .minus ∨
    token = .mark .plus ∨ token = .keyword .ifWord

/-- The levels whose operators stand between two operands and group to the left. -/
def Level.groupsLeft (level : Level) : Prop :=
  level.rank < Level.unary.rank

instance (level : Level) : Decidable level.groupsLeft :=
  inferInstanceAs (Decidable (level.rank < Level.unary.rank))

/-- What the grammar derives: the operands of powers, and the expressions of each level. -/
inductive Phrase where
  | primary
  | level (level : Level)

/-- What the tokens of an expression end in. -/
inductive Ending where
  | closed
  /-- The last branch of a conditional that no parenthesis closes. -/
  | conditional

/-- The grammar of expressions: the tokens of a phrase and the tree that they stand for. -/
inductive Derives : Phrase → Ending → List Token → Expr → Prop
  | operand {token tree} (h : token.operand? = some tree) :
      Derives .primary .closed [token] tree
  | parenthesized {ending ts tree} (h : Derives (.level .or) ending ts tree) :
      Derives .primary .closed (.mark .leftParen :: (ts ++ [.mark .rightParen])) tree
  | conditional {e₁ e₂ e₃ cs ts fs condition whenTrue whenFalse}
      (hc : Derives (.level .or) e₁ cs condition) (ht : Derives (.level .or) e₂ ts whenTrue)
      (hf : Derives (.level .or) e₃ fs whenFalse) :
      Derives .primary .conditional
        (.keyword .ifWord :: (cs ++ .keyword .thenWord :: (ts ++ .keyword .elseWord :: fs)))
        (.cond false condition whenTrue whenFalse)
  | primary {ending ts tree} (h : Derives .primary ending ts tree) :
      Derives (.level .power) ending ts tree
  | power {ending ls rs left right} (hl : Derives .primary .closed ls left)
      (hr : Derives (.level .unary) ending rs right) :
      Derives (.level .power) ending (ls ++ .mark .caret :: rs)
        (.binary false (.arithmetic .power) left right)
  | minus {ending ts tree} (h : Derives (.level .unary) ending ts tree) :
      Derives (.level .unary) ending (.mark .minus :: ts) tree.negated
  | plus {ending ts tree} (h : Derives (.level .unary) ending ts tree) :
      Derives (.level .unary) ending (.mark .plus :: ts) tree
  | unsigned {ending ts tree} (h : Derives (.level .power) ending ts tree) :
      Derives (.level .unary) ending ts tree
  | stronger {level ending ts tree} (hlevel : level.groupsLeft)
      (h : Derives (.level level.next) ending ts tree) :
      Derives (.level level) ending ts tree
  | joined {token op ending ls rs left right} (hop : token.operator? = some op)
      (hlevel : op.level.groupsLeft) (hl : Derives (.level op.level) .closed ls left)
      (hr : Derives (.level op.level.next) ending rs right) :
      Derives (.level op.level) ending (ls ++ token :: rs) (.binary false op left right)

/-- The trees of whole sources: the tokens are an expression of the weakest level. -/
def IsExpression (tokens : List Token) (tree : Expr) : Prop :=
  ∃ ending, Derives (.level .or) ending tokens tree

/-! ## Levels -/

namespace Level

theorem rank_injective {a b : Level} (h : a.rank = b.rank) : a = b := by
  cases a <;> cases b <;> first | rfl | exact absurd h (by decide)

theorem rank_next {level : Level} (h : level ≠ .power) : level.next.rank = level.rank + 1 := by
  cases level <;> first | rfl | exact absurd rfl h

theorem rank_next_of_groupsLeft {level : Level} (h : level.groupsLeft) :
    level.next.rank = level.rank + 1 :=
  rank_next fun heq => absurd (heq ▸ h) (by decide)

theorem rank_pos (level : Level) : 0 < level.rank := by
  cases level <;> decide

theorem rank_le_power (level : Level) : level.rank ≤ Level.power.rank := by
  cases level <;> decide

theorem groupsLeft_of_ne {level : Level} (hu : level ≠ .unary) (hp : level ≠ .power) :
    level.groupsLeft := by
  cases level <;> first | decide | contradiction

/-- Right operands are of the next level; those of powers are again powers. -/
theorem ofRightOperand_eq_next (level : Level) : level.ofRightOperand = level.next := by
  cases level <;> rfl

end Level

/-- No operator is of the level of signs. -/
theorem Operator.level_ne_unary (op : Operator) : op.level ≠ .unary := by
  cases op with
  | arithmetic op => cases op <;> decide
  | and | or | distinct | compare comparator => exact nofun

/-- Powers are the only operators that do not group to the left. -/
theorem Operator.groupsLeft_of_ne_power {op : Operator} (h : op.level ≠ .power) :
    op.level.groupsLeft :=
  Level.groupsLeft_of_ne op.level_ne_unary h

/-- The only operator of the strongest level is the power. -/
theorem Operator.eq_power {op : Operator} (h : op.level = .power) : op = .arithmetic .power := by
  cases op with
  | arithmetic op => cases op <;> first | rfl | exact nomatch h
  | and | or | distinct | compare comparator => exact nomatch h

/-- The caret is the only sign of a power. -/
theorem Token.eq_caret {token : Token} (h : token.operator? = some (.arithmetic .power)) :
    token = .mark .caret := by
  cases token with
  | mark mark => cases mark <;> first | rfl | exact nomatch h
  | keyword keyword => cases keyword <;> exact nomatch h
  | integer | real | identifier => exact nomatch h

namespace Derives

variable {ending : Ending} {ts : List Token} {tree : Expr}

/-- An expression of a level is one of the level before. -/
theorem of_next {level : Level} (h : Derives (.level level.next) ending ts tree) :
    Derives (.level level) ending ts tree := by
  by_cases hlevel : level.groupsLeft
  · exact .stronger hlevel h
  · cases level <;> first | exact h | exact .unsigned h | exact absurd (by decide) hlevel

/-- An expression of a level is one of every weaker level. -/
theorem weaken {strong weak : Level} (h : Derives (.level strong) ending ts tree)
    (hle : weak.rank ≤ strong.rank) : Derives (.level weak) ending ts tree := by
  -- one level after the other, on how many of them lie between
  induction hgap : strong.rank - weak.rank generalizing weak with
  | zero =>
    obtain rfl : strong = weak := Level.rank_injective (by omega)
    exact h
  | succ gap ih =>
    have hne : weak ≠ .power := by
      intro heq
      subst heq
      have := strong.rank_le_power
      omega
    have hnext := Level.rank_next hne
    exact of_next (ih (by omega) (by omega))

end Derives

end Formula
