import Formula.Proofs.Evaluation.Exact

/-!
# When evaluations overflow

On 64-bit integers an operator overflows exactly where its exact result has more than 64 bits, and
in one place more: the remainder of the least integer by `-1`, which is zero, is refused together
with its quotient (`Arithmetic.overflows_onIntegers_iff`).

So an evaluation overflows only if it meets a node whose exact value outgrows 64 bits, before or
after its sign flag is applied, or that one remainder.  `Expr.evaluated` lists the nodes that an
evaluation meets, which leave out an operand or a branch that is not asked for.

## Key results

* `Arithmetic.overflows_onIntegers_iff`: the operands on which an operator overflows
* `Expr.exists_of_overflows_value`: the node at which an evaluation overflows
* `overflow_is_out_of_range`: both, under every limit
-/

namespace Formula

variable {α β : Type}

/-- Whether a run fails with an overflow. -/
def Overflows (run : Except EvalError α) : Prop :=
  ∃ operation, run = .error (.overflow operation)

theorem not_overflows_ok (a : α) : ¬ Overflows (.ok a) := by
  rintro ⟨_, ⟨⟩⟩

/-- A sequence overflows in its first step or behind it. -/
theorem overflows_bind_iff {x : Except EvalError α} {f : α → Except EvalError β} :
    Overflows (x >>= f) ↔ Overflows x ∨ ∃ a, x = .ok a ∧ Overflows (f a) := by
  cases x with
  | error e => simp [Overflows, Bind.bind, Except.bind]
  | ok a => simp [Overflows, Bind.bind, Except.bind]

/-- A sequence overflows in its first step if the rest never does. -/
theorem Overflows.of_bind {x : Except EvalError α} {f : α → Except EvalError β}
    (h : Overflows (x >>= f)) (hf : ∀ a, ¬ Overflows (f a)) : Overflows x := by
  obtain hx | ⟨a, -, hrest⟩ := overflows_bind_iff.mp h
  · exact hx
  · exact absurd hrest (hf a)

theorem overflows_map_iff {x : Except EvalError α} {f : α → β} :
    Overflows (x.map f) ↔ Overflows x := by
  cases x with
  | error e => simp [Overflows, Except.map]
  | ok a => simp [Overflows, Except.map]

/-! ## Operators -/

theorem int64?_eq_none_iff {i : Int} : int64? i = none ↔ ¬ IsInt64 i := by
  simp [int64?, IsInt64]

/-- The quotient of two integers of 64 bits has 64 bits, unless it is that of the least one by
    `-1`. -/
theorem isInt64_tdiv_iff {x y : Int} (hx : IsInt64 x) (hy : y ≠ 0) :
    IsInt64 (x.tdiv y) ↔ ¬ (x = minInteger ∧ y = -1) := by
  have habs : (x.tdiv y).natAbs = x.natAbs / y.natAbs := Int.natAbs_tdiv x y
  simp only [IsInt64, minInteger, maxInteger] at hx ⊢
  by_cases hone : y = 1
  · subst hone
    rw [Int.tdiv_one]
    omega
  · by_cases hneg : y = -1
    · subst hneg
      -- only the least integer has no negation in 64 bits
      rw [Int.tdiv_neg, Int.tdiv_one]
      omega
    · -- a larger divisor takes at least one bit off
      have hhalf : x.natAbs / y.natAbs ≤ x.natAbs / 2 :=
        Nat.div_le_div_left (by omega) (by decide)
      omega

/-- A remainder is closer to zero than the divisor. -/
theorem isInt64_tmod {x y : Int} (hy : IsInt64 y) (hy' : y ≠ 0) : IsInt64 (x.tmod y) := by
  have habs : (x.tmod y).natAbs = x.natAbs % y.natAbs := Int.natAbs_tmod x y
  have hlt : x.natAbs % y.natAbs < y.natAbs := Nat.mod_lt _ (by omega)
  simp only [IsInt64, minInteger, maxInteger] at hy ⊢
  omega

namespace Arithmetic

theorem overflows_bounded_iff {op : Arithmetic} {i : Int} :
    Overflows (bounded op i) ↔ ¬ IsInt64 i := by
  rw [← int64?_eq_none_iff, bounded]
  cases int64? i with
  | none => simp [Overflows]
  | some n => simp [Overflows]

/-- The remainder always passes the gate, so its quotient decides. -/
theorem overflows_remainder_iff {a b : Int64} (hb : b.toInt ≠ 0) :
    Overflows (Arithmetic.modulo.onIntegers a b) ↔ a.toInt = minInteger ∧ b.toInt = -1 := by
  have hsteps : Arithmetic.modulo.onIntegers a b = bounded .modulo (a.toInt.tdiv b.toInt) >>=
      fun _ => bounded .modulo (a.toInt.tmod b.toInt) := by
    simp only [onIntegers, if_neg hb]
    cases bounded .modulo (a.toInt.tdiv b.toInt) <;> rfl
  have hremainder : IsInt64 (a.toInt.tmod b.toInt) := isInt64_tmod (isInt64_toInt b) hb
  rw [hsteps, overflows_bind_iff]
  simp only [overflows_bounded_iff, isInt64_tdiv_iff (isInt64_toInt a) hb, hremainder,
    Decidable.not_not, not_true_eq_false, and_false, exists_false, or_false]

theorem isInt64_pow_foldedExponent_iff {x : Int} {n : Nat} :
    IsInt64 (x.pow (foldedExponent n)) ↔ IsInt64 (x.pow n) := by
  rcases pow_foldedExponent_cases x n with heq | ⟨hfolded, hpow⟩
  · rw [heq]
  · exact iff_of_false hfolded hpow

/-- Where an exponent is not refused for its own sake, an operator overflows exactly if its exact
    result has more than 64 bits, or if it is the remainder of the least integer by `-1`. -/
theorem overflows_onIntegers_iff {op : Arithmetic} {a b : Int64}
    (hexponent : op = .power → b.toInt < exponentBound) :
    Overflows (op.onIntegers a b) ↔
      (∃ i, op.ofIntegers? a.toInt b.toInt = some i ∧ ¬ IsInt64 i) ∨
        op = .modulo ∧ a.toInt = minInteger ∧ b.toInt = -1 := by
  cases op with
  | add | subtract | multiply => simp [onIntegers, ofIntegers?, overflows_bounded_iff]
  | divide =>
    simp only [onIntegers, ofIntegers?]
    split
    · simp [Overflows]
    · simp [overflows_bounded_iff]
  | modulo =>
    -- the remainder itself always fits, so its overflow is that of the quotient
    by_cases hzero : b.toInt = 0
    · simp [onIntegers, ofIntegers?, Overflows, hzero]
    · have hremainder : IsInt64 (a.toInt.tmod b.toInt) := isInt64_tmod (isInt64_toInt b) hzero
      simp [ofIntegers?, overflows_remainder_iff, hzero, hremainder]
  | power =>
    -- below the bound the exponent is not cut off, and folding it changes no answer
    have hbound := hexponent rfl
    simp only [onIntegers, ofIntegers?, if_pos hbound]
    split
    · simp [Overflows]
    · simp only [overflows_bounded_iff, isInt64_pow_foldedExponent_iff, Option.some.injEq,
        exists_eq_left', reduceCtorEq, false_and, or_false]

/-- Only the negation of an integer overflows at a sign flag. -/
theorem overflows_applySign_iff {negative : Bool} {v : Value} :
    Overflows (applySign negative v) ↔
      negative = true ∧ ∃ n, v = .integer n ∧ ¬ IsInt64 (-n.toInt) := by
  cases negative with
  | false => simp [applySign, not_overflows_ok]
  | true =>
    cases v with
    | integer n =>
      simp only [applySign, negate, ↓reduceIte, ← int64?_eq_none_iff, Value.integer.injEq,
        exists_eq_left', true_and]
      cases int64? (-n.toInt) <;> simp [Overflows]
    | real x | boolean b => simp [applySign, negate, Overflows]

/-- Only integers overflow. -/
theorem overflows_onValues_iff {op : Arithmetic} {v w : Value} :
    Overflows (op.onValues v w) ↔
      ∃ i j, v = .integer i ∧ w = .integer j ∧ Overflows (op.onIntegers i j) := by
  cases v with
  | integer i =>
    cases w with
    | integer j => simp [onValues, overflows_map_iff]
    | real y | boolean b => simp [onValues, Value.asReal?, Overflows]
  | real x => cases w <;> simp [onValues, Value.asReal?, Overflows]
  | boolean a => cases w <;> simp [onValues, Value.asReal?, Overflows]

end Arithmetic

/-! ## Nodes -/

theorem Comparator.not_overflows_onValues (comparator : Comparator) (v w : Value) :
    ¬ Overflows (comparator.onValues v w) := by
  rw [onValues, overflows_map_iff]
  unfold order
  extract_lets mismatch
  split
  · split <;> simp [Overflows]
  · exact not_overflows_ok _
  · split <;> simp [Overflows]

/-- Whether an evaluation goes on with the right operand behind the result of the left one. -/
def Operator.asksRight (op : Operator) (left : Except EvalError Value) : Bool :=
  match left with
  | .error _ => false
  | .ok v =>
    match op with
    | .and => v.asBool? == some true
    | .or => v.asBool? == some false
    | _ => true

namespace Evaluator

variable {x y z : Except EvalError Value}

/-- Behind a truth value the choice that it makes overflows, or nothing does. -/
theorem overflows_truth_bind_iff {operation : Operation} {v : Value}
    {f : Bool → Except EvalError Value} :
    Overflows (truth operation v >>= f) ↔ ∃ b, v.asBool? = some b ∧ Overflows (f b) := by
  unfold truth
  cases v.asBool? with
  | none => simp [Overflows, Bind.bind, Except.bind]
  | some b => simp [Bind.bind, Except.bind]

/-- To read a result as a truth value does not overflow. -/
theorem overflows_of_truth {operation : Operation}
    (h : Overflows (y >>= fun w => truth operation w >>= fun b => .ok (Value.boolean b))) :
    Overflows y := by
  refine h.of_bind fun w htruth => ?_
  obtain ⟨b, -, hok⟩ := overflows_truth_bind_iff.mp htruth
  exact not_overflows_ok _ hok

/-- An operator overflows in an operand that it asks for, or in its arithmetic. -/
theorem overflows_ofOperands_cases {op : Operator} (h : Overflows (ofOperands op x y)) :
    Overflows x ∨ (op.asksRight x = true ∧ Overflows y) ∨
      ∃ arithmetic i j, op = .arithmetic arithmetic ∧ x = .ok (.integer i) ∧
        y = .ok (.integer j) ∧ Overflows (arithmetic.onIntegers i j) := by
  cases x with
  | error e =>
    -- every operator asks the left operand first and hands its error on
    have herror : ofOperands op (.error e) y = .error e := by cases op <;> rfl
    rw [herror] at h
    exact .inl h
  | ok v =>
    refine .inr ?_
    cases op with
    | arithmetic op =>
      have hrest : Overflows (y >>= fun w => op.onValues v w) := h
      obtain hright | ⟨w, rfl, hvalues⟩ := overflows_bind_iff.mp hrest
      · exact .inl ⟨rfl, hright⟩
      · obtain ⟨i, j, rfl, rfl, hintegers⟩ := Arithmetic.overflows_onValues_iff.mp hvalues
        exact .inr ⟨op, i, j, rfl, rfl, rfl, hintegers⟩
    | and =>
      -- a truth value is asked for without overflow, so it is the choice that overflows
      obtain ⟨a, ha, hchoice⟩ := overflows_truth_bind_iff.mp h
      cases a with
      | true => exact .inl ⟨by simp [Operator.asksRight, ha], overflows_of_truth hchoice⟩
      | false => exact absurd hchoice (not_overflows_ok _)
    | or =>
      obtain ⟨a, ha, hchoice⟩ := overflows_truth_bind_iff.mp h
      cases a with
      | true => exact absurd hchoice (not_overflows_ok _)
      | false => exact .inl ⟨by simp [Operator.asksRight, ha], overflows_of_truth hchoice⟩
    | distinct =>
      -- behind both operands nothing is left that could overflow
      have hrest : Overflows (y >>= fun w => .ok (Value.boolean (v.differs w))) := h
      exact .inl ⟨rfl, hrest.of_bind fun w => not_overflows_ok _⟩
    | compare comparator =>
      have hrest : Overflows (y >>= fun w =>
          comparator.onValues v w >>= fun holds => .ok (Value.boolean holds)) := h
      refine .inl ⟨rfl, hrest.of_bind fun w hcompare => ?_⟩
      exact comparator.not_overflows_onValues v w (hcompare.of_bind fun _ => not_overflows_ok _)

/-- A conditional overflows in its condition or in the branch that it chooses. -/
theorem overflows_ofBranches_cases (h : Overflows (ofBranches x y z)) :
    Overflows x ∨ (x = .ok (.boolean true) ∧ Overflows y) ∨
      x = .ok (.boolean false) ∧ Overflows z := by
  cases x with
  | error e => exact .inl h
  | ok v =>
    obtain ⟨c, hc, hchoice⟩ := overflows_truth_bind_iff.mp h
    -- only a truth value chooses a branch
    obtain rfl : v = .boolean c := by
      cases v with
      | boolean b => rw [Option.some.inj hc]
      | integer i | real a => cases hc
    cases c with
    | true => exact .inr (.inl ⟨rfl, hchoice⟩)
    | false => exact .inr (.inr ⟨rfl, hchoice⟩)

end Evaluator

/-! ## Trees -/

/-- The exact value of a node, given its exact value without the sign flag. -/
def ExactValue.signed (negative : Bool) (v : ExactValue) : Option ExactValue :=
  if negative then v.negate? else some v

@[simp] theorem ExactValue.signed_false (v : ExactValue) : v.signed false = some v := rfl

theorem Exact.map_value_sign (negative : Bool) (before : List Int) (v : ExactValue) :
    (Exact.sign negative before v).map Exact.value = v.signed negative := by
  cases negative with
  | false => rfl
  | true => cases v <;> rfl

namespace Expr

/-- The nodes that an evaluation meets, each before its children. -/
def evaluated (env : Environment) : Expr → List Expr
  | e@(.lit ..) => [e]
  | e@(.var ..) => [e]
  | e@(.binary _ op left right) =>
    e :: (left.evaluated env ++ if op.asksRight (left.value env) then right.evaluated env else [])
  | e@(.cond _ condition whenTrue whenFalse) =>
    e :: (condition.evaluated env ++
      match condition.value env with
      | .ok (.boolean true) => whenTrue.evaluated env
      | .ok (.boolean false) => whenFalse.evaluated env
      | _ => [])

/-- The exact value of a tree. -/
def exactValue? (env : Environment) (e : Expr) : Option ExactValue :=
  (e.exactResult? env).map Exact.value

/-- Whether the exact value of a node has more than 64 bits, before or after its sign flag. -/
def Outgrows (env : Environment) (e : Expr) : Prop :=
  ∃ i, ¬ IsInt64 i ∧
    ((e.withSign false).exactValue? env = some (.integer i) ∨ e.exactValue? env = some (.integer i))

/-- Whether a node is the remainder of the least integer by `-1`. -/
def isLeastRemainder (env : Environment) : Expr → Bool
  | .binary _ (.arithmetic .modulo) left right =>
    left.exactValue? env == some (.integer minInteger) &&
      right.exactValue? env == some (.integer (-1))
  | _ => false

/-- Whether a node is no power, or one with an exponent that is not refused for its own sake. -/
def exponentFits (env : Environment) : Expr → Bool
  | .binary _ (.arithmetic .power) _ right =>
    match right.value env with
    | .ok (.integer b) => b.toInt < Arithmetic.exponentBound
    | _ => true
  | _ => true

section Evaluated

variable (env : Environment) (negative : Bool)

theorem mem_evaluated_self (e : Expr) : e ∈ e.evaluated env := by
  cases e <;> simp [evaluated]

theorem evaluated_left_subset (op : Operator) (left right : Expr) :
    left.evaluated env ⊆ (binary negative op left right).evaluated env := by
  intro s hs
  simp [evaluated, hs]

theorem evaluated_condition_subset (condition whenTrue whenFalse : Expr) :
    condition.evaluated env ⊆ (cond negative condition whenTrue whenFalse).evaluated env := by
  intro s hs
  simp [evaluated, hs]

variable {env}

theorem evaluated_right_subset {op : Operator} {left : Expr} (right : Expr)
    (h : op.asksRight (left.value env) = true) :
    right.evaluated env ⊆ (binary negative op left right).evaluated env := by
  intro s hs
  simp [evaluated, h, hs]

theorem evaluated_whenTrue_subset {condition : Expr} (whenTrue whenFalse : Expr)
    (h : condition.value env = .ok (.boolean true)) :
    whenTrue.evaluated env ⊆ (cond negative condition whenTrue whenFalse).evaluated env := by
  intro s hs
  simp [evaluated, h, hs]

theorem evaluated_whenFalse_subset {condition : Expr} (whenTrue whenFalse : Expr)
    (h : condition.value env = .ok (.boolean false)) :
    whenFalse.evaluated env ⊆ (cond negative condition whenTrue whenFalse).evaluated env := by
  intro s hs
  simp [evaluated, h, hs]

end Evaluated

variable {env : Environment} {e : Expr}

@[simp] theorem isRealFree_withSign (negative : Bool) (e : Expr) :
    (e.withSign negative).isRealFree = e.isRealFree := by
  cases e <;> rfl

/-- The value of a node is its value without the sign flag, with the flag applied. -/
theorem value_eq_bind (env : Environment) (e : Expr) :
    e.value env = (e.withSign false).value env >>= Arithmetic.applySign e.isNegative := by
  cases e with
  | lit negative value => rfl
  | var negative name =>
    simp only [value, withSign, isNegative]
    cases env.find? name <;> rfl
  | binary negative op left right => simp only [value, withSign, isNegative, Arithmetic.bind_applySign_false]
  | cond negative condition whenTrue whenFalse =>
    simp only [value, withSign, isNegative, Arithmetic.bind_applySign_false]

/-- The exact value of a node in the same way. -/
theorem exactValue?_eq_bind (env : Environment) (e : Expr) :
    e.exactValue? env =
      ((e.withSign false).exactValue? env).bind (ExactValue.signed e.isNegative) := by
  -- whatever the node holds, its sign comes last
  cases e with
  | lit negative value =>
    simp only [exactValue?, exactResult?, withSign, isNegative]
    cases value.asExact? <;> simp [Exact.map_value_sign]
  | var negative name =>
    simp only [exactValue?, exactResult?, withSign, isNegative]
    cases (env.find? name).bind Value.asExact? <;> simp [Exact.map_value_sign]
  | binary negative op left right =>
    simp only [exactValue?, exactResult?, withSign, isNegative]
    cases Exact.ofOperands op (left.exactResult? env) (right.exactResult? env) <;>
      simp [Exact.map_value_sign]
  | cond negative condition whenTrue whenFalse =>
    simp only [exactValue?, exactResult?, withSign, isNegative]
    cases Exact.ofBranches (condition.exactResult? env) (whenTrue.exactResult? env)
      (whenFalse.exactResult? env) <;> simp [Exact.map_value_sign]

/-- An integer that a tree without reals evaluates to is its exact value. -/
theorem exactValue?_of_value (henv : env.IsRealFree) (he : e.isRealFree = true) {n : Int64}
    (h : e.value env = .ok (.integer n)) : e.exactValue? env = some (.integer n.toInt) := by
  obtain ⟨r, hr, hvalue, -⟩ := isExact_value henv he _ h
  rw [exactValue?, hr, Option.map_some, ← hvalue]
  rfl

/-- An arithmetic operator has the exact result of its exact operands. -/
theorem exactValue?_arithmetic {op : Arithmetic} {left right : Expr} {x y k : Int}
    (hleft : left.exactValue? env = some (.integer x))
    (hright : right.exactValue? env = some (.integer y)) (hk : op.ofIntegers? x y = some k) :
    (Expr.binary false (.arithmetic op) left right).exactValue? env = some (.integer k) := by
  obtain ⟨p, hp, hx⟩ := Option.map_eq_some_iff.mp hleft
  obtain ⟨q, hq, hy⟩ := Option.map_eq_some_iff.mp hright
  simp [exactValue?, exactResult?, Exact.ofOperands, Exact.sign, Arithmetic.ofExactValues?, hp, hq,
    hx, hy, hk]

/-- A node outgrows 64 bits by its sign flag, or overflows before the flag is applied. -/
theorem overflows_value_cases (henv : env.IsRealFree) (he : e.isRealFree = true)
    (h : Overflows (e.value env)) :
    e.Outgrows env ∨ Overflows ((e.withSign false).value env) := by
  rw [value_eq_bind] at h
  obtain hclear | ⟨v, hv, hsign⟩ := overflows_bind_iff.mp h
  · exact .inr hclear
  · obtain ⟨hnegative, n, rfl, hn⟩ := Arithmetic.overflows_applySign_iff.mp hsign
    have hclear := exactValue?_of_value henv (by rwa [isRealFree_withSign]) hv
    refine .inl ⟨-n.toInt, hn, .inr ?_⟩
    rw [exactValue?_eq_bind, hclear, hnegative]
    rfl

/-- Where an operator overflows on the values of its operands, its exact result has more than 64
    bits, or it is the one remainder. -/
theorem outgrows_or_isLeastRemainder (henv : env.IsRealFree) {negative : Bool} {op : Arithmetic}
    {left right : Expr} {i j : Int64} (hleft : left.isRealFree = true)
    (hright : right.isRealFree = true)
    (hexponent : (Expr.binary negative (.arithmetic op) left right).exponentFits env = true)
    (hi : left.value env = .ok (.integer i)) (hj : right.value env = .ok (.integer j))
    (h : Overflows (op.onIntegers i j)) :
    (Expr.binary negative (.arithmetic op) left right).Outgrows env ∨
      (Expr.binary negative (.arithmetic op) left right).isLeastRemainder env = true := by
  -- the operands have values, so the exact ones are those values
  have hexact := exactValue?_of_value henv hleft hi
  have hexact' := exactValue?_of_value henv hright hj
  -- the exponent fits by what the node says of itself
  have hbound : op = .power → j.toInt < Arithmetic.exponentBound := by
    rintro rfl
    simpa [exponentFits, hj] using hexponent
  obtain ⟨k, hk, hout⟩ | ⟨rfl, hleast, hminus⟩ :=
    (Arithmetic.overflows_onIntegers_iff hbound).mp h
  · exact .inl ⟨k, hout, .inl (exactValue?_arithmetic hexact hexact' hk)⟩
  · exact .inr (by simp [isLeastRemainder, hexact, hexact', hleast, hminus])

/-- A node that is found where a child is evaluated is found where the whole tree is. -/
theorem exists_evaluated_of_subset {child : Expr} {P : Expr → Prop}
    (hsub : child.evaluated env ⊆ e.evaluated env)
    (hexponents : ∀ s ∈ e.evaluated env, s.exponentFits env = true)
    (h : (∀ s ∈ child.evaluated env, s.exponentFits env = true) → ∃ s ∈ child.evaluated env, P s) :
    ∃ s ∈ e.evaluated env, P s := by
  obtain ⟨s, hs, hP⟩ := h fun s hs => hexponents s (hsub hs)
  exact ⟨s, hsub hs, hP⟩

/-- Where the value of a tree overflows, a node that is evaluated outgrows 64 bits, or is the one
    remainder that is refused although it is zero. -/
theorem exists_of_overflows_value (henv : env.IsRealFree) (he : e.isRealFree = true)
    (hexponents : ∀ s ∈ e.evaluated env, s.exponentFits env = true)
    (h : Overflows (e.value env)) :
    ∃ s ∈ e.evaluated env, s.Outgrows env ∨ s.isLeastRemainder env = true := by
  induction e with
  | lit negative value =>
    -- a literal gives its value, so only its sign can overflow
    rcases overflows_value_cases henv he h with hout | hclear
    · exact ⟨_, mem_evaluated_self env _, .inl hout⟩
    · exact absurd hclear (not_overflows_ok _)
  | var negative name =>
    rcases overflows_value_cases henv he h with hout | hclear
    · exact ⟨_, mem_evaluated_self env _, .inl hout⟩
    · -- a variable gives its value, or is unbound
      simp only [withSign, value] at hclear
      cases hfind : env.find? name with
      | none => simp [hfind, Overflows] at hclear
      | some v => simp [hfind, Arithmetic.applySign, not_overflows_ok] at hclear
  | binary negative op left right ihl ihr =>
    rcases overflows_value_cases henv he h with hout | hclear
    · exact ⟨_, mem_evaluated_self env _, .inl hout⟩
    · simp only [isRealFree, Bool.and_eq_true] at he
      have hoperands : Overflows (Evaluator.ofOperands op (left.value env) (right.value env)) := by
        simpa only [withSign, value, Arithmetic.bind_applySign_false] using hclear
      -- an operand that is asked for overflows, or the operator on integers
      obtain hleft | ⟨hasks, hright⟩ | ⟨arithmetic, i, j, rfl, hi, hj, hintegers⟩ :=
        Evaluator.overflows_ofOperands_cases hoperands
      · have hsub := evaluated_left_subset env negative op left right
        exact exists_evaluated_of_subset hsub hexponents fun hfits => ihl he.1 hfits hleft
      · have hsub := evaluated_right_subset negative right hasks
        exact exists_evaluated_of_subset hsub hexponents fun hfits => ihr he.2 hfits hright
      · have hself := mem_evaluated_self env (.binary negative (.arithmetic arithmetic) left right)
        exact ⟨_, hself, outgrows_or_isLeastRemainder henv he.1 he.2 (hexponents _ hself) hi hj
          hintegers⟩
  | cond negative condition whenTrue whenFalse ihc iht ihf =>
    rcases overflows_value_cases henv he h with hout | hclear
    · exact ⟨_, mem_evaluated_self env _, .inl hout⟩
    · simp only [isRealFree, Bool.and_eq_true] at he
      have hbranches : Overflows (Evaluator.ofBranches (condition.value env) (whenTrue.value env)
          (whenFalse.value env)) := by
        simpa only [withSign, value, Arithmetic.bind_applySign_false] using hclear
      -- the condition overflows, or the branch that it chooses
      obtain hcondition | ⟨hc, hchosen⟩ | ⟨hc, hchosen⟩ :=
        Evaluator.overflows_ofBranches_cases hbranches
      · have hsub := evaluated_condition_subset env negative condition whenTrue whenFalse
        exact exists_evaluated_of_subset hsub hexponents fun hfits => ihc he.1.1 hfits hcondition
      · have hsub := evaluated_whenTrue_subset negative whenTrue whenFalse hc
        exact exists_evaluated_of_subset hsub hexponents fun hfits => iht he.1.2 hfits hchosen
      · have hsub := evaluated_whenFalse_subset negative whenTrue whenFalse hc
        exact exists_evaluated_of_subset hsub hexponents fun hfits => ihf he.2 hfits hchosen

end Expr

/-- An operator on 64-bit integers overflows exactly where its exact result has more than 64 bits,
    or where it is the remainder of the least integer by `-1`.  So an evaluation without reals
    overflows only if it meets a node whose exact value has more than 64 bits, before or after its
    sign flag is applied, or such a remainder.  Exponents that are refused whatever the base is are
    left out. -/
theorem overflow_is_out_of_range (op : Arithmetic) (a b : Int64) (env : Environment) (e : Expr)
    (limit : Nat) :
    ((op = .power → b.toInt < Arithmetic.exponentBound) →
      (Overflows (op.onIntegers a b) ↔
        (∃ i, op.ofIntegers? a.toInt b.toInt = some i ∧ ¬ IsInt64 i) ∨
          op = .modulo ∧ a.toInt = minInteger ∧ b.toInt = -1)) ∧
    (env.IsRealFree → e.isRealFree = true → (∀ s ∈ e.evaluated env, s.exponentFits env = true) →
      Overflows (e.evaluateWithin limit env) →
      ∃ s ∈ e.evaluated env, s.Outgrows env ∨ s.isLeastRemainder env = true) := by
  refine ⟨fun hexponent => Arithmetic.overflows_onIntegers_iff hexponent,
    fun henv he hexponents h => Expr.exists_of_overflows_value henv he hexponents ?_⟩
  -- an evaluation that is cut off reports the limit; any other is the value of the tree
  rcases e.evaluateWithin_cutOff env limit with hcut | heq
  · obtain ⟨operation, hoverflow⟩ := h
    cases hcut.symm.trans hoverflow
  · rwa [heq] at h

/-- The power of three by 41 has more than 64 bits.  The negation of `(-2) ^ n` has so for 63, where
    the power is the least integer; the other branch, an unbound variable, is not evaluated. -/
theorem overflow_is_out_of_range_negation :
    let env : Environment := Bindings.empty.insert "n" (.integer 63)
    let power : Expr :=
      .binary true (.arithmetic .power) (.lit false (.integer (-2))) (.var false "n")
    let e : Expr := .cond false (.lit false (.boolean true)) power (.var false "m")
    ((Arithmetic.power = .power → (41 : Int64).toInt < Arithmetic.exponentBound) ∧
      (Overflows (Arithmetic.power.onIntegers 3 41) ↔
        (∃ i, Arithmetic.power.ofIntegers? 3 41 = some i ∧ ¬ IsInt64 i) ∨
          Arithmetic.power = .modulo ∧ (3 : Int) = minInteger ∧ (41 : Int) = -1)) ∧
    env.IsRealFree ∧ e.isRealFree = true ∧ (∀ s ∈ e.evaluated env, s.exponentFits env = true) ∧
      Overflows (e.evaluateWithin 3 env) ∧
      ∃ s ∈ e.evaluated env, s.Outgrows env ∨ s.isLeastRemainder env = true := by
  intro env power e
  have hbound : Arithmetic.power = .power → (41 : Int64).toInt < Arithmetic.exponentBound :=
    fun _ => by decide
  have henv : env.IsRealFree := by
    intro name v hv
    -- the one binding is an integer
    by_cases hname : name = "n"
    · subst hname
      rw [Bindings.find?_insert_self] at hv
      cases hv
      decide
    · rw [Bindings.find?_insert_ne _ hname] at hv
      cases hv
  have he : e.isRealFree = true := rfl
  have hexponents : ∀ s ∈ e.evaluated env, s.exponentFits env = true := by decide +kernel
  have hrun : Overflows (e.evaluateWithin 3 env) := ⟨.negation, rfl⟩
  obtain ⟨hoperator, htree⟩ := overflow_is_out_of_range .power 3 41 env e 3
  exact ⟨⟨hbound, hoperator hbound⟩, henv, he, hexponents, hrun, htree henv he hexponents hrun⟩

/-- The remainder of the least integer by `-1` is zero, and yet it overflows. -/
theorem not_forall_overflows_iff_out_of_range :
    ¬ ∀ (op : Arithmetic) (a b : Int64),
      (op = .power → 0 ≤ b.toInt ∧ b.toInt < Arithmetic.exponentBound) →
      (op = .divide ∨ op = .modulo → b.toInt ≠ 0) →
      (Overflows (op.onIntegers a b) ↔
        ∃ i, op.ofIntegers? a.toInt b.toInt = some i ∧ ¬ IsInt64 i) := by
  intro h
  have hoverflows : Overflows (Arithmetic.modulo.onIntegers (Int64.ofInt minInteger) (-1)) :=
    ⟨_, rfl⟩
  have hexact : Arithmetic.modulo.ofIntegers? (Int64.ofInt minInteger).toInt (-1 : Int64).toInt =
      some 0 := by decide
  -- the remainder is zero, which is in range
  obtain ⟨i, hi, hout⟩ :=
    (h .modulo (Int64.ofInt minInteger) (-1) (by simp) (fun _ => by decide)).mp hoverflows
  obtain rfl : 0 = i := Option.some.inj (hexact.symm.trans hi)
  exact hout ⟨by decide, by decide⟩

end Formula
