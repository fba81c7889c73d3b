import Formula.Proofs.Evaluation.Unlimited
import Formula.Proofs.Steps

/-!
# Evaluation over unbounded integers

`Expr.exactResult?` evaluates a tree by the same rules as an evaluation does, but over the integers
of mathematics, and notes every integer that it computes.  It has no limit and no overflow; where it
has no result, an operand is of the wrong kind, a variable is unbound or stands for a real, a
divisor is zero or an exponent is negative.

An evaluation that gives a value gives the exact one, and all integers on the way to it have 64
bits (`Expr.exactResult?_of_evaluateWithin`).  The one place where the two compute differently is a
power with a large exponent, which is folded first (`Arithmetic.pow_of_foldedExponent`).
-/

namespace Formula

/-- Whether an integer has 64 bits. -/
def IsInt64 (i : Int) : Prop :=
  minInteger ≤ i ∧ i ≤ maxInteger

theorem isInt64_of_int64? {i : Int} {n : Int64} (h : int64? i = some n) : IsInt64 i := by
  unfold int64? at h
  split at h
  · next hi => exact hi
  · cases h

theorem isInt64_toInt (n : Int64) : IsInt64 n.toInt :=
  isInt64_of_int64? (int64?_toInt n)

/-- The integers of two parts of a computation have 64 bits if those of each do. -/
theorem isInt64_append {l m : List Int} (hl : ∀ i ∈ l, IsInt64 i) (hm : ∀ i ∈ m, IsInt64 i) :
    ∀ i ∈ l ++ m, IsInt64 i := by
  intro i hi
  exact (List.mem_append.mp hi).elim (hl i) (hm i)

/-! ## Exact values -/

/-- A value whose integers have no bound. -/
inductive ExactValue where
  | integer (i : Int)
  | boolean (b : Bool)
deriving DecidableEq

namespace ExactValue

/-- The integers that a value consists of. -/
def integers : ExactValue → List Int
  | .integer i => [i]
  | .boolean _ => []

/-- A truth value. -/
def asBool? : ExactValue → Option Bool
  | .integer _ => none
  | .boolean b => some b

/-- The negation of a number. -/
def negate? : ExactValue → Option ExactValue
  | .integer i => some (.integer (-i))
  | .boolean _ => none

end ExactValue

/-- The exact value that a value stands for; reals stand for none. -/
def Value.asExact? : Value → Option ExactValue
  | .integer i => some (.integer i.toInt)
  | .boolean b => some (.boolean b)
  | .real _ => none

/-- Only integers and truth values stand for exact values. -/
theorem Value.cases_of_asExact? {v : Value} {x : ExactValue} (h : v.asExact? = some x) :
    (∃ i, v = .integer i ∧ x = .integer i.toInt) ∨ ∃ b, v = .boolean b ∧ x = .boolean b := by
  cases v with
  | integer i => exact .inl ⟨i, rfl, (Option.some.inj h).symm⟩
  | boolean b => exact .inr ⟨b, rfl, (Option.some.inj h).symm⟩
  | real a => cases h

/-! ## Exact operations -/

namespace Arithmetic

/-- An operator on unbounded integers.  Quotients go toward zero and remainders have the sign of the
    dividend. -/
def ofIntegers? (op : Arithmetic) (x y : Int) : Option Int :=
  match op with
  | .add => some (x + y)
  | .subtract => some (x - y)
  | .multiply => some (x * y)
  | .divide => if y = 0 then none else some (x.tdiv y)
  | .modulo => if y = 0 then none else some (x.tmod y)
  | .power => if y < 0 then none else some (x.pow y.toNat)

/-- An operator on two exact values. -/
def ofExactValues? (op : Arithmetic) : ExactValue → ExactValue → Option ExactValue
  | .integer x, .integer y => (op.ofIntegers? x y).map .integer
  | _, _ => none

end Arithmetic

namespace Comparator

/-- Whether a comparator holds of two integers. -/
def ofIntegers (comparator : Comparator) (x y : Int) : Bool :=
  match comparator with
  | .equal => decide (x = y)
  | .notEqual => decide (x ≠ y)
  | .lessThan => decide (x < y)
  | .lessThanOrEqual => decide (x ≤ y)
  | .greaterThan => decide (y < x)
  | .greaterThanOrEqual => decide (y ≤ x)

/-- Whether a comparator holds of two exact values.  Truth values are only equal or not. -/
def ofExactValues? (comparator : Comparator) : ExactValue → ExactValue → Option Bool
  | .integer x, .integer y => some (comparator.ofIntegers x y)
  | .boolean a, .boolean b =>
    match comparator with
    | .equal => some (a == b)
    | .notEqual => some (a != b)
    | _ => none
  | _, _ => none

end Comparator

/-- An exact value and the integers computed on the way to it. -/
structure Exact where
  value : ExactValue
  integers : List Int
deriving DecidableEq

namespace Exact

/-- The exact value of a node, given its value without the sign flag and the integers of its
    children.  The integers of the node are noted before and after applying the flag. -/
def sign (negative : Bool) (before : List Int) (v : ExactValue) : Option Exact :=
  if negative then do
    let w ← v.negate?
    return ⟨w, before ++ v.integers ++ w.integers⟩
  else some ⟨v, before ++ v.integers⟩

/-- The exact value of an operator, given its operands. -/
def ofOperands (op : Operator) (left right : Option Exact) : Option Exact :=
  match op with
  | .arithmetic op => do
    let a ← left
    let b ← right
    return ⟨← op.ofExactValues? a.value b.value, a.integers ++ b.integers⟩
  | .and => do
    let a ← left
    if ← a.value.asBool? then
      let b ← right
      return ⟨.boolean (← b.value.asBool?), a.integers ++ b.integers⟩
    else return ⟨.boolean false, a.integers⟩
  | .or => do
    let a ← left
    if ← a.value.asBool? then return ⟨.boolean true, a.integers⟩
    else
      let b ← right
      return ⟨.boolean (← b.value.asBool?), a.integers ++ b.integers⟩
  | .distinct => do
    let a ← left
    let b ← right
    return ⟨.boolean (decide (a.value ≠ b.value)), a.integers ++ b.integers⟩
  | .compare comparator => do
    let a ← left
    let b ← right
    return ⟨.boolean (← comparator.ofExactValues? a.value b.value), a.integers ++ b.integers⟩

/-- The exact value of a conditional, given its children. -/
def ofBranches (condition whenTrue whenFalse : Option Exact) : Option Exact := do
  let c ← condition
  let chosen ← if ← c.value.asBool? then whenTrue else whenFalse
  return ⟨chosen.value, c.integers ++ chosen.integers⟩

end Exact

/-- The exact value of a tree and the integers computed on the way to it. -/
def Expr.exactResult? (env : Environment) : Expr → Option Exact
  | .lit negative value => value.asExact?.bind (Exact.sign negative [])
  | .var negative name => ((env.find? name).bind Value.asExact?).bind (Exact.sign negative [])
  | .binary negative op left right => do
    let v ← Exact.ofOperands op (left.exactResult? env) (right.exactResult? env)
    Exact.sign negative v.integers v.value
  | .cond negative condition whenTrue whenFalse => do
    let v ← Exact.ofBranches (condition.exactResult? env) (whenTrue.exactResult? env)
      (whenFalse.exactResult? env)
    Exact.sign negative v.integers v.value

/-! ## Powers -/

namespace Arithmetic

/-- Powers of all bases but three outgrow 64 bits. -/
theorem not_isInt64_pow {x : Int} {n : Nat} (hx : 2 ≤ x.natAbs) (hn : 64 ≤ n) :
    ¬ IsInt64 (x.pow n) := by
  intro h
  have habs : (x.pow n).natAbs = x.natAbs.pow n := Int.natAbs_pow x n
  have hbase : Nat.pow 2 n ≤ x.natAbs.pow n := Nat.pow_le_pow_left hx n
  have hexponent : Nat.pow 2 64 ≤ Nat.pow 2 n := Nat.pow_le_pow_right (by decide) hn
  have htwo : Nat.pow 2 64 = 18446744073709551616 := rfl
  simp only [IsInt64, minInteger, maxInteger] at h
  omega

/-- The powers of a base that stays small repeat with every second exponent. -/
theorem pow_add_two_mul {x : Int} (hx : x.natAbs ≤ 1) {m : Nat} (hm : 0 < m) (k : Nat) :
    x.pow (m + 2 * k) = x.pow m := by
  have hcube : x * x * x = x := by
    have hcases : x = 0 ∨ x = 1 ∨ x = -1 := by omega
    rcases hcases with rfl | rfl | rfl <;> rfl
  -- on how many times the exponent has gone up by two; `hcube` takes off one of them
  induction k with
  | zero => rfl
  | succ k ih =>
    -- there is a factor in front of the two new ones
    obtain ⟨j, hj⟩ : ∃ j, m + 2 * k = j + 1 := ⟨m + 2 * k - 1, by omega⟩
    have hsucc (n : Nat) : x.pow (n + 1) = x.pow n * x := Int.pow_succ x n
    have hnext : m + 2 * (k + 1) = j + 1 + 1 + 1 := by omega
    rw [← ih, hnext, hj, hsucc, hsucc, hsucc, Int.mul_assoc, Int.mul_assoc, ← Int.mul_assoc x,
      hcube]

/-- Folding the exponent keeps the power, or both powers have more than 64 bits. -/
theorem pow_foldedExponent_cases (x : Int) (n : Nat) :
    x.pow (foldedExponent n) = x.pow n ∨
      ¬ IsInt64 (x.pow (foldedExponent n)) ∧ ¬ IsInt64 (x.pow n) := by
  unfold foldedExponent
  split
  · exact .inl rfl
  · next hn =>
    by_cases hx : 2 ≤ x.natAbs
    · -- from 2 on, 64 factors are too many before and after folding
      exact .inr ⟨not_isInt64_pow hx (by omega), not_isInt64_pow hx (by omega)⟩
    · -- the exponents differ by an even number
      have hsplit : n = 64 + n % 2 + 2 * ((n - 64) / 2) := by omega
      have hsmall : x.natAbs ≤ 1 := by omega
      have hpow := pow_add_two_mul hsmall (m := 64 + n % 2) (by omega) ((n - 64) / 2)
      rw [← hsplit] at hpow
      exact .inl hpow.symm

/-- Folding the exponent does not change a power that has 64 bits. -/
theorem pow_of_foldedExponent {x : Int} {n : Nat} (h : IsInt64 (x.pow (foldedExponent n))) :
    x.pow (foldedExponent n) = x.pow n :=
  (pow_foldedExponent_cases x n).resolve_right fun hout => hout.1 h

/-! ## What passes the gate is exact -/

theorem toInt_of_bounded {op : Arithmetic} {i : Int} {n : Int64} (h : bounded op i = .ok n) :
    n.toInt = i := by
  unfold bounded at h
  split at h
  · next hi =>
    cases h
    exact toInt_of_int64? hi
  · cases h

/-- An operator that gives an integer gives the exact one. -/
theorem ofIntegers?_of_onIntegers {op : Arithmetic} {a b c : Int64}
    (h : op.onIntegers a b = .ok c) : op.ofIntegers? a.toInt b.toInt = some c.toInt := by
  -- what has passed a gate is the exact integer that came to it, so each case finds its gate
  cases op with
  | add | subtract | multiply => rw [ofIntegers?, toInt_of_bounded h]
  | divide =>
    simp only [onIntegers] at h
    split at h
    · cases h
    · next hb => rw [ofIntegers?, if_neg hb, toInt_of_bounded h]
  | modulo =>
    simp only [onIntegers] at h
    split at h
    · cases h
    · next hb =>
      -- the quotient has passed, and so has the remainder
      split at h
      · rw [ofIntegers?, if_neg hb, toInt_of_bounded h]
      · cases h
  | power =>
    simp only [onIntegers] at h
    split at h
    · cases h
    · next hb =>
      split at h
      · have hpow := toInt_of_bounded h
        -- the gate has seen the folded power, which is the power if it has 64 bits
        have hbits : IsInt64 (a.toInt.pow (foldedExponent b.toInt.toNat)) :=
          hpow ▸ isInt64_toInt c
        rw [ofIntegers?, if_neg hb, hpow, pow_of_foldedExponent hbits]
      · cases h

/-- On values without reals, arithmetic that succeeds is exact. -/
theorem ofExactValues?_of_onValues {op : Arithmetic} {v w r : Value} {x y : ExactValue}
    (hv : v.asExact? = some x) (hw : w.asExact? = some y) (h : op.onValues v w = .ok r) :
    ∃ z, op.ofExactValues? x y = some z ∧ r.asExact? = some z := by
  -- without reals, only two integers are computed with
  obtain ⟨i, rfl, rfl⟩ | ⟨a, rfl, rfl⟩ := Value.cases_of_asExact? hv
  · obtain ⟨j, rfl, rfl⟩ | ⟨b, rfl, rfl⟩ := Value.cases_of_asExact? hw
    · simp only [onValues] at h
      cases hk : op.onIntegers i j with
      | error e =>
        rw [hk] at h
        cases h
      | ok k =>
        rw [hk] at h
        cases h
        exact ⟨.integer k.toInt, by simp [ofExactValues?, ofIntegers?_of_onIntegers hk], rfl⟩
    · cases h
  · -- a truth value on the left is refused
    cases w <;> cases h

end Arithmetic

namespace Comparator

/-- A comparator holds of two integers as it holds of their order. -/
theorem holds_compare (comparator : Comparator) (x y : Int) :
    comparator.holds (compare x y) = comparator.ofIntegers x y := by
  -- below, above and equal
  rw [Int.compare_eq_ite_lt]
  split
  · next h =>
    have hne : x ≠ y := by omega
    have hle : x ≤ y := by omega
    cases comparator <;> simp [holds, ofIntegers, h, hne, hle]
  · split
    · next h =>
      have hne : x ≠ y := by omega
      have hle : y ≤ x := by omega
      cases comparator <;> simp [holds, ofIntegers, h, hne, hle]
    · have heq : x = y := by omega
      subst heq
      cases comparator <;> simp [holds, ofIntegers]

/-- On values without reals, a comparison that succeeds is exact. -/
theorem ofExactValues?_of_onValues {comparator : Comparator} {v w : Value} {x y : ExactValue}
    {b : Bool} (hv : v.asExact? = some x) (hw : w.asExact? = some y)
    (h : comparator.onValues v w = .ok b) :
    comparator.ofExactValues? x y = some b := by
  obtain ⟨i, rfl, rfl⟩ | ⟨a, rfl, rfl⟩ := Value.cases_of_asExact? hv
  · obtain ⟨j, rfl, rfl⟩ | ⟨c, rfl, rfl⟩ := Value.cases_of_asExact? hw
    · cases h
      simp only [ofExactValues?, holds_compare]
    · cases comparator <;> cases h
  · obtain ⟨j, rfl, rfl⟩ | ⟨c, rfl, rfl⟩ := Value.cases_of_asExact? hw
    · cases comparator <;> cases h
    · -- truth values have no order
      cases comparator <;> cases h <;> cases a <;> cases c <;> rfl

end Comparator

/-- On values without reals, distinctness is exact. -/
theorem Value.differs_of_asExact? {v w : Value} {x y : ExactValue}
    (hv : v.asExact? = some x) (hw : w.asExact? = some y) : v.differs w = decide (x ≠ y) := by
  obtain ⟨i, rfl, rfl⟩ | ⟨a, rfl, rfl⟩ := Value.cases_of_asExact? hv
  · obtain ⟨j, rfl, rfl⟩ | ⟨b, rfl, rfl⟩ := Value.cases_of_asExact? hw
    · rw [Bool.eq_iff_iff]
      simp [differs, Int64.toInt_inj]
    · simp [differs, asReal?]
  · obtain ⟨j, rfl, rfl⟩ | ⟨b, rfl, rfl⟩ := Value.cases_of_asExact? hw
    · simp [differs, asReal?]
    · cases a <;> cases b <;> rfl

/-! ## Evaluations -/

/-- Whether a computation has the value `v`, and all integers on the way to it have 64 bits. -/
def Exact.Describes (r : Exact) (v : Value) : Prop :=
  v.asExact? = some r.value ∧ ∀ i ∈ r.integers, IsInt64 i

/-- Whether a run gives a value only if it is that of the exact computation. -/
def IsExact (run : Except EvalError Value) (exact : Option Exact) : Prop :=
  ∀ v, run = .ok v → ∃ r, exact = some r ∧ r.Describes v

section Steps

variable {x y z : Except EvalError Value} {r s t : Option Exact}

theorem isExact_ok {v : Value} {p : Exact} (h : p.Describes v) : IsExact (.ok v) (some p) := by
  intro w hw
  cases hw
  exact ⟨p, rfl, h⟩

/-- A sequence is exact if both of its parts are. -/
theorem IsExact.bind {f : Value → Except EvalError Value} {g : Exact → Option Exact}
    (hx : IsExact x r) (hrest : ∀ a p, p.Describes a → IsExact (f a) (g p)) :
    IsExact (x >>= f) (r >>= g) := by
  intro v hv
  obtain ⟨a, ha, hv⟩ := Except.bind_eq_ok_iff.mp hv
  obtain ⟨p, rfl, hp⟩ := hx a ha
  exact hrest a p hp v hv

/-- A choice by a truth value is exact if both of its sides are. -/
theorem isExact_truth_bind {operation : Operation} {a : Value} {p : Exact}
    {f : Bool → Except EvalError Value} {g : Bool → Option Exact} (hp : p.Describes a)
    (hrest : ∀ b, IsExact (f b) (g b)) :
    IsExact (Evaluator.truth operation a >>= f) (p.value.asBool? >>= g) := by
  intro v hv
  obtain ⟨b, hb, hv⟩ := Except.bind_eq_ok_iff.mp hv
  -- the exact value is asked for the same truth value
  have hvalue : p.value.asBool? = some b := by
    obtain ⟨i, rfl, -⟩ | ⟨c, rfl, hc⟩ := Value.cases_of_asExact? hp.1
    · cases hb
    · cases hb
      rw [hc]
      rfl
  rw [hvalue]
  exact hrest b v hv

/-- The integer that a value consists of has 64 bits. -/
theorem Value.isInt64_of_asExact? {v : Value} {w : ExactValue} (h : v.asExact? = some w) :
    ∀ i ∈ w.integers, IsInt64 i := by
  obtain ⟨n, rfl, rfl⟩ | ⟨b, rfl, rfl⟩ := Value.cases_of_asExact? h
  · intro i hi
    obtain rfl := List.mem_singleton.mp hi
    exact isInt64_toInt n
  · exact List.forall_mem_nil _

/-- A sign flag is applied exactly. -/
theorem isExact_applySign (negative : Bool) {before : List Int} {v : Value} {w : ExactValue}
    (hv : v.asExact? = some w) (hbefore : ∀ i ∈ before, IsInt64 i) :
    IsExact (Arithmetic.applySign negative v) (Exact.sign negative before w) := by
  have hall := isInt64_append hbefore (Value.isInt64_of_asExact? hv)
  cases negative with
  | false => exact isExact_ok ⟨hv, hall⟩
  | true =>
    intro u hu
    obtain ⟨n, rfl, rfl⟩ | ⟨b, rfl, rfl⟩ := Value.cases_of_asExact? hv
    · -- the negation has passed the gate, so it has 64 bits too
      simp only [Arithmetic.applySign, Arithmetic.negate, ↓reduceIte] at hu
      split at hu
      · next m hm =>
        cases hu
        have hvalue : (Value.integer m).asExact? = some (.integer (-n.toInt)) := by
          rw [Value.asExact?, toInt_of_int64? hm]
        exact ⟨_, rfl, hvalue, isInt64_append hall (Value.isInt64_of_asExact? hvalue)⟩
      · cases hu
    · cases hu

/-- A node is exact if it is so before its sign flag is applied. -/
theorem IsExact.sign {negative : Bool} (hx : IsExact x r) :
    IsExact (x >>= Arithmetic.applySign negative)
      (r >>= fun p => Exact.sign negative p.integers p.value) :=
  hx.bind fun _ _ hp => isExact_applySign negative hp.1 hp.2

/-- An operator is exact on exact operands. -/
theorem isExact_ofOperands (op : Operator) (hx : IsExact x r) (hy : IsExact y s) :
    IsExact (Evaluator.ofOperands op x y) (Exact.ofOperands op r s) := by
  -- in each case the integers of the operands that were asked for come along
  cases op with
  | arithmetic op =>
    refine hx.bind fun a p hp => hy.bind fun b q hq => ?_
    intro v hv
    obtain ⟨w, hw, hvw⟩ := Arithmetic.ofExactValues?_of_onValues hp.1 hq.1 hv
    rw [hw]
    exact ⟨⟨w, p.integers ++ q.integers⟩, rfl, hvw, isInt64_append hp.2 hq.2⟩
  | and =>
    refine hx.bind fun a p hp => isExact_truth_bind hp fun c => ?_
    -- only a true left operand leaves the choice to the right one
    cases c with
    | false => exact isExact_ok ⟨rfl, hp.2⟩
    | true =>
      exact hy.bind fun b q hq => isExact_truth_bind hq fun d =>
        isExact_ok ⟨rfl, isInt64_append hp.2 hq.2⟩
  | or =>
    refine hx.bind fun a p hp => isExact_truth_bind hp fun c => ?_
    cases c with
    | true => exact isExact_ok ⟨rfl, hp.2⟩
    | false =>
      exact hy.bind fun b q hq => isExact_truth_bind hq fun d =>
        isExact_ok ⟨rfl, isInt64_append hp.2 hq.2⟩
  | distinct =>
    refine hx.bind fun a p hp => hy.bind fun b q hq => ?_
    apply isExact_ok
    rw [Value.differs_of_asExact? hp.1 hq.1]
    exact ⟨rfl, isInt64_append hp.2 hq.2⟩
  | compare comparator =>
    refine hx.bind fun a p hp => hy.bind fun b q hq => ?_
    intro v hv
    obtain ⟨c, hc, hv⟩ := Except.bind_eq_ok_iff.mp hv
    cases hv
    rw [Comparator.ofExactValues?_of_onValues hp.1 hq.1 hc]
    exact ⟨⟨.boolean c, p.integers ++ q.integers⟩, rfl, rfl, isInt64_append hp.2 hq.2⟩

/-- A conditional is exact if its children are. -/
theorem isExact_ofBranches (hx : IsExact x r) (hy : IsExact y s) (hz : IsExact z t) :
    IsExact (Evaluator.ofBranches x y z) (Exact.ofBranches r s t) := by
  refine hx.bind fun a p hp => isExact_truth_bind hp fun c => ?_
  -- what the branch has computed is added to what the condition has
  have hchosen {x : Except EvalError Value} {r : Option Exact} (h : IsExact x r) :
      IsExact x (r >>= fun q => some ⟨q.value, p.integers ++ q.integers⟩) := by
    intro v hv
    obtain ⟨q, rfl, hq⟩ := h v hv
    exact ⟨_, rfl, hq.1, isInt64_append hp.2 hq.2⟩
  cases c with
  | true => exact hchosen hy
  | false => exact hchosen hz

end Steps

/-! ## Trees without reals -/

/-- A value other than a real is exact. -/
theorem Value.exists_asExact? {v : Value} (h : v.type ≠ .real) : ∃ x, v.asExact? = some x := by
  cases v with
  | integer i => exact ⟨.integer i.toInt, rfl⟩
  | boolean b => exact ⟨.boolean b, rfl⟩
  | real a => exact absurd rfl h

/-- Whether no variable stands for a real. -/
def Environment.IsRealFree (env : Environment) : Prop :=
  ∀ name v, env.find? name = some v → v.type ≠ .real

namespace Expr

/-- Whether no literal of a tree is a real. -/
def isRealFree : Expr → Bool
  | .lit _ value => value.type != .real
  | .var .. => true
  | .binary _ _ left right => left.isRealFree && right.isRealFree
  | .cond _ condition whenTrue whenFalse =>
    condition.isRealFree && whenTrue.isRealFree && whenFalse.isRealFree

variable {env : Environment} {e : Expr}

/-- Trees without reals have exact values. -/
theorem isExact_value (henv : env.IsRealFree) (he : e.isRealFree = true) :
    IsExact (e.value env) (e.exactResult? env) := by
  -- a leaf has no real in it, and a node is exact by its operands
  induction e with
  | lit negative value =>
    have hreal : value.type ≠ .real := by simpa [isRealFree] using he
    obtain ⟨x, hx⟩ := Value.exists_asExact? hreal
    simp only [Expr.value, exactResult?, hx, Option.bind_some]
    exact isExact_applySign negative hx (List.forall_mem_nil _)
  | var negative name =>
    simp only [Expr.value, exactResult?]
    -- an unbound variable gives no result to be exact about
    cases hfind : env.find? name with
    | none =>
      intro v hv
      cases hv
    | some value =>
      obtain ⟨x, hx⟩ := Value.exists_asExact? (henv name value hfind)
      simp only [Option.bind_some, hx]
      exact isExact_applySign negative hx (List.forall_mem_nil _)
  | binary negative op left right ihl ihr =>
    simp only [isRealFree, Bool.and_eq_true] at he
    exact (isExact_ofOperands op (ihl he.1) (ihr he.2)).sign
  | cond negative condition whenTrue whenFalse ihc iht ihf =>
    simp only [isRealFree, Bool.and_eq_true] at he
    exact (isExact_ofBranches (ihc he.1.1) (iht he.1.2) (ihf he.2)).sign

/-- Where no literal and no variable is a real, an evaluation that gives a value gives the exact
    one, and all integers that it has computed have 64 bits. -/
theorem exactResult?_of_evaluateWithin (henv : env.IsRealFree) (he : e.isRealFree = true)
    {limit : Nat} {v : Value} (h : e.evaluateWithin limit env = .ok v) :
    ∃ r, e.exactResult? env = some r ∧ v.asExact? = some r.value ∧
      ∀ i ∈ r.integers, minInteger ≤ i ∧ i ≤ maxInteger := by
  have hvalue : e.value env = .ok v := by
    rcases e.evaluateWithin_cutOff env limit with hcut | heq
    · rw [hcut] at h
      cases h
    · exact heq ▸ h
  exact isExact_value henv he v hvalue

/-- Exactness of `-(((-2) ^ 63 + n) / -2)`, where the power is the least integer of 64 bits and the
    quotient is not whole. -/
theorem exactResult?_of_evaluateWithin_quotient :
    let env : Environment := Bindings.empty.insert "n" (.integer 7)
    let least : Expr :=
      .binary false (.arithmetic .power) (.lit false (.integer (-2))) (.lit false (.integer 63))
    let e : Expr := .binary true (.arithmetic .divide)
      (.binary false (.arithmetic .add) least (.var false "n")) (.lit true (.integer 2))
    env.IsRealFree ∧ e.isRealFree = true ∧
      e.evaluateWithin 4 env = .ok (.integer (-4611686018427387900)) ∧
      ∃ r, e.exactResult? env = some r ∧ r.value = .integer (-4611686018427387900) ∧
        ∀ i ∈ r.integers, minInteger ≤ i ∧ i ≤ maxInteger := by
  intro env least e
  have henv : env.IsRealFree := by
    intro name v hv
    -- there is one binding, and its value is an integer
    by_cases hname : name = "n"
    · subst hname
      rw [Bindings.find?_insert_self] at hv
      cases hv
      decide
    · rw [Bindings.find?_insert_ne _ hname] at hv
      cases hv
  have he : e.isRealFree = true := rfl
  have hrun : e.evaluateWithin 4 env = .ok (.integer (-4611686018427387900)) := rfl
  obtain ⟨r, hr, hvalue, hintegers⟩ := exactResult?_of_evaluateWithin henv he hrun
  exact ⟨henv, he, hrun, r, hr, (Option.some.inj hvalue).symm, hintegers⟩

end Expr

end Formula
