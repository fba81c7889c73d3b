import Formula.Proofs.Typing.Soundness

/-!
# Where the type of a tree is the type of its value

Under bindings of exactly the declared types, the value of a tree has the type of the tree, with one
exception.  A conditional with an integer and a real branch has the type of reals, but it hands on
the value of the branch that it chooses as it is.  So its value may be an integer, and so may the
value of arithmetic on it.  `Expr.Narrows` holds of the trees to which that happens:

* `narrows_iff`                     the trees that narrow are those of the type of reals with an
  integer value
* `type_evaluateWithin_eq_iff`      a value has the type of its tree unless the tree narrows
* `not_forall_type_evaluate_eq`     and there are trees that do
-/

namespace Formula

/-- The same variables are bound as are declared, each to a value of exactly its type. -/
def Environment.Matches (env : Environment) (types : TypeEnvironment) : Prop :=
  ∀ name, (env.find? name).map Value.type = types.find? name

/-- The value of a tree comes from the integer branch of a conditional that also has a real one,
    through nothing but branches that are chosen and arithmetic with integers. -/
inductive Expr.Narrows (types : TypeEnvironment) (env : Environment) : Expr → Prop
  | chosenTrue {negative condition whenTrue whenFalse}
      (hc : condition.value env = .ok (.boolean true))
      (ht : whenTrue.typeIn types = .ok .integer) (hf : whenFalse.typeIn types = .ok .real) :
      Narrows types env (.cond negative condition whenTrue whenFalse)
  | chosenFalse {negative condition whenTrue whenFalse}
      (hc : condition.value env = .ok (.boolean false))
      (ht : whenTrue.typeIn types = .ok .real) (hf : whenFalse.typeIn types = .ok .integer) :
      Narrows types env (.cond negative condition whenTrue whenFalse)
  | insideTrue {negative condition whenTrue whenFalse}
      (hc : condition.value env = .ok (.boolean true)) (ht : Narrows types env whenTrue) :
      Narrows types env (.cond negative condition whenTrue whenFalse)
  | insideFalse {negative condition whenTrue whenFalse}
      (hc : condition.value env = .ok (.boolean false)) (hf : Narrows types env whenFalse) :
      Narrows types env (.cond negative condition whenTrue whenFalse)
  | left {negative op left right} (hl : Narrows types env left)
      (hr : right.typeIn types = .ok .integer) :
      Narrows types env (.binary negative (.arithmetic op) left right)
  | right {negative op left right} (hl : left.typeIn types = .ok .integer)
      (hr : Narrows types env right) :
      Narrows types env (.binary negative (.arithmetic op) left right)
  | both {negative op left right} (hl : Narrows types env left) (hr : Narrows types env right) :
      Narrows types env (.binary negative (.arithmetic op) left right)

variable {types : TypeEnvironment} {env : Environment}

/-- Values of exactly the declared types fit them. -/
theorem Environment.Matches.serves (h : env.Matches types) : env.Serves types := by
  intro name t ht
  obtain ⟨v, hv, rfl⟩ := Option.map_eq_some_iff.mp ((h name).trans ht)
  exact ⟨v, hv, v.fits_type⟩

theorem Environment.matches_empty : Environment.Matches .empty .empty :=
  fun _ => rfl

/-- Binding a value goes with declaring its type. -/
theorem Environment.Matches.insert (h : env.Matches types) (name : String) (v : Value) :
    Environment.Matches (Bindings.insert env name v) (Bindings.insert types name v.type) := by
  intro other
  by_cases hother : other = name
  · subst hother
    rw [Bindings.find?_insert_self, Bindings.find?_insert_self]
    rfl
  · rw [Bindings.find?_insert_ne _ hother, Bindings.find?_insert_ne _ hother]
    exact h other

/-! ## The types of results -/

namespace Arithmetic

/-- A sign flag keeps the type of a value. -/
theorem type_of_applySign {negative : Bool} {v w : Value} (h : applySign negative v = .ok w) :
    w.type = v.type := by
  cases negative with
  | false =>
    cases h
    rfl
  | true =>
    cases v with
    | boolean b => cases h
    | real x =>
      cases h
      rfl
    | integer i =>
      -- an integer has a negation or none, but no other type
      simp only [applySign, negate, ↓reduceIte] at h
      split at h
      · cases h
        rfl
      · cases h

/-- Arithmetic gives an integer on integers and a real on all other numbers. -/
theorem type_of_onValues {op : Arithmetic} {v w r : Value} (h : op.onValues v w = .ok r) :
    r.type = Checker.promoted v.type w.type := by
  cases v with
  | boolean b => cases w <;> cases h
  | real x =>
    cases w with
    | boolean b => cases h
    | integer j | real y =>
      cases h
      rfl
  | integer i =>
    cases w with
    | boolean b => cases h
    | real y =>
      cases h
      rfl
    | integer j =>
      -- two integers give an integer, if they give anything
      simp only [onValues] at h
      cases hk : op.onIntegers i j with
      | error e =>
        rw [hk] at h
        cases h
      | ok k =>
        rw [hk] at h
        cases h
        rfl

end Arithmetic

namespace Expr

variable {v : Value} {negative : Bool}

/-- The value of arithmetic has the promoted type of the values of its operands. -/
theorem exists_of_value_arithmetic {op : Arithmetic} {left right : Expr}
    (h : (binary negative (.arithmetic op) left right).value env = .ok v) :
    ∃ a b, left.value env = .ok a ∧ right.value env = .ok b ∧
      v.type = Checker.promoted a.type b.type := by
  simp only [value, Evaluator.ofOperands, Except.bind_eq_ok_iff] at h
  obtain ⟨w, ⟨a, ha, b, hb, hw⟩, hv⟩ := h
  exact ⟨a, b, ha, hb, (Arithmetic.type_of_applySign hv).trans (Arithmetic.type_of_onValues hw)⟩

/-- The value of a conditional has the type of the value of the branch that is chosen. -/
theorem exists_of_value_cond {condition whenTrue whenFalse : Expr}
    (h : (cond negative condition whenTrue whenFalse).value env = .ok v) :
    ∃ c w, condition.value env = .ok (.boolean c) ∧
      (if c then whenTrue else whenFalse).value env = .ok w ∧ v.type = w.type := by
  simp only [value, Evaluator.ofBranches, Except.bind_eq_ok_iff] at h
  obtain ⟨w, ⟨x, hx, c, hc, hw⟩, hv⟩ := h
  have hxc : x = .boolean c := by
    cases x with
    | boolean b =>
      cases hc
      rfl
    | integer i | real y => cases hc
  refine ⟨c, w, hxc ▸ hx, ?_, Arithmetic.type_of_applySign hv⟩
  cases c <;> exact hw

end Expr

/-! ## Narrowing trees -/

namespace Expr

theorem narrows_arithmetic_iff {negative : Bool} {op : Arithmetic} {left right : Expr} :
    Narrows types env (.binary negative (.arithmetic op) left right) ↔
      Narrows types env left ∧ right.typeIn types = .ok .integer ∨
        left.typeIn types = .ok .integer ∧ Narrows types env right ∨
          Narrows types env left ∧ Narrows types env right := by
  constructor
  · intro h
    cases h with
    | left hl hr => exact .inl ⟨hl, hr⟩
    | right hl hr => exact .inr (.inl ⟨hl, hr⟩)
    | both hl hr => exact .inr (.inr ⟨hl, hr⟩)
  · intro h
    obtain ⟨hl, hr⟩ | ⟨hl, hr⟩ | ⟨hl, hr⟩ := h
    · exact .left hl hr
    · exact .right hl hr
    · exact .both hl hr

theorem narrows_cond_true_iff {negative : Bool} {condition whenTrue whenFalse : Expr}
    (hc : condition.value env = .ok (.boolean true)) :
    Narrows types env (.cond negative condition whenTrue whenFalse) ↔
      whenTrue.typeIn types = .ok .integer ∧ whenFalse.typeIn types = .ok .real ∨
        Narrows types env whenTrue := by
  constructor
  · intro h
    cases h with
    | chosenTrue _ ht hf => exact .inl ⟨ht, hf⟩
    | insideTrue _ ht => exact .inr ht
    | chosenFalse hc' _ _ | insideFalse hc' _ =>
      -- the other branch is not the chosen one
      rw [hc] at hc'
      cases hc'
  · intro h
    obtain ⟨ht, hf⟩ | ht := h
    · exact .chosenTrue hc ht hf
    · exact .insideTrue hc ht

theorem narrows_cond_false_iff {negative : Bool} {condition whenTrue whenFalse : Expr}
    (hc : condition.value env = .ok (.boolean false)) :
    Narrows types env (.cond negative condition whenTrue whenFalse) ↔
      whenTrue.typeIn types = .ok .real ∧ whenFalse.typeIn types = .ok .integer ∨
        Narrows types env whenFalse := by
  constructor
  · intro h
    cases h with
    | chosenFalse _ ht hf => exact .inl ⟨ht, hf⟩
    | insideFalse _ hf => exact .inr hf
    | chosenTrue hc' _ _ | insideTrue hc' _ =>
      -- the other branch is not the chosen one
      rw [hc] at hc'
      cases hc'
  · intro h
    obtain ⟨ht, hf⟩ | hf := h
    · exact .chosenFalse hc ht hf
    · exact .insideFalse hc hf

/-- What a value of a tree fits. -/
theorem fits_of_value (henv : env.Serves types) {e : Expr} {t : ValueType} {v : Value}
    (ht : e.typeIn types = .ok t) (hv : e.value env = .ok v) : v.Fits t := by
  have h := admits_value henv ht
  rwa [hv] at h

/-- A tree does not narrow if its type is that of its value and no rule of narrowing is for it. -/
theorem narrows_iff_of_type_eq {e : Expr} {t : ValueType} {v : Value}
    (h : ¬ e.Narrows types env) (htype : v.type = t) :
    e.Narrows types env ↔ t = .real ∧ v.type = .integer := by
  apply iff_of_false h
  intro hboth
  obtain ⟨rfl, hinteger⟩ := hboth
  rw [htype] at hinteger
  cases hinteger

/-- Operators other than those of arithmetic give truth values. -/
theorem type_of_value_logical {op : Operator} {left right : Expr} {t : ValueType} {v : Value}
    (hop : ∀ a, op ≠ .arithmetic a) (henv : env.Serves types)
    (ht : (binary negative op left right).typeIn types = .ok t)
    (hv : (binary negative op left right).value env = .ok v) : v.type = t := by
  have hboolean : t = .boolean := by
    obtain ⟨s₁, s₂, -, -, hallows, -⟩ := typeIn_binary_eq_ok_iff.mp ht
    cases op with
    | arithmetic op => exact absurd rfl (hop op)
    | and | or => exact hallows.2.2
    | distinct => exact hallows
    | compare comparator => exact hallows.2
  subst hboolean
  obtain ⟨b, rfl⟩ := (fits_of_value henv ht hv).exists_boolean
  rfl

/-- The trees that narrow are those of the type of reals with an integer value. -/
theorem narrows_iff (henv : env.Matches types) {e : Expr} {t : ValueType} {v : Value}
    (ht : e.typeIn types = .ok t) (hv : e.value env = .ok v) :
    e.Narrows types env ↔ t = .real ∧ v.type = .integer := by
  -- on the tree; a leaf has exactly its type, and only a conditional can lose it
  induction e generalizing t v with
  | lit negative value =>
    obtain ⟨rfl, -⟩ := Checker.signed_eq_ok_iff.mp ht
    refine narrows_iff_of_type_eq ?_ (Arithmetic.type_of_applySign hv)
    intro hnarrows
    cases hnarrows
  | var negative name =>
    simp only [typeIn] at ht
    simp only [value] at hv
    cases hx : env.find? name with
    | none =>
      rw [hx] at hv
      cases hv
    | some w =>
      -- the declared type is exactly that of the value
      rw [hx] at hv
      rw [← henv name, hx] at ht
      obtain ⟨rfl, -⟩ := Checker.signed_eq_ok_iff.mp ht
      refine narrows_iff_of_type_eq ?_ (Arithmetic.type_of_applySign hv)
      intro hnarrows
      cases hnarrows
  | binary negative op left right ihl ihr =>
    cases op with
    | arithmetic op =>
      obtain ⟨s₁, s₂, hl, hr, ⟨hs₁, hs₂, rfl⟩, -⟩ := typeIn_binary_eq_ok_iff.mp ht
      obtain ⟨a, b, ha, hb, hv⟩ := exists_of_value_arithmetic hv
      have hfa := fits_of_value henv.serves hl ha
      have hfb := fits_of_value henv.serves hr hb
      -- what is left is a table over the types of the operands and of their values
      rw [narrows_arithmetic_iff, ihl hl ha, ihr hr hb, hl, hr, hv]
      simp only [Except.ok.injEq]
      grind [ValueType, Value.Fits, Checker.promoted, ValueType.isNumeric]
    | and | or | distinct | compare comparator =>
      -- these give truth values, so that nothing is left of what their operands are
      refine narrows_iff_of_type_eq ?_ (type_of_value_logical ?_ henv.serves ht hv)
      · intro hnarrows
        cases hnarrows
      · intro a hop
        cases hop
  | cond negative condition whenTrue whenFalse ihc iht ihf =>
    -- both branches have types, but only the one that is chosen has a value
    obtain ⟨-, s₁, s₂, h₁, h₂, hu, -⟩ := typeIn_cond_eq_ok_iff.mp ht
    obtain ⟨c, w, hc, hw, hv⟩ := exists_of_value_cond hv
    rw [hv]
    cases c with
    | true =>
      have hfit := fits_of_value henv.serves h₁ hw
      rw [narrows_cond_true_iff hc, iht h₁ hw, h₁, h₂]
      simp only [Except.ok.injEq]
      grind [Value.Fits, ValueType.unify]
    | false =>
      have hfit := fits_of_value henv.serves h₂ hw
      rw [narrows_cond_false_iff hc, ihf h₂ hw, h₁, h₂]
      simp only [Except.ok.injEq]
      grind [Value.Fits, ValueType.unify]

/-- Only a tree with a conditional whose branches have different types narrows. -/
theorem Narrows.exists_mixed {e : Expr} (h : e.Narrows types env) :
    ∃ negative condition whenTrue whenFalse,
      cond negative condition whenTrue whenFalse ∈ e.subtrees ∧
        whenTrue.typeIn types ≠ whenFalse.typeIn types := by
  -- on the way down to the conditional that narrows
  induction h with
  | chosenTrue hc ht hf | chosenFalse hc ht hf =>
    refine ⟨_, _, _, _, List.mem_cons_self, ?_⟩
    rw [ht, hf]
    exact nofun
  | insideTrue hc ht ih =>
    obtain ⟨n, c, a, b, hmem, hne⟩ := ih
    exact ⟨n, c, a, b, by simp [subtrees, hmem], hne⟩
  | insideFalse hc hf ih =>
    obtain ⟨n, c, a, b, hmem, hne⟩ := ih
    exact ⟨n, c, a, b, by simp [subtrees, hmem], hne⟩
  | left hl hr ih | right hl hr ih | both hl hr ih =>
    obtain ⟨n, c, a, b, hmem, hne⟩ := ih
    exact ⟨n, c, a, b, by simp [subtrees, hmem], hne⟩

/-- An evaluation that gives a value gives the value of the tree, whatever its limit is. -/
theorem value_of_evaluateWithin {limit : Nat} {e : Expr} {v : Value}
    (h : e.evaluateWithin limit env = .ok v) : e.value env = .ok v := by
  obtain h' | h' := evaluateWithin_cutOff env e limit
  · exact nomatch h.symm.trans h'
  · exact h'.symm.trans h

/-! ## The types of values -/

/-- A value has the type of its tree, unless it is an integer where the type is that of reals.  That
    happens exactly if the tree narrows, and never if the two branches of each conditional in it
    have the same type. -/
theorem type_evaluateWithin_eq_iff (henv : env.Matches types) {m n : Nat} {e : Expr}
    {t : ValueType} {v : Value} (ht : e.checkWithin m types = .ok t)
    (hv : e.evaluateWithin n env = .ok v) :
    (v.type = t ∨ t = .real ∧ v.type = .integer) ∧
      (v.type = t ↔ ¬ e.Narrows types env) ∧
      ((∀ negative condition whenTrue whenFalse,
          cond negative condition whenTrue whenFalse ∈ e.subtrees →
            whenTrue.typeIn types = whenFalse.typeIn types) → v.type = t) := by
  have ht := typeIn_of_checkWithin ht
  have hv := value_of_evaluateWithin hv
  have hfit : v.Fits t := fits_of_value henv.serves ht hv
  have hiff : v.type = t ↔ ¬ e.Narrows types env := by
    rw [narrows_iff henv ht hv]
    grind [Value.Fits]
  refine ⟨hfit, hiff, fun hsame => hiff.mpr fun h => ?_⟩
  -- branches of one type leave nothing to narrow
  obtain ⟨negative, condition, whenTrue, whenFalse, hmem, hne⟩ := h.exists_mixed
  exact hne (hsame _ _ _ _ hmem)

/-- The types of a tree that narrows, with arithmetic on a conditional that chooses the integer. -/
theorem type_evaluateWithin_eq_iff_sum :
    let types : TypeEnvironment := Bindings.empty.insert "n" .integer
    let env : Environment := Bindings.empty.insert "n" (.integer 7)
    let e : Expr := .binary false (.arithmetic .add)
      (.cond true (.lit false (.boolean true)) (.var false "n") (.lit false (.real 2.0)))
      (.lit false (.integer 1))
    let v : Value := .integer (-6)
    env.Matches types ∧ e.checkWithin 3 types = .ok .real ∧ e.evaluateWithin 4 env = .ok v ∧
      (v.type = .real ∨ ValueType.real = .real ∧ v.type = .integer) ∧
      (v.type = .real ↔ ¬ e.Narrows types env) ∧
      ((∀ negative condition whenTrue whenFalse,
          cond negative condition whenTrue whenFalse ∈ e.subtrees →
            whenTrue.typeIn types = whenFalse.typeIn types) → v.type = .real) := by
  intro types env e v
  have henv : env.Matches types := Environment.matches_empty.insert "n" (.integer 7)
  have ht : e.checkWithin 3 types = .ok .real := rfl
  have hv : e.evaluateWithin 4 env = .ok v := rfl
  exact ⟨henv, ht, hv, type_evaluateWithin_eq_iff henv ht hv⟩

/-- The value of a tree need not have the type of the tree: `if true then 1 else 2.0` is of the type
    of reals and has the value `1`. -/
theorem not_forall_type_evaluate_eq :
    ¬ ∀ (types : TypeEnvironment) (env : Environment) (e : Expr) (t : ValueType) (v : Value),
      env.Matches types → e.check types = .ok t → e.evaluate env = .ok v → v.type = t := by
  intro h
  exact nomatch h .empty .empty
    (.cond false (.lit false (.boolean true)) (.lit false (.integer 1)) (.lit false (.real 2.0)))
    .real (.integer 1) (fun _ => rfl) rfl rfl

end Expr

end Formula
