import Formula.Nesting

/-!
# Passes as plain results

A pass that leaves the nesting as it finds it is *balanced*.  At a fixed nesting it is just a result,
and `Nesting.result` takes it apart step by step:

* `result_bind`      one balanced step after the other
* `result_descend`   a step inside a child, where the limit is looked at

`Reaches` says how the result of a pass depends on the limit: with room for the levels that the pass
goes down it is what comes out without a limit, and with less room it is the complaint about the
limit.  Sequencing keeps both properties.
-/

namespace Formula.Nesting

variable {ε α β : Type}

/-! ## Balanced passes -/

/-- A pass that leaves the nesting as it finds it, whether it fails or not. -/
def Balanced (pass : Pass ε α) : Prop :=
  ∀ n, (∃ a, pass n = .ok a n) ∨ ∃ e, pass n = .error e n

/-- The passes that only lift a result look at no nesting at all. -/
theorem balanced_liftExcept (x : Except ε α) : Balanced (liftExcept x : Pass ε α) := by
  intro n
  cases x with
  | ok a => exact .inl ⟨a, rfl⟩
  | error e => exact .inr ⟨e, rfl⟩

theorem balanced_throw (e : ε) : Balanced (throw e : Pass ε α) :=
  fun _ => .inr ⟨e, rfl⟩

/-- Sequencing keeps passes balanced. -/
theorem Balanced.bind {x : Pass ε α} {f : α → Pass ε β} (hx : Balanced x)
    (hf : ∀ a, Balanced (f a)) : Balanced (x >>= f) := by
  intro n
  obtain ⟨a, ha⟩ | ⟨e, he⟩ := hx n
  · simpa only [Bind.bind, EStateM.bind, ha] using hf a n
  · exact .inr ⟨e, by simp only [Bind.bind, EStateM.bind, he]⟩

/-- The way into a child and the way out of it cancel. -/
theorem Balanced.descend {exceeded : Nat → ε} {step : Pass ε α} (h : Balanced step) :
    Balanced (descend exceeded step) := by
  intro n
  unfold Nesting.descend
  split
  · exact .inr ⟨_, rfl⟩
  · obtain ⟨a, ha⟩ | ⟨e, he⟩ := h n.enter
    · exact .inl ⟨a, by rw [ha]; rfl⟩
    · exact .inr ⟨e, by rw [he]; rfl⟩

/-! ## Results -/

@[simp] theorem result_liftExcept (x : Except ε α) (n : Nesting) :
    result (liftExcept x) n = x := by
  cases x <;> rfl

@[simp] theorem result_pure (a : α) (n : Nesting) : result (pure a : Pass ε α) n = .ok a := rfl

@[simp] theorem result_throw (e : ε) (n : Nesting) :
    result (throw e : Pass ε α) n = .error e := rfl

/-- Behind a balanced step the nesting is the same as before. -/
theorem result_bind {x : Pass ε α} (h : Balanced x) (f : α → Pass ε β) (n : Nesting) :
    result (x >>= f) n = result x n >>= fun a => result (f a) n := by
  obtain ⟨a, ha⟩ | ⟨e, he⟩ := h n
  · simp only [result, Bind.bind, EStateM.bind, ha, Except.bind]
  · simp only [result, Bind.bind, EStateM.bind, he, Except.bind]

/-- The result of a choice is the result of the step that is chosen. -/
theorem result_ite (c : Bool) (x y : Pass ε α) (n : Nesting) :
    result (if c then x else y) n = if c then result x n else result y n := by
  cases c <;> rfl

/-- A step inside a child is refused at the limit, and done one level deeper below it. -/
theorem result_descend (exceeded : Nat → ε) (step : Pass ε α) (n : Nesting) :
    result (descend exceeded step) n =
      if n.limit ≤ n.depth then .error (exceeded n.limit) else result step n.enter := by
  by_cases h : n.limit ≤ n.depth
  · simp only [result, descend, if_pos h]
  · simp only [result, descend, if_neg h]
    cases step n.enter <;> rfl

theorem result_descend_of_lt (exceeded : Nat → ε) (step : Pass ε α) {n : Nesting}
    (h : n.depth < n.limit) : result (descend exceeded step) n = result step n.enter := by
  rw [result_descend, if_neg (Nat.not_le.mpr h)]

/-- A child that gives something has been entered below the limit. -/
theorem result_descend_eq_ok_iff {exceeded : Nat → ε} {step : Pass ε α} {n : Nesting} {a : α} :
    result (descend exceeded step) n = .ok a ↔ n.depth < n.limit ∧ result step n.enter = .ok a := by
  rw [result_descend]
  split
  · simp only [reduceCtorEq, false_iff]
    omega
  · simp only [iff_and_self]
    omega

/-! ## The influence of the limit -/

/-- A result that is `whole`, unless it is the complaint about the limit. -/
def CutOff (exceeded : ε) (x whole : Except ε α) : Prop :=
  x = .error exceeded ∨ x = whole

/-- How the result of a pass depends on the limit.  The pass goes a number of levels down, at most
    `bound`; where there is room for them its result is `whole`, and elsewhere it is the complaint
    about the limit. -/
def Reaches (exceeded : Nat → ε) (bound : Nat) (x : Nesting → Except ε α) (whole : Except ε α) :
    Prop :=
  ∃ levels ≤ bound, ∀ n, n.depth ≤ n.limit →
    x n = if n.depth + levels ≤ n.limit then whole else .error (exceeded n.limit)

namespace Reaches

variable {exceeded : Nat → ε} {bound : Nat}

/-- A result that does not look at the limit. -/
theorem const (whole : Except ε α) : Reaches exceeded bound (fun _ => whole) whole :=
  ⟨0, Nat.zero_le _, fun _ hn => (if_pos hn).symm⟩

theorem mono {bound' : Nat} {x : Nesting → Except ε α} {whole : Except ε α}
    (h : Reaches exceeded bound x whole) (hle : bound ≤ bound') :
    Reaches exceeded bound' x whole := by
  obtain ⟨levels, hlevels, hx⟩ := h
  exact ⟨levels, Nat.le_trans hlevels hle, hx⟩

/-- A sequence goes as deep as its first step or, if that succeeds, as the deeper one of both. -/
theorem bind {x : Nesting → Except ε α} {whole : Except ε α} {f : α → Nesting → Except ε β}
    {g : α → Except ε β} (hx : Reaches exceeded bound x whole)
    (hf : ∀ a, Reaches exceeded bound (f a) (g a)) :
    Reaches exceeded bound (fun n => x n >>= fun a => f a n) (whole >>= g) := by
  obtain ⟨levels, hlevels, hx⟩ := hx
  cases whole with
  | error e =>
    -- the rest is not reached, with room or without
    refine ⟨levels, hlevels, fun n hn => ?_⟩
    simp only [hx n hn]
    split <;> rfl
  | ok a =>
    obtain ⟨levels', hlevels', hfa⟩ := hf a
    refine ⟨max levels levels', Nat.max_le.mpr ⟨hlevels, hlevels'⟩, fun n hn => ?_⟩
    simp only [hx n hn]
    by_cases hroom : n.depth + levels ≤ n.limit
    · rw [if_pos hroom]
      refine (hfa n hn).trans ?_
      -- the first step had room, so what matters is the room for the rest
      have hiff : n.depth + max levels levels' ≤ n.limit ↔ n.depth + levels' ≤ n.limit := by omega
      simp only [hiff]
      rfl
    · -- the first step is refused already
      have hroom' : ¬ n.depth + max levels levels' ≤ n.limit := by omega
      rw [if_neg hroom, if_neg hroom']
      rfl

/-- A child is one level further down. -/
theorem descend {step : Pass ε α} {whole : Except ε α}
    (h : Reaches exceeded bound (result step) whole) :
    Reaches exceeded (bound + 1) (result (descend exceeded step)) whole := by
  obtain ⟨levels, hlevels, hstep⟩ := h
  refine ⟨levels + 1, Nat.succ_le_succ hlevels, fun n _ => ?_⟩
  rw [result_descend]
  split
  · rw [if_neg (by omega)]
  · next hlt =>
    have henter : n.enter.depth ≤ n.enter.limit := by simp only [enter]; omega
    rw [hstep n.enter henter]
    simp only [enter, Nat.add_assoc, Nat.add_comm 1]

end Reaches

end Formula.Nesting
