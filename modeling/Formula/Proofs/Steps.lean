/-!
# Steps that may fail

A sequence of steps succeeds exactly if its first step does and the rest does from there.
-/

namespace Except

variable {ε α β : Type}

theorem bind_eq_ok_iff {x : Except ε α} {f : α → Except ε β} {b : β} :
    x >>= f = .ok b ↔ ∃ a, x = .ok a ∧ f a = .ok b := by
  cases x with
  | error e => simp [Bind.bind, Except.bind]
  | ok a => simp [Bind.bind, Except.bind]

/-- Whether a result is an allowed error, if it is an error. -/
def FailsOnly (allowed : ε → Prop) (x : Except ε α) : Prop :=
  ∀ e, x = .error e → allowed e

section FailsOnly

variable {allowed : ε → Prop}

theorem failsOnly_ok (a : α) : FailsOnly allowed (.ok a : Except ε α) := nofun

theorem failsOnly_error {e : ε} (h : allowed e) : FailsOnly allowed (.error e : Except ε α) := by
  intro e' he
  cases he
  exact h

theorem FailsOnly.imp {allowed' : ε → Prop} {x : Except ε α} (hx : FailsOnly allowed x)
    (h : ∀ e, allowed e → allowed' e) : FailsOnly allowed' x :=
  fun e he => h e (hx e he)

/-- A sequence fails where its first step does or where the rest does. -/
theorem FailsOnly.bind {x : Except ε α} {f : α → Except ε β} (hx : FailsOnly allowed x)
    (hf : ∀ a, FailsOnly allowed (f a)) : FailsOnly allowed (x >>= f) := by
  cases x with
  | error e => exact failsOnly_error (hx e rfl)
  | ok a => exact hf a

theorem FailsOnly.mapError {ε' : Type} {allowed' : ε' → Prop} {x : Except ε α} {f : ε → ε'}
    (hx : FailsOnly allowed x) (hf : ∀ e, allowed e → allowed' (f e)) :
    FailsOnly allowed' (x.mapError f) := by
  cases x with
  | error e => exact failsOnly_error (hf e (hx e rfl))
  | ok a => exact failsOnly_ok a

/-- A function that leaves the allowed errors alone leaves the result alone. -/
theorem FailsOnly.mapError_eq {x : Except ε α} {f : ε → ε} (hx : FailsOnly allowed x)
    (hf : ∀ e, allowed e → f e = e) : x.mapError f = x := by
  cases x with
  | error e => exact congrArg Except.error (hf e (hx e rfl))
  | ok a => rfl

end FailsOnly

end Except

namespace EStateM

variable {ε σ α β : Type}

theorem bind_eq_ok_iff {x : EStateM ε σ α} {f : α → EStateM ε σ β} {s s' : σ} {b : β} :
    (x >>= f) s = .ok b s' ↔ ∃ a t, x s = .ok a t ∧ f a t = .ok b s' := by
  cases h : x s with
  | error e t => simp [Bind.bind, EStateM.bind, h]
  | ok a t =>
    simp only [Bind.bind, EStateM.bind, h, Result.ok.injEq]
    constructor
    · intro hf
      exact ⟨a, t, ⟨rfl, rfl⟩, hf⟩
    · intro hf
      obtain ⟨_, _, ⟨rfl, rfl⟩, hf⟩ := hf
      exact hf

/-- A sequence fails if its first step does, or else the rest does. -/
theorem bind_eq_error_iff {x : EStateM ε σ α} {f : α → EStateM ε σ β} {s s' : σ} {e : ε} :
    (x >>= f) s = .error e s' ↔ x s = .error e s' ∨ ∃ a t, x s = .ok a t ∧ f a t = .error e s' := by
  cases h : x s with
  | error e' t => simp [Bind.bind, EStateM.bind, h]
  | ok a t =>
    simp only [Bind.bind, EStateM.bind, h, reduceCtorEq, Result.ok.injEq, false_or]
    constructor
    · intro hf
      exact ⟨a, t, ⟨rfl, rfl⟩, hf⟩
    · intro hf
      obtain ⟨_, _, ⟨rfl, rfl⟩, hf⟩ := hf
      exact hf

/-- Behind a step that succeeds, the rest goes on from where it stopped. -/
theorem bind_of_ok {x : EStateM ε σ α} {s t : σ} {a : α} (h : x s = .ok a t)
    (f : α → EStateM ε σ β) : (x >>= f) s = f a t := by
  simp only [Bind.bind, EStateM.bind, h]

theorem get_bind (f : σ → EStateM ε σ β) (s : σ) :
    ((get : EStateM ε σ σ) >>= f) s = f s s := rfl

/-- Whether a result is a value and a state as wanted, or an error as allowed. -/
def Result.Meets (result : Result ε σ α) (wanted : α → σ → Prop) (allowed : ε → Prop) : Prop :=
  match result with
  | .ok a s => wanted a s
  | .error e _ => allowed e

theorem Result.Meets.imp {result : Result ε σ α} {wanted wanted' : α → σ → Prop}
    {allowed allowed' : ε → Prop} (h : result.Meets wanted allowed)
    (hwanted : ∀ a s, wanted a s → wanted' a s) (hallowed : ∀ e, allowed e → allowed' e) :
    result.Meets wanted' allowed' := by
  cases result with
  | ok a s => exact hwanted a s h
  | error e s => exact hallowed e h

/-- A sequence is as wanted if the rest is so behind every outcome of the first step. -/
theorem Result.Meets.bind {x : EStateM ε σ α} {f : α → EStateM ε σ β} {s : σ}
    {between : α → σ → Prop} {wanted : β → σ → Prop} {fromFirst allowed : ε → Prop}
    (hx : (x s).Meets between fromFirst) (herror : ∀ e, fromFirst e → allowed e)
    (hok : ∀ a t, between a t → (f a t).Meets wanted allowed) :
    ((x >>= f) s).Meets wanted allowed := by
  simp only [Bind.bind, EStateM.bind]
  cases h : x s with
  | ok a t =>
    rw [h] at hx
    exact hok a t hx
  | error e t =>
    rw [h] at hx
    exact herror e hx

theorem modify_bind (g : σ → σ) (f : PUnit → EStateM ε σ β) (s : σ) :
    ((modify g : EStateM ε σ PUnit) >>= f) s = f ⟨⟩ (g s) := rfl

end EStateM
