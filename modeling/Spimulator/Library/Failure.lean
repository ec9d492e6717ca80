import Spimulator.Library.Frame

/-! How computations over a state with failure can fail: what holds of every error and of the state
in which it is raised. -/
namespace Failure
open Frame

variable {ε σ α β : Type}

/-- Whether a run has failed with an error of the kind. -/
def failsWith (p : ε → Bool) : EStateM.Result ε σ α → Bool
  | .ok _ _ => false
  | .error e _ => p e

lemma error_of_failsWith {p : ε → Bool} {r : EStateM.Result ε σ α} (h : failsWith p r = true) :
    ∃ e t, r = .error e t ∧ p e = true := by
  cases r with
  | ok a t => cases h
  | error e t => exact ⟨e, t, rfl, h⟩

/-- Every run of `x` that fails does so with an error and in a state with the property. -/
def FailsOnly (P : ε → σ → Prop) (x : EStateM ε σ α) : Prop :=
  ∀ s e t, x.run s = .error e t → P e t

namespace FailsOnly

variable {P : ε → σ → Prop}

theorem pure (a : α) : FailsOnly P (Pure.pure a : EStateM ε σ α) := by
  intro s e t h
  cases h

theorem throw {e : ε} (h : ∀ s, P e s) : FailsOnly P (MonadExcept.throw e : EStateM ε σ α) := by
  intro s e' t h'
  cases h'
  exact h s

theorem modify (f : σ → σ) : FailsOnly P (modifyThe σ f : EStateM ε σ PUnit) := by
  intro s e t h
  cases h

theorem set (s : σ) : FailsOnly P (MonadStateOf.set s : EStateM ε σ PUnit) := by
  intro s e t h
  cases h

theorem bind {x : EStateM ε σ α} {f : α → EStateM ε σ β} (hx : FailsOnly P x)
    (hf : ∀ a, FailsOnly P (f a)) : FailsOnly P (x >>= f) := by
  intro s e t h
  rw [EStateM.run_bind] at h
  cases hr : x.run s with
  | ok a s' =>
    rw [hr] at h
    exact hf a s' e t h
  | error e' s' =>
    rw [hr] at h
    cases h
    exact hx s e t hr

/-- The error is raised in the state that is read, unless later. -/
theorem get_bind {f : σ → EStateM ε σ β} (hf : ∀ s, FailsOnly P (f s)) :
    FailsOnly P (MonadState.get >>= f) := fun s e t h => hf s s e t h

theorem iteOf {p : Prop} [Decidable p] {x y : EStateM ε σ α} (hx : p → FailsOnly P x)
    (hy : ¬ p → FailsOnly P y) : FailsOnly P (if p then x else y) := by
  by_cases h : p
  · rw [if_pos h]
    exact hx h
  · rw [if_neg h]
    exact hy h

theorem ite {p : Prop} [Decidable p] {x y : EStateM ε σ α} (hx : FailsOnly P x)
    (hy : FailsOnly P y) : FailsOnly P (if p then x else y) := iteOf (fun _ => hx) fun _ => hy

theorem onlyIf {c : Prop} [Decidable c] {x : EStateM ε σ Unit} (hx : FailsOnly P x) :
    FailsOnly P (onlyIf c x) := ite hx (pure _)

end FailsOnly

/-- The run of `x` from `s`, if it fails, does so with an error and in a state with the property. -/
def FailsFrom (P : ε → σ → Prop) (x : EStateM ε σ α) (s : σ) : Prop :=
  ∀ e t, x.run s = .error e t → P e t

namespace FailsFrom

variable {P : ε → σ → Prop} {s : σ}

theorem bind {x : EStateM ε σ α} {f : α → EStateM ε σ β} (hx : FailsFrom P x s)
    (hf : ∀ a t, x.run s = .ok a t → FailsFrom P (f a) t) : FailsFrom P (x >>= f) s := by
  intro e u h
  rw [EStateM.run_bind] at h
  cases hr : x.run s with
  | ok a t =>
    rw [hr] at h
    exact hf a t hr e u h
  | error e' t =>
    rw [hr] at h
    cases h
    exact hx e u hr

theorem get_bind {f : σ → EStateM ε σ β} (hf : FailsFrom P (f s) s) :
    FailsFrom P (MonadState.get >>= f) s := hf

theorem throw {e : ε} (h : P e s) : FailsFrom P (MonadExcept.throw e : EStateM ε σ α) s := by
  intro e' t h'
  cases h'
  exact h

theorem ite {p : Prop} [Decidable p] {x y : EStateM ε σ α} (hx : p → FailsFrom P x s)
    (hy : ¬ p → FailsFrom P y s) : FailsFrom P (if p then x else y) s := by
  by_cases h : p
  · rw [if_pos h]
    exact hx h
  · rw [if_neg h]
    exact hy h

/-- A loop fails with the property when a predicate of the steps that are left and of the state
holds on, its steps fail with the property where it holds, and it gives the property where no step
is left. -/
theorem repeatStep {e : ε} {step : α → EStateM ε σ (α × Bool)} {K : ℕ → σ → Prop}
    (hzero : ∀ s, K 0 s → P e s)
    (hfail : ∀ n a s, K (n + 1) s → FailsFrom P (step a) s)
    (hnext : ∀ n a s b t, K (n + 1) s → (step a).run s = .ok (b, true) t → K n t)
    (n : ℕ) (a : α) (s : σ) (h : K n s) : FailsFrom P (repeatStep e step n a) s := by
  induction n generalizing a s with
  | zero =>
    intro e' t h'
    cases h'
    exact hzero s h
  | succ n ih =>
    refine bind (hfail n a s h) fun b t ht => ?_
    obtain ⟨b, more⟩ := b
    cases more with
    | false => exact FailsOnly.pure b t
    | true => exact ih b t (hnext n a s b t h ht)

end FailsFrom

/-- Runs of `x` that return are related to where they started; those that fail go wrong in a state
that is, and in the way that `F` tells. -/
def Outcome (R : Rel σ) (F : ε → σ → σ → Prop) (x : EStateM ε σ α) : Prop :=
  ∀ s, match x.run s with
    | .ok _ t => R.rel s t
    | .error e t => ∃ u, R.rel s u ∧ F e u t

namespace Outcome

variable {R : Rel σ} {F : ε → σ → σ → Prop} {s t : σ}

theorem bind {x : EStateM ε σ α} {f : α → EStateM ε σ β} (hx : Outcome R F x)
    (hf : ∀ a, Outcome R F (f a)) : Outcome R F (x >>= f) := by
  intro s
  have hs := hx s
  rw [EStateM.run_bind]
  cases hr : x.run s with
  | error e t =>
    rw [hr] at hs
    exact hs
  | ok a t =>
    rw [hr] at hs
    have ht := hf a t
    dsimp only
    cases hu : (f a).run t with
    | ok b u =>
      rw [hu] at ht
      exact R.trans hs ht
    | error e u =>
      rw [hu] at ht
      obtain ⟨v, hv, hF⟩ := ht
      exact ⟨v, R.trans hs hv, hF⟩

theorem ok {x : EStateM ε σ α} {a : α} (hx : Outcome R F x) (h : x.run s = .ok a t) : R.rel s t := by
  have hs := hx s
  rwa [h] at hs

theorem error {x : EStateM ε σ α} {e : ε} (hx : Outcome R F x) (h : x.run s = .error e t) :
    ∃ u, R.rel s u ∧ F e u t := by
  have hs := hx s
  rwa [h] at hs

end Outcome
end Failure
