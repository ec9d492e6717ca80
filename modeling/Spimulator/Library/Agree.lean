import Spimulator.Library.Frame

/-! Pairs of runs that agree: both return the same value or fail in the same way, and leave states
that are related as those they started from. -/
namespace Frame

variable {ε σ α β : Type}

/-- The runs of `x` from `s` and of `y` from `t` agree, and leave states related by `P`. -/
def Agree (P : σ → σ → Prop) (x y : EStateM ε σ α) (s t : σ) : Prop :=
  match x.run s, y.run t with
  | .ok a s', .ok b t' => a = b ∧ P s' t'
  | .error e s', .error e' t' => e = e' ∧ P s' t'
  | _, _ => False

namespace Agree

variable {P : σ → σ → Prop} {s t : σ}

theorem pure (h : P s t) (a : α) : Agree P (Pure.pure a : EStateM ε σ α) (Pure.pure a) s t :=
  ⟨rfl, h⟩

theorem throw (h : P s t) (e : ε) :
    Agree P (MonadExcept.throw e : EStateM ε σ α) (MonadExcept.throw e) s t := ⟨rfl, h⟩

theorem set {s' t' : σ} (h : P s' t') :
    Agree P (MonadStateOf.set s' : EStateM ε σ PUnit) (MonadStateOf.set t') s t := ⟨rfl, h⟩

theorem modify {f g : σ → σ} (h : P (f s) (g t)) :
    Agree P (modifyThe σ f : EStateM ε σ PUnit) (modifyThe σ g) s t := ⟨rfl, h⟩

theorem get_bind {f g : σ → EStateM ε σ β} (h : Agree P (f s) (g t) s t) :
    Agree P (MonadState.get >>= f) (MonadState.get >>= g) s t := h

theorem bind {x y : EStateM ε σ α} {f g : α → EStateM ε σ β} (hx : Agree P x y s t)
    (hf : ∀ a s' t', x.run s = .ok a s' → P s' t' → Agree P (f a) (g a) s' t') :
    Agree P (x >>= f) (y >>= g) s t := by
  rw [Agree] at hx ⊢
  rw [EStateM.run_bind, EStateM.run_bind]
  cases hr : x.run s with
  | ok a s' =>
    cases hq : y.run t with
    | ok b t' =>
      rw [hr, hq] at hx
      obtain ⟨rfl, hp⟩ := hx
      have h := hf a s' t' hr hp
      rw [Agree] at h
      exact h
    | error e t' =>
      rw [hr, hq] at hx
      exact hx.elim
  | error e s' =>
    cases hq : y.run t with
    | ok b t' =>
      rw [hr, hq] at hx
      exact hx.elim
    | error e' t' =>
      rw [hr, hq] at hx
      exact hx

theorem ite {p q : Prop} [Decidable p] [Decidable q] {x x' y y' : EStateM ε σ α} (hpq : p ↔ q)
    (hx : p → Agree P x x' s t) (hy : ¬ p → Agree P y y' s t) :
    Agree P (if p then x else y) (if q then x' else y') s t := by
  by_cases h : p
  · rw [if_pos h, if_pos (hpq.mp h)]
    exact hx h
  · rw [if_neg h, if_neg (fun hq => h (hpq.mpr hq))]
    exact hy h

theorem onlyIf {p q : Prop} [Decidable p] [Decidable q] {x y : EStateM ε σ Unit} (hpq : p ↔ q)
    (h : P s t) (hx : p → Agree P x y s t) :
    Agree P (Frame.onlyIf p x) (Frame.onlyIf q y) s t :=
  ite hpq hx fun _ => pure h ()

/-- What one of the runs returns, the other returns too. -/
theorem ok {x y : EStateM ε σ α} {a : α} {s' : σ} (h : Agree P x y s t)
    (hx : x.run s = .ok a s') : ∃ t', y.run t = .ok a t' ∧ P s' t' := by
  rw [Agree, hx] at h
  cases hq : y.run t with
  | ok b t' =>
    rw [hq] at h
    obtain ⟨rfl, hp⟩ := h
    exact ⟨t', rfl, hp⟩
  | error e t' =>
    rw [hq] at h
    exact h.elim

end Agree

end Frame
