import Spimulator.Library.Frame

/-! Pairs of computations over a state with failure that run alike, with a bound on what the run
adds to a count of the state, and an error that it does not end in. -/
namespace BoundedRun
open Frame

variable {ε σ α β : Type}

/-- From `s` the two computations do the same, add at most `k`, and do not fail with `bad`. -/
structure Alike (count : σ → ℕ) (bad : ε) (k : ℕ) (x y : EStateM ε σ α) (s : σ) : Prop where
  same : x.run s = y.run s
  adds : count (final (x.run s)) ≤ count s + k
  avoids : ∀ t, x.run s ≠ .error bad t

namespace Alike

variable {count : σ → ℕ} {bad : ε} {j k : ℕ} {s : σ}

theorem pure (a : α) : Alike count bad 0 (Pure.pure a : EStateM ε σ α) (Pure.pure a) s where
  same := rfl
  adds := Nat.le_refl _
  avoids t h := by cases h

theorem throw {e : ε} (h : e ≠ bad) :
    Alike count bad 0 (MonadExcept.throw e : EStateM ε σ α) (MonadExcept.throw e) s where
  same := rfl
  adds := Nat.le_refl _
  avoids t ht := by
    cases ht
    exact h rfl

theorem set {t : σ} (h : count t ≤ count s + k) :
    Alike count bad k (MonadStateOf.set t : EStateM ε σ PUnit) (MonadStateOf.set t) s where
  same := rfl
  adds := h
  avoids _ h := by cases h

theorem modify {f : σ → σ} (h : count (f s) ≤ count s + k) :
    Alike count bad k (modifyThe σ f : EStateM ε σ PUnit) (modifyThe σ f) s where
  same := rfl
  adds := h
  avoids _ h := by cases h

theorem mono {x y : EStateM ε σ α} (hjk : j ≤ k) (h : Alike count bad j x y s) :
    Alike count bad k x y s :=
  ⟨h.same, Nat.le_trans h.adds (Nat.add_le_add_left hjk _), h.avoids⟩

theorem bind {x y : EStateM ε σ α} {f g : α → EStateM ε σ β} (hx : Alike count bad j x y s)
    (hf : ∀ a t, x.run s = .ok a t → Alike count bad k (f a) (g a) t) :
    Alike count bad (j + k) (x >>= f) (y >>= g) s := by
  have hadds := hx.adds
  cases hr : x.run s with
  | ok a t =>
    have hy : y.run s = .ok a t := hx.same.symm.trans hr
    obtain ⟨hsame, hadds', havoids⟩ := hf a t hr
    rw [hr] at hadds
    refine ⟨?_, ?_, ?_⟩
    · rw [run_bind_of_ok hr, run_bind_of_ok hy, hsame]
    · rw [run_bind_of_ok hr, ← Nat.add_assoc]
      exact Nat.le_trans hadds' (Nat.add_le_add_right hadds k)
    · rw [run_bind_of_ok hr]
      exact havoids
  | error e t =>
    have hrun {z : EStateM ε σ α} {f : α → EStateM ε σ β} (hz : z.run s = .error e t) :
        (z >>= f).run s = .error e t := by
      rw [EStateM.run_bind, hz]
    rw [hr] at hadds
    refine ⟨?_, ?_, fun t' h => hx.avoids t' ?_⟩
    · rw [hrun hr, hrun (hx.same.symm.trans hr)]
    · rw [hrun hr, ← Nat.add_assoc]
      exact Nat.le_trans hadds (Nat.le_add_right _ k)
    · rw [hrun hr] at h
      cases h
      exact hr

theorem get_bind {f g : σ → EStateM ε σ β} (hf : Alike count bad k (f s) (g s) s) :
    Alike count bad k (MonadState.get >>= f) (MonadState.get >>= g) s :=
  ⟨hf.same, hf.adds, hf.avoids⟩

theorem ite {p : Prop} [Decidable p] {x x' y y' : EStateM ε σ α}
    (hx : p → Alike count bad k x x' s) (hy : ¬ p → Alike count bad k y y' s) :
    Alike count bad k (if p then x else y) (if p then x' else y') s := by
  by_cases h : p
  · rw [if_pos h, if_pos h]
    exact hx h
  · rw [if_neg h, if_neg h]
    exact hy h

theorem onlyIf {c : Prop} [Decidable c] {x y : EStateM ε σ Unit} (h : Alike count bad k x y s) :
    Alike count bad k (onlyIf c x) (onlyIf c y) s :=
  ite (fun _ => h) fun _ => (pure ()).mono (Nat.zero_le k)

end Alike

/-- From every state the computation adds at most `k`, and does not fail with `bad`. -/
def Adds (count : σ → ℕ) (bad : ε) (k : ℕ) (x : EStateM ε σ α) : Prop :=
  ∀ s, Alike count bad k x x s

namespace Adds

variable {count : σ → ℕ} {bad : ε} {j k : ℕ}

theorem bind {x : EStateM ε σ α} {f : α → EStateM ε σ β} (hx : Adds count bad j x)
    (hf : ∀ a, Adds count bad k (f a)) : Adds count bad (j + k) (x >>= f) :=
  fun s => (hx s).bind fun a t _ => hf a t

theorem modify {f : σ → σ} (h : ∀ s, count (f s) ≤ count s + k) :
    Adds count bad k (modifyThe σ f : EStateM ε σ PUnit) :=
  fun s => Alike.modify (h s)

end Adds
end BoundedRun
