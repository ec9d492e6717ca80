import Mathlib.Data.Nat.Notation
import Mathlib.Tactic.Lemma

/-! Computations over a state with failure, and the relations between the state before and after
that every run keeps. A relation is packaged with its reflexivity and transitivity, so that it
carries over a sequence of steps from the steps. -/
namespace Frame

variable {ε σ α β : Type}

/-- The state in which a run ends, whether it returns or fails. -/
def final : EStateM.Result ε σ α → σ
  | .ok _ s => s
  | .error _ s => s

@[simp] theorem final_ok (a : α) (s : σ) : final (.ok a s : EStateM.Result ε σ α) = s := rfl
@[simp] theorem final_error (e : ε) (s : σ) :
    final (.error e s : EStateM.Result ε σ α) = s := rfl

/-- What a sequence returns, it returns through what comes first. -/
theorem ok_of_bind {x : EStateM ε σ α} {f : α → EStateM ε σ β} {s u : σ} {b : β}
    (h : (x >>= f).run s = .ok b u) : ∃ a t, x.run s = .ok a t ∧ (f a).run t = .ok b u := by
  rw [EStateM.run_bind] at h
  cases hr : x.run s with
  | ok a t =>
    rw [hr] at h
    exact ⟨a, t, rfl, h⟩
  | error e t =>
    rw [hr] at h
    cases h

/-- A sequence goes on from where what comes first returns. -/
theorem run_bind_of_ok {x : EStateM ε σ α} {f : α → EStateM ε σ β} {s t : σ} {a : α}
    (h : x.run s = .ok a t) : (x >>= f).run s = (f a).run t := by
  rw [EStateM.run_bind, h]

/-- A sequence fails with what comes first. -/
theorem run_bind_of_error {x : EStateM ε σ α} {f : α → EStateM ε σ β} {s t : σ} {e : ε}
    (h : x.run s = .error e t) : (x >>= f).run s = .error e t := by
  rw [EStateM.run_bind, h]

/-- A computation that is run only under a condition. -/
def onlyIf (c : Prop) [Decidable c] (x : EStateM ε σ Unit) : EStateM ε σ Unit :=
  if c then x else Pure.pure ()

@[simp] theorem onlyIf_pos {c : Prop} [Decidable c] (h : c) (x : EStateM ε σ Unit) :
    onlyIf c x = x := if_pos h
@[simp] theorem onlyIf_neg {c : Prop} [Decidable c] (h : ¬ c) (x : EStateM ε σ Unit) :
    onlyIf c x = Pure.pure () := if_neg h

/-- A step is repeated on its value as long as it asks for more, at most `n` times. -/
def repeatStep (e : ε) (step : α → EStateM ε σ (α × Bool)) : ℕ → α → EStateM ε σ α
  | 0, _ => MonadExcept.throw e
  | n+1, a => do
    let b ← step a
    if b.2 then repeatStep e step n b.1 else Pure.pure b.1

/-- A loop whose first step asks for no more. -/
theorem repeatStep_last {e : ε} {step : α → EStateM ε σ (α × Bool)} {s t : σ} {a b : α} (n : ℕ)
    (h : (step a).run s = .ok (b, false) t) : (repeatStep e step (n + 1) a).run s = .ok b t := by
  rw [repeatStep, run_bind_of_ok h]
  rfl

/-- A relation between the states before and after, closed under taking no step and two steps. It
is asked of the runs that return; of those that fail it is asked up to what `upTo` lets differ, by
default nothing. -/
structure Rel (σ : Type) where
  rel : σ → σ → Prop
  refl : ∀ s, rel s s
  trans : ∀ {s t u}, rel s t → rel t u → rel s u
  upTo : σ → σ → Prop := Eq
  upTo_refl : ∀ s, upTo s s := by exact fun _ => rfl

/-- What is asked of the runs that fail. -/
def Rel.failed (R : Rel σ) (s t : σ) : Prop := ∃ t', R.rel s t' ∧ R.upTo t' t

theorem Rel.toFailed (R : Rel σ) {s t : σ} (h : R.rel s t) : R.failed s t :=
  ⟨t, h, R.upTo_refl t⟩

/-- The part of the state that `f` reads stays as it is. -/
def Rel.same {β : Type} (f : σ → β) : Rel σ where
  rel s t := f t = f s
  refl _ := rfl
  trans h h' := h'.trans h

/-- A property of the state, once true, stays true. -/
def Rel.stable (P : σ → Prop) : Rel σ where
  rel s t := P s → P t
  refl _ := id
  trans h h' := h' ∘ h

/-- The relation is asked of the runs that return only. -/
def Rel.returning (R : Rel σ) : Rel σ := { R with upTo := fun _ _ => True, upTo_refl := fun _ => trivial }

/-- The run of `x` from `s` leaves a state that `R` relates to `s`. -/
def KeepsFrom (R : Rel σ) (x : EStateM ε σ α) (s : σ) : Prop :=
  match x.run s with
  | .ok _ t => R.rel s t
  | .error _ t => R.failed s t

/-- Every run of `x` leaves a state that `R` relates to the one it started from. -/
def Keeps (R : Rel σ) (x : EStateM ε σ α) : Prop := ∀ s, KeepsFrom R x s

namespace KeepsFrom

variable {R : Rel σ} {s : σ}

theorem pure (a : α) : KeepsFrom R (Pure.pure a : EStateM ε σ α) s := R.refl s

theorem throw (e : ε) : KeepsFrom R (MonadExcept.throw e : EStateM ε σ α) s :=
  R.toFailed (R.refl s)

theorem set {t : σ} (h : R.rel s t) :
    KeepsFrom R (MonadStateOf.set t : EStateM ε σ PUnit) s := h

theorem modify {f : σ → σ} (h : R.rel s (f s)) :
    KeepsFrom R (modifyThe σ f : EStateM ε σ PUnit) s := h

theorem get_bind {f : σ → EStateM ε σ β} (hf : KeepsFrom R (f s) s) :
    KeepsFrom R (MonadState.get >>= f) s := hf

theorem bind {x : EStateM ε σ α} {f : α → EStateM ε σ β} (hx : KeepsFrom R x s)
    (hf : ∀ a t, x.run s = .ok a t → KeepsFrom R (f a) t) : KeepsFrom R (x >>= f) s := by
  rw [KeepsFrom] at hx ⊢
  rw [EStateM.run_bind]
  cases hr : x.run s with
  | error e t =>
    rw [hr] at hx
    exact hx
  | ok a t =>
    rw [hr] at hx
    have ht := hf a t hr
    rw [KeepsFrom] at ht
    dsimp only
    cases hu : (f a).run t with
    | ok b u =>
      rw [hu] at ht
      exact R.trans hx ht
    | error e u =>
      rw [hu] at ht
      obtain ⟨u', hu', heq⟩ := ht
      exact ⟨u', R.trans hx hu', heq⟩

/-- What is asked of the runs that return only. -/
theorem of_ok {x : EStateM ε σ α} (hR : ∀ t, R.upTo s t)
    (h : ∀ a t, x.run s = .ok a t → R.rel s t) :
    KeepsFrom R x s := by
  rw [KeepsFrom]
  cases hr : x.run s with
  | ok a t => exact h a t hr
  | error e t => exact ⟨s, R.refl s, hR t⟩

/-- The state that a run ends in, when the runs that fail are asked too. -/
theorem final {x : EStateM ε σ α} (hx : KeepsFrom R x s)
    (h : ∀ {s t}, R.upTo s t → s = t) :
    R.rel s (final (x.run s)) := by
  rw [KeepsFrom] at hx
  cases hr : x.run s with
  | ok a t =>
    rw [hr] at hx
    exact hx
  | error e t =>
    rw [hr] at hx
    obtain ⟨t', ht, heq⟩ := hx
    exact h heq ▸ ht

theorem mono {S : Rel σ} {x : EStateM ε σ α} (hx : KeepsFrom R x s)
    (h : ∀ t, R.rel s t → S.rel s t) (hf : ∀ {s t}, R.upTo s t → S.upTo s t) : KeepsFrom S x s := by
  rw [KeepsFrom] at hx ⊢
  cases hr : x.run s with
  | ok a t =>
    rw [hr] at hx
    exact h t hx
  | error e t =>
    rw [hr] at hx
    obtain ⟨t', ht, heq⟩ := hx
    exact ⟨t', h t' ht, hf heq⟩

theorem ite {p : Prop} [Decidable p] {x y : EStateM ε σ α} (hx : p → KeepsFrom R x s)
    (hy : ¬ p → KeepsFrom R y s) : KeepsFrom R (if p then x else y) s := by
  by_cases h : p
  · rw [if_pos h]
    exact hx h
  · rw [if_neg h]
    exact hy h

end KeepsFrom

namespace Keeps

variable {R S : Rel σ}

theorem pure (a : α) : Keeps R (Pure.pure a : EStateM ε σ α) := fun _ => KeepsFrom.pure a

theorem throw (e : ε) : Keeps R (MonadExcept.throw e : EStateM ε σ α) := fun _ => KeepsFrom.throw e

theorem get : Keeps R (MonadState.get : EStateM ε σ σ) := fun s => R.refl s

theorem modify {f : σ → σ} (h : ∀ s, R.rel s (f s)) :
    Keeps R (modifyThe σ f : EStateM ε σ PUnit) := h

theorem bind {x : EStateM ε σ α} {f : α → EStateM ε σ β} (hx : Keeps R x)
    (hf : ∀ a, Keeps R (f a)) : Keeps R (x >>= f) :=
  fun s => KeepsFrom.bind (hx s) (fun a t _ => hf a t)

/-- A computation that first reads the state, with what is known of the state it reads. -/
theorem get_bind {f : σ → EStateM ε σ β} (hf : ∀ s, KeepsFrom R (f s) s) :
    Keeps R (MonadState.get >>= f) := hf

theorem ite {p : Prop} [Decidable p] {x y : EStateM ε σ α} (hx : p → Keeps R x)
    (hy : ¬ p → Keeps R y) : Keeps R (if p then x else y) :=
  fun s => KeepsFrom.ite (fun h => hx h s) (fun h => hy h s)

theorem onlyIf {c : Prop} [Decidable c] {x : EStateM ε σ Unit} (hx : Keeps R x) :
    Keeps R (onlyIf c x) := Keeps.ite (fun _ => hx) (fun _ => Keeps.pure _)

theorem repeatStep {e : ε} {step : α → EStateM ε σ (α × Bool)} (hs : ∀ a, Keeps R (step a)) :
    ∀ (n : ℕ) (a : α), Keeps R (repeatStep e step n a) := by
  intro n
  induction n with
  | zero => exact fun _ => throw e
  | succ n ih => exact fun a => bind (hs a) fun b => ite (fun _ => ih b.1) fun _ => pure b.1

theorem mono (h : ∀ s t, R.rel s t → S.rel s t) {x : EStateM ε σ α} (hx : Keeps R x)
    (hf : ∀ {s t}, R.upTo s t → S.upTo s t) : Keeps S x := fun s => (hx s).mono (h s) hf

theorem returning {x : EStateM ε σ α} (hx : Keeps R x) : Keeps R.returning x := by
  intro s
  have hs := hx s
  rw [KeepsFrom] at hs ⊢
  cases hr : x.run s with
  | ok a t =>
    rw [hr] at hs
    exact hs
  | error e t => exact ⟨s, R.refl s, trivial⟩

/-- The state that a successful run ends in. -/
theorem ok {x : EStateM ε σ α} (hx : Keeps R x) {s t : σ} {a : α} (h : x.run s = .ok a t) :
    R.rel s t := by
  have hs := hx s
  rw [KeepsFrom, h] at hs
  exact hs

end Keeps

/-- What `x` returns and the state it leaves then satisfy `P`. -/
def Returns (P : α → σ → Prop) (x : EStateM ε σ α) : Prop := ∀ s a t, x.run s = .ok a t → P a t

namespace Returns

variable {P : β → σ → Prop} {Q : α → σ → Prop}

theorem throw (e : ε) : Returns P (MonadExcept.throw e : EStateM ε σ β) := by
  intro s a t h
  cases h

theorem modify {Q : PUnit → σ → Prop} {f : σ → σ} (h : ∀ s, Q ⟨⟩ (f s)) :
    Returns Q (modifyThe σ f : EStateM ε σ PUnit) := by
  rintro s a t ⟨⟩
  exact h s

theorem bind {x : EStateM ε σ α} {f : α → EStateM ε σ β} (hx : Returns Q x)
    (hf : ∀ a s, Q a s → ∀ b t, (f a).run s = .ok b t → P b t) : Returns P (x >>= f) := by
  intro s b t h
  rw [EStateM.run_bind] at h
  cases hr : x.run s with
  | ok a s' =>
    rw [hr] at h
    exact hf a s' (hx s a s' hr) b t h
  | error e s' =>
    rw [hr] at h
    cases h

/-- What comes last decides. -/
theorem last {x : EStateM ε σ α} {f : α → EStateM ε σ β} (hf : ∀ a, Returns P (f a)) :
    Returns P (x >>= f) :=
  bind (Q := fun _ _ => True) (fun _ _ _ _ => trivial) fun a s _ b t h => hf a s b t h

end Returns
end Frame
