import Mathlib.Data.Nat.Notation
import Spimulator.Library.Frame

/-! Runs of a list of commands, each a computation over the state, with a condition that holds of
every command in the state before it. -/
namespace Frame

variable {ε σ ι : Type}

/-- The commands return one after the other, and each meets the condition where it starts. -/
inductive CommandRun (step : ι → EStateM ε σ Unit) (cond : σ → ι → Prop) : σ → List ι → σ → Prop
  | nil (s : σ) : CommandRun step cond s [] s
  | cons {s t u : σ} {i : ι} {is : List ι} (meets : cond s i)
      (returns : (step i).run s = .ok () t) (rest : CommandRun step cond t is u) : CommandRun step cond s (i :: is) u

namespace CommandRun

variable {step : ι → EStateM ε σ Unit} {cond : σ → ι → Prop} {s t : σ} {is : List ι}

/-- What every command keeps when it meets the condition, the run keeps. -/
theorem invariant {P : σ → Prop} (h : CommandRun step cond s is t)
    (hstep : ∀ s i t, P s → cond s i → (step i).run s = .ok () t → P t) (hs : P s) : P t := by
  induction h with
  | nil s => exact hs
  | cons hc hr _ ih => exact ih (hstep _ _ _ hs hc hr)

/-- A run stops at every command on its way. -/
theorem split {is₁ is₂ : List ι} (h : CommandRun step cond s (is₁ ++ is₂) t) :
    ∃ u, CommandRun step cond s is₁ u ∧ CommandRun step cond u is₂ t := by
  induction is₁ generalizing s with
  | nil => exact ⟨s, .nil s, h⟩
  | cons i is₁ ih =>
    cases h with
    | cons hc hr h =>
      obtain ⟨u, hu, ht⟩ := ih h
      exact ⟨u, .cons hc hr hu, ht⟩

theorem mono {cond' : σ → ι → Prop} (h : CommandRun step cond s is t)
    (hc : ∀ s i, cond s i → cond' s i) : CommandRun step cond' s is t := by
  induction h with
  | nil s => exact .nil s
  | cons hm hr _ ih => exact .cons (hc _ _ hm) hr ih

/-- The state in which the run ends, when all commands return and meet the condition. -/
def eval (step : ι → EStateM ε σ Unit) (cond : σ → ι → Prop) [∀ s i, Decidable (cond s i)] :
    List ι → σ → Option σ
  | [], s => some s
  | i :: is, s =>
    if cond s i then
      match (step i).run s with
      | .ok _ t => eval step cond is t
      | .error _ _ => none
    else none

variable [∀ s i, Decidable (cond s i)]

theorem of_eval (h : eval step cond is s = some t) : CommandRun step cond s is t := by
  induction is generalizing s with
  | nil =>
    cases h
    exact .nil _
  | cons i is ih =>
    simp only [eval] at h
    split at h
    next hc =>
      cases hr : (step i).run s with
      | ok a u =>
        rw [hr] at h
        exact .cons hc hr (ih h)
      | error e u =>
        rw [hr] at h
        cases h
    next => cases h

/-- A run that is evaluated, with a test of the state in which it ends. -/
theorem exists_of_eval {p : σ → Bool} (h : (eval step cond is s).any p = true) :
    ∃ t, CommandRun step cond s is t ∧ p t = true := by
  cases ht : eval step cond is s with
  | none =>
    rw [ht] at h
    cases h
  | some t =>
    rw [ht] at h
    exact ⟨t, of_eval ht, h⟩

end CommandRun

/-- The computation returns, and the state that it leaves passes a test. -/
def returnsTo (x : EStateM ε σ Unit) (s : σ) (p : σ → Bool) : Bool :=
  match x.run s with
  | .ok _ t => p t
  | .error _ _ => false

theorem of_returnsTo {x : EStateM ε σ Unit} {s : σ} {p : σ → Bool} (h : returnsTo x s p = true) :
    ∃ t, x.run s = .ok () t ∧ p t = true := by
  rw [returnsTo] at h
  cases hr : x.run s with
  | ok a t =>
    rw [hr] at h
    exact ⟨t, rfl, h⟩
  | error e t =>
    rw [hr] at h
    cases h

end Frame
