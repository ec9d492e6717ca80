import Mathlib.Data.Nat.Notation
import Spimulator.Library.Frame

/-! A bounded loop whose body may leave it, with a poll at the head of some iterations. Polls that
do nothing in the states they meet can be added or left out. -/
namespace PolledLoop
open Frame

variable {ε σ ν φ : Type} [DecidableEq φ] (go : φ) (poll : EStateM ε σ Unit)
  (body : ν → EStateM ε σ (φ × ν))

/-- What follows an iteration: any flow but `go` leaves the loop. -/
def resume (next : ν → EStateM ε σ (φ × ν)) (r : φ × ν) : EStateM ε σ (φ × ν) :=
  if r.1 = go then next r.2 else pure r

/-- `n` iterations from the one with index `i` on. -/
def loop (polls : ℕ → Bool) (s : ν) (i : ℕ) : ℕ → EStateM ε σ (φ × ν)
  | 0 => pure (go, s)
  | n+1 => do
    onlyIf (polls i) poll
    body s >>= resume go (fun s => loop polls s (i+1) n)

theorem loop_add (polls : ℕ → Bool) (s : ν) (i m n : ℕ) :
    loop go poll body polls s i (m+n) =
      loop go poll body polls s i m >>= resume go (fun s => loop go poll body polls s (i+m) n) := by
  induction m generalizing s i with
  | zero => simp only [loop, resume, pure_bind, if_true, Nat.zero_add, Nat.add_zero]
  | succ m ih =>
    rw [show m+1+n = m+n+1 by omega, loop, loop, bind_assoc]
    refine bind_congr fun _ => ?_
    rw [bind_assoc]
    refine bind_congr fun r => ?_
    by_cases hf : r.1 = go
    · simp only [resume, if_pos hf]
      rw [ih, show i+1+m = i+(m+1) by omega]
    · simp only [resume, if_neg hf, pure_bind]

/-- The states that the loop meets at the head of its iteration `j`. -/
def Meets (polls : ℕ → Bool) (s : ν) (i j : ℕ) (m t : σ) : Prop :=
  ∃ s', (loop go poll body polls s i j).run m = .ok (go, s') t

variable {go poll body}

lemma Meets.succ {polls : ℕ → Bool} {s s' : ν} {i j : ℕ} {m m' m'' t : σ}
    (hp : (onlyIf (polls i) poll).run m = .ok () m') (hb : (body s).run m' = .ok (go, s') m'')
    (h : Meets go poll body polls s' (i+1) j m'' t) : Meets go poll body polls s i (j+1) m t := by
  obtain ⟨s'', h⟩ := h
  refine ⟨s'', ?_⟩
  rw [loop, EStateM.run_bind, hp]
  simp only [EStateM.run_bind, hb, resume, if_true]
  exact h

/-- Two choices of polls agree on a run when, wherever just one of them polls, the poll does
nothing in the state that the loop meets there. -/
theorem loop_congr {p q : ℕ → Bool} {s : ν} {i i' n : ℕ} {m : σ}
    (h : ∀ j < n, p (i+j) ≠ q (i'+j) → ∀ t, Meets go poll body p s i j m t →
      poll.run t = .ok () t) :
    (loop go poll body p s i n).run m = (loop go poll body q s i' n).run m := by
  induction n generalizing s i i' m with
  | zero => rfl
  | succ n ih =>
    have hpoll : (onlyIf (p i) poll).run m = (onlyIf (q i') poll).run m := by
      by_cases hpq : p i = q i'
      · rw [hpq]
      · have hm := h 0 (Nat.succ_pos n) hpq m ⟨s, rfl⟩
        cases hp : p i with
        | true =>
          have hq : q i' = false := by rw [hp] at hpq; simpa using hpq
          rw [hq, onlyIf_pos rfl, hm, onlyIf_neg (by decide)]
          rfl
        | false =>
          have hq : q i' = true := by rw [hp] at hpq; simpa using hpq
          rw [hq, onlyIf_pos rfl, hm, onlyIf_neg (by decide)]
          rfl
    simp only [loop, EStateM.run_bind, ← hpoll]
    cases hp : (onlyIf (p i) poll).run m with
    | error e m' => rfl
    | ok u m' =>
      dsimp only
      cases hb : (body s).run m' with
      | error e m'' => rfl
      | ok r m'' =>
        obtain ⟨f, s'⟩ := r
        dsimp only
        by_cases hf : f = go
        · subst hf
          simp only [resume, if_true]
          refine ih fun j hj hne t ht => ?_
          rw [show i+1+j = i+(j+1) by omega, show i'+1+j = i'+(j+1) by omega] at hne
          exact h (j+1) (by omega) hne t (ht.succ hp hb)
        · simp only [resume, if_neg hf]

end PolledLoop
