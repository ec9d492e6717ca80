import Mathlib.Algebra.Ring.Int.Defs
import Mathlib.Algebra.Ring.Nat
import Mathlib.Tactic.Lemma

/-! Rounding a machine word up to a multiple of a power of two, by adding and masking. -/
namespace Alignment

variable {w : ℕ}

/-- The multiple of `2^k` at or after `x`, as long as the sum does not wrap. -/
def roundUp (k : ℕ) (x : BitVec w) : BitVec w := (x + (1#w <<< k) - 1#w) &&& (BitVec.allOnes w <<< k)

lemma and_allOnes_shiftLeft (k : ℕ) (x : BitVec w) :
    x &&& (BitVec.allOnes w <<< k) = (x >>> k) <<< k := by
  apply BitVec.eq_of_getLsbD_eq
  intro i hi
  rw [BitVec.getLsbD_and, BitVec.getLsbD_shiftLeft, BitVec.getLsbD_shiftLeft]
  by_cases h : i < k
  · simp [h]
  · have hk : k + (i - k) = i := by omega
    have hw : i - k < w := by omega
    simp [h, hi, hw, hk]

/-- The mask clears the low bits. -/
lemma toNat_and_allOnes_shiftLeft (k : ℕ) (x : BitVec w) :
    (x &&& (BitVec.allOnes w <<< k)).toNat = x.toNat / 2^k * 2^k := by
  have hle : x.toNat / 2^k * 2^k ≤ x.toNat := Nat.div_mul_le_self _ _
  have hx := x.isLt
  rw [and_allOnes_shiftLeft, BitVec.toNat_shiftLeft, BitVec.toNat_ushiftRight,
    Nat.shiftLeft_eq, Nat.shiftRight_eq_div_pow]
  exact Nat.mod_eq_of_lt (by omega)

lemma toNat_one_shiftLeft {k : ℕ} (hk : k < w) : (1#w <<< k).toNat = 2^k := by
  have hpow : 2^k < 2^w := Nat.pow_lt_pow_right (by omega) hk
  have hone : (1#w).toNat = 1 := by
    rw [BitVec.toNat_ofNat]
    exact Nat.mod_eq_of_lt (Nat.one_lt_two_pow (by omega))
  rw [BitVec.toNat_shiftLeft, hone, Nat.shiftLeft_eq, Nat.one_mul]
  exact Nat.mod_eq_of_lt hpow

lemma toNat_roundUp {k : ℕ} (hk : k < w) (x : BitVec w) :
    (roundUp k x).toNat = (x.toNat + (2^k - 1)) % 2^w / 2^k * 2^k := by
  have hpow : 0 < 2^k := Nat.two_pow_pos k
  have hone : (1#w).toNat = 1 := by
    rw [BitVec.toNat_ofNat]
    exact Nat.mod_eq_of_lt (Nat.one_lt_two_pow (by omega))
  have hsum : (x + (1#w <<< k) - 1#w).toNat = (x.toNat + (2^k - 1)) % 2^w := by
    have hw : 2^k < 2^w := Nat.pow_lt_pow_right (by omega) hk
    have hx := x.isLt
    rw [BitVec.toNat_sub, BitVec.toNat_add, toNat_one_shiftLeft hk, hone, Nat.add_mod_mod,
      show 2^w - 1 + (x.toNat + 2^k) = x.toNat + (2^k - 1) + 2^w by omega, Nat.add_mod_right]
  rw [roundUp, toNat_and_allOnes_shiftLeft, hsum]

theorem pow_dvd_roundUp {k : ℕ} (hk : k < w) (x : BitVec w) : 2^k ∣ (roundUp k x).toNat := by
  rw [toNat_roundUp hk]
  exact Nat.dvd_mul_left _ _

/-- Rounding up without a wrap is the least multiple at or after the word. -/
theorem roundUp_least {k : ℕ} (hk : k < w) {x : BitVec w} (hx : x.toNat + (2^k - 1) < 2^w) :
    x.toNat ≤ (roundUp k x).toNat ∧ ∀ n, x.toNat ≤ n → 2^k ∣ n → (roundUp k x).toNat ≤ n := by
  have hpow : 0 < 2^k := Nat.two_pow_pos k
  rw [toNat_roundUp hk, Nat.mod_eq_of_lt hx]
  have hdiv := Nat.div_add_mod' (x.toNat + (2^k - 1)) (2^k)
  have hmod := Nat.mod_lt (x.toNat + (2^k - 1)) hpow
  refine ⟨by omega, ?_⟩
  rintro n hn ⟨m, rfl⟩
  rw [Nat.mul_comm (2^k) m] at hn ⊢
  refine Nat.mul_le_mul_right _ (Nat.le_of_lt_succ ?_)
  rw [Nat.div_lt_iff_lt_mul hpow, Nat.succ_mul]
  omega

/-- A multiple is its own rounding. -/
theorem roundUp_of_dvd {k : ℕ} (hk : k < w) {x : BitVec w} (hx : 2^k ∣ x.toNat) :
    roundUp k x = x := by
  apply BitVec.eq_of_toNat_eq
  have hpow : 0 < 2^k := Nat.two_pow_pos k
  obtain ⟨m, hm⟩ := hx
  have hlt := x.isLt
  have hsplit : 2^w = 2^k * 2^(w-k) := by
    rw [← Nat.pow_add, Nat.add_sub_cancel' (Nat.le_of_lt hk)]
  have hm' : m + 1 ≤ 2^(w-k) := by
    refine Nat.lt_of_mul_lt_mul_left (a := 2^k) ?_
    omega
  have hle : 2^k * (m + 1) ≤ 2^k * 2^(w-k) := Nat.mul_le_mul_left _ hm'
  rw [Nat.mul_succ] at hle
  rw [toNat_roundUp hk, Nat.mod_eq_of_lt (by omega), hm, Nat.mul_add_div hpow,
    Nat.div_eq_of_lt (by omega), Nat.add_zero, Nat.mul_comm]

theorem roundUp_eq_self_iff {k : ℕ} (hk : k < w) (x : BitVec w) :
    roundUp k x = x ↔ 2^k ∣ x.toNat :=
  ⟨fun h => h ▸ pow_dvd_roundUp hk x, roundUp_of_dvd hk⟩

/-- Rounding up keeps every power of two that divides the word. -/
theorem pow_dvd_roundUp_of_dvd {j k : ℕ} (hk : k < w) {x : BitVec w} (hx : 2^j ∣ x.toNat) :
    2^j ∣ (roundUp k x).toNat := by
  by_cases hjk : j ≤ k
  · exact Nat.dvd_trans (Nat.pow_dvd_pow 2 hjk) (pow_dvd_roundUp hk x)
  · rw [roundUp_of_dvd hk (Nat.dvd_trans (Nat.pow_dvd_pow 2 (by omega)) hx)]
    exact hx

/-- Rounding up to several powers, one after the other. -/
theorem foldl_roundUp_eq_self_iff {ks : List ℕ} (hks : ∀ k ∈ ks, k < w) (x : BitVec w) :
    ks.foldl (fun y k => roundUp k y) x = x ↔ ∀ k ∈ ks, 2^k ∣ x.toNat := by
  have hkeep (ks : List ℕ) (hks : ∀ k ∈ ks, k < w) {j : ℕ} :
      ∀ y : BitVec w, 2^j ∣ y.toNat → 2^j ∣ (ks.foldl (fun y k => roundUp k y) y).toNat := by
    induction ks with
    | nil => exact fun y h => h
    | cons k ks ih =>
      intro y h
      exact ih (fun l hl => hks l (List.mem_cons_of_mem _ hl)) _
        (pow_dvd_roundUp_of_dvd (hks k List.mem_cons_self) h)
  induction ks with
  | nil => simp
  | cons k ks ih =>
    have hk := hks k List.mem_cons_self
    have hrest : ∀ l ∈ ks, l < w := fun l hl => hks l (List.mem_cons_of_mem _ hl)
    rw [List.foldl_cons, List.forall_mem_cons]
    by_cases hx : 2^k ∣ x.toNat
    · rw [roundUp_of_dvd hk hx]
      exact ⟨fun h => ⟨hx, (ih hrest).mp h⟩, fun h => (ih hrest).mpr h.2⟩
    · refine ⟨fun h => absurd ?_ hx, fun h => absurd h.1 hx⟩
      have hdvd := hkeep ks hrest _ (pow_dvd_roundUp hk x)
      rwa [h] at hdvd

end Alignment
