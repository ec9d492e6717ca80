import Mathlib.Algebra.Ring.Int.Defs
import Mathlib.Algebra.Ring.Nat
import Mathlib.Tactic.Lemma

/-! Fields of a machine word: a value placed at a bit offset is read back from the same
offset, leaves every disjoint field alone, and is invisible under a mask that avoids it. -/
namespace BitField

variable {w n m : ℕ}

/-- The value of a field, moved to bit `lo` of a word of width `w`. -/
def place (w lo : ℕ) (x : BitVec n) : BitVec w := x.setWidth w <<< lo

lemma getLsbD_place (lo : ℕ) (x : BitVec n) (i : ℕ) :
    (place w lo x).getLsbD i = (decide (i < w) && decide (lo ≤ i) && x.getLsbD (i-lo)) := by
  simp only [place, BitVec.getLsbD_shiftLeft, BitVec.getLsbD_setWidth]
  by_cases hi : i < w <;> by_cases hl : lo ≤ i
  · have h : i-lo < w := by omega
    simp [hi, hl, h]
  · simp [hi, hl]
  · simp [hi]
  · simp [hi]

/-- Reading a field where it was placed. -/
@[simp] theorem extract_place (lo : ℕ) (x : BitVec n) (h : lo+n ≤ w) :
    (place w lo x).extractLsb' lo n = x := by
  apply BitVec.eq_of_getLsbD_eq
  intro i hi
  have hw : lo+i < w := by omega
  rw [BitVec.getLsbD_extractLsb', getLsbD_place, Nat.add_sub_cancel_left]
  simp only [hi, hw, Nat.le_add_right, decide_true, Bool.true_and]

/-- A field is zero wherever another one, disjoint from it, was placed. -/
theorem extract_place_disjoint (lo lo' : ℕ) (x : BitVec n) (h : lo'+m ≤ lo ∨ lo+n ≤ lo') :
    (place w lo x).extractLsb' lo' m = 0#m := by
  apply BitVec.eq_of_getLsbD_eq
  intro i hi
  rw [BitVec.getLsbD_extractLsb', getLsbD_place, BitVec.getLsbD_zero]
  rcases h with h | h
  · have hl : ¬ lo ≤ lo'+i := by omega
    simp [hl]
  · have hx : x.getLsbD (lo'+i-lo) = false := BitVec.getLsbD_of_ge _ _ (by omega)
    simp [hx]

/-- The mask of a field. -/
def mask (w lo n : ℕ) : BitVec w := place w lo (BitVec.allOnes n)

lemma getLsbD_mask (lo i : ℕ) :
    (mask w lo n).getLsbD i = (decide (i < w) && decide (lo ≤ i) && decide (i-lo < n)) := by
  rw [mask, getLsbD_place, BitVec.getLsbD_allOnes]

lemma place_and_mask (lo : ℕ) (x : BitVec n) : place w lo x &&& mask w lo n = place w lo x := by
  apply BitVec.eq_of_getLsbD_eq
  intro i hi
  rw [BitVec.getLsbD_and, getLsbD_place, getLsbD_mask]
  by_cases h : i-lo < n
  · cases decide (lo ≤ i) <;> simp [h, hi]
  · rw [BitVec.getLsbD_of_ge x _ (by omega)]
    simp

/-- A placed field is cleared by every mask that is zero on it. -/
theorem place_and (lo : ℕ) (x : BitVec n) (k : BitVec w) (h : mask w lo n &&& k = 0#w) :
    place w lo x &&& k = 0#w := by
  rw [← place_and_mask, BitVec.and_assoc, h, BitVec.and_zero]

/-- A field that a mask covers is zero in every word that the mask clears. -/
theorem extract_of_and_mask (lo : ℕ) (a k : BitVec w) (hn : lo+n ≤ w) (ha : a &&& k = 0#w)
    (hk : k &&& mask w lo n = mask w lo n) : a.extractLsb' lo n = 0#n := by
  apply BitVec.eq_of_getLsbD_eq
  intro i hi
  have hw : lo+i < w := by omega
  have hki : k.getLsbD (lo+i) = true := by
    have h := congrArg (fun v : BitVec w => v.getLsbD (lo+i)) hk
    simp only [BitVec.getLsbD_and, getLsbD_mask, hw, hi, Nat.le_add_right, Nat.add_sub_cancel_left,
      decide_true, Bool.and_true] at h
    exact h
  have hai := congrArg (fun v : BitVec w => v.getLsbD (lo+i)) ha
  simp only [BitVec.getLsbD_and, hki, Bool.and_true, BitVec.getLsbD_zero] at hai
  rw [BitVec.getLsbD_extractLsb', hai, Bool.and_false, BitVec.getLsbD_zero]

end BitField
