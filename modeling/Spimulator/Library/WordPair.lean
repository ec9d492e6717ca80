import Mathlib.Data.BitVec
import Mathlib.Tactic.Lemma
import Mathlib.Tactic.Linarith
import Mathlib.Tactic.Ring

/-! Pairs of words as words of twice the width: sums, differences and negations from those of the
halves, and the product from the products of the halves of its factors. -/
namespace WordPair

variable {n : ℕ}

theorem toNat_append (hi lo : BitVec n) : (hi ++ lo).toNat = hi.toNat * 2^n + lo.toNat := by
  rw [BitVec.toNat_append, ← Nat.shiftLeft_add_eq_or_of_lt lo.isLt, Nat.shiftLeft_eq]

/-- A pair of residues is the residue of the pair. -/
theorem ofNat_append_ofNat (h l : ℕ) :
    BitVec.ofNat n h ++ BitVec.ofNat n l = BitVec.ofNat (n + n) (h * 2^n + l % 2^n) := by
  apply BitVec.eq_of_toNat_eq
  rw [toNat_append, BitVec.toNat_ofNat, BitVec.toNat_ofNat, BitVec.toNat_ofNat, Nat.pow_add,
    Nat.mod_mul, Nat.mul_comm (2^n)]
  have hpos : 0 < 2^n := Nat.two_pow_pos n
  have hlt : l % 2^n < 2^n := Nat.mod_lt _ hpos
  rw [Nat.mul_add_mod_self_right, Nat.mod_mod, Nat.mul_comm h, Nat.mul_add_div hpos,
    Nat.div_eq_of_lt hlt, Nat.add_zero, Nat.add_comm]

theorem append_eq_ofNat (hi lo : BitVec n) :
    hi ++ lo = BitVec.ofNat (n + n) (hi.toNat * 2^n + lo.toNat) := by
  rw [← toNat_append, BitVec.ofNat_toNat, BitVec.setWidth_eq]

/-- What the sum of two words carries over. -/
def carry (x y : BitVec n) : BitVec n := if x + y < x then 1 else 0

theorem add_toNat_carry (x y : BitVec n) :
    (x + y).toNat + (if x + y < x then 2^n else 0) = x.toNat + y.toNat := by
  have hx := x.isLt
  have hy := y.isLt
  simp only [BitVec.lt_def, BitVec.toNat_add]
  by_cases h : x.toNat + y.toNat < 2^n
  · rw [Nat.mod_eq_of_lt h, if_neg (by omega), Nat.add_zero]
  · have hmod : (x.toNat + y.toNat) % 2^n = x.toNat + y.toNat - 2^n := by
      rw [Nat.mod_eq_sub_mod (by omega), Nat.mod_eq_of_lt (by omega)]
    rw [hmod, if_pos (by omega)]
    omega

theorem append_add (hi lo hi' lo' : BitVec n) :
    (hi ++ lo) + (hi' ++ lo') = (hi + hi' + carry lo lo') ++ (lo + lo') := by
  have hsum := add_toNat_carry lo lo'
  rw [append_eq_ofNat hi, append_eq_ofNat hi', ← BitVec.ofNat_add]
  have hhi : hi + hi' + carry lo lo' =
      BitVec.ofNat n (hi.toNat + hi'.toNat + if lo + lo' < lo then 1 else 0) := by
    rw [BitVec.ofNat_add, BitVec.ofNat_add, BitVec.ofNat_toNat, BitVec.ofNat_toNat,
      BitVec.setWidth_eq, BitVec.setWidth_eq, carry]
    split <;> rfl
  have hlo : lo + lo' = BitVec.ofNat n (lo + lo').toNat := by
    rw [BitVec.ofNat_toNat, BitVec.setWidth_eq]
  rw [hhi, hlo, ofNat_append_ofNat, Nat.mod_eq_of_lt (lo + lo').isLt, ← hlo]
  congr 1
  by_cases h : lo + lo' < lo
  · rw [if_pos h] at hsum ⊢
    linarith
  · rw [if_neg h] at hsum ⊢
    linarith

/-- The sum of two words is below one of them exactly if it is below the other. -/
theorem add_lt_comm (x y : BitVec n) : x + y < y ↔ x + y < x := by
  have hx := add_toNat_carry x y
  have hy := add_toNat_carry y x
  rw [BitVec.add_comm y x] at hy
  have hpos := Nat.two_pow_pos n
  by_cases h : x + y < x
  · rw [if_pos h] at hx
    refine iff_of_true (by_contra fun h' => ?_) h
    rw [if_neg h'] at hy
    omega
  · rw [if_neg h] at hx
    refine iff_of_false (fun h' => ?_) h
    rw [if_pos h'] at hy
    omega

theorem append_sub (hi lo hi' lo' : BitVec n) :
    (hi ++ lo) - (hi' ++ lo') = (hi - hi' - if lo < lo' then 1 else 0) ++ (lo - lo') := by
  have hcarry : carry (lo - lo') lo' = if lo < lo' then 1 else 0 := by
    have hlt := add_lt_comm (lo - lo') lo'
    rw [BitVec.sub_add_cancel] at hlt
    rw [carry, BitVec.sub_add_cancel]
    exact if_congr hlt.symm rfl rfl
  rw [BitVec.sub_eq_iff_eq_add, append_add, BitVec.sub_add_cancel, hcarry]
  congr 1
  ring

/-- Negation as complement and increment, of the low word and then of the high one. -/
theorem append_neg (hi lo : BitVec n) :
    -(hi ++ lo) = (if ~~~lo + 1 = 0 then ~~~hi + 1 else ~~~hi) ++ (~~~lo + 1) := by
  cases n with
  | zero => exact BitVec.eq_of_toNat_eq (by have := (-(hi ++ lo)).isLt; omega)
  | succ n =>
    have hone : 1#(n + 1 + (n + 1)) = 0#(n + 1) ++ 1#(n + 1) := by
      apply BitVec.eq_of_toNat_eq
      rw [toNat_append, BitVec.toNat_ofNat, Nat.mod_eq_of_lt (Nat.one_lt_two_pow (by omega)),
        BitVec.toNat_ofNat, BitVec.toNat_ofNat, Nat.mod_eq_of_lt (Nat.one_lt_two_pow (by omega))]
      simp
    have hcarry : carry (~~~lo) 1#(n + 1) = if ~~~lo + 1 = 0 then 1 else 0 := by
      refine if_congr ?_ rfl rfl
      exact (add_lt_comm _ _).symm.trans (BitVec.lt_one_iff (Nat.succ_pos n))
    rw [BitVec.neg_eq_not_add, BitVec.not_append, hone, append_add, hcarry, BitVec.add_zero]
    congr 1
    split
    · rfl
    · exact BitVec.add_zero _

end WordPair
