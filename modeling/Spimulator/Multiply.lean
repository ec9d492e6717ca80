import Spimulator.Library.WordPair
import Spimulator.Run

/-! Multiplication: the product by halves, its signed form, and what the instructions leave in
HI and LO. -/
namespace Spimulator
open WordPair

/-! The product of two words by halves. -/

lemma toNat_low_half (v : Word) : (v &&& 0xffff).toNat = v.toNat % 65536 := by
  rw [BitVec.toNat_and]
  exact Nat.and_two_pow_sub_one_eq_mod _ 16

lemma toNat_high_half (v : Word) : ((v >>> 16) &&& 0xffff).toNat = v.toNat / 65536 := by
  have hv := v.isLt
  rw [toNat_low_half, BitVec.toNat_ushiftRight, Nat.shiftRight_eq_div_pow]
  omega

lemma toNat_shift_half {v : Word} (hv : v.toNat < 65536) : (v <<< 16).toNat = v.toNat * 65536 := by
  rw [BitVec.toNat_shiftLeft, Nat.shiftLeft_eq, Nat.mod_eq_of_lt (by omega)]

/-- Two halves side by side. -/
lemma toNat_join_halves (l h : Word) :
    ((l &&& 0xffff) ||| ((h &&& 0xffff) <<< 16)).toNat =
      l.toNat % 65536 + (h.toNat % 65536) * 65536 := by
  have hl : l.toNat % 65536 < 2^16 := Nat.mod_lt _ (by norm_num)
  have hh : h.toNat % 65536 < 65536 := Nat.mod_lt _ (by norm_num)
  change ((l &&& 0xffff : Word) ||| ((h &&& 0xffff : Word) <<< 16)).toNat = _
  rw [BitVec.toNat_or, toNat_shift_half ((toNat_low_half h).trans_lt hh), toNat_low_half,
    toNat_low_half, Nat.or_comm]
  calc (h.toNat % 65536) * 65536 ||| l.toNat % 65536
      = (h.toNat % 65536) <<< 16 ||| l.toNat % 65536 := by rw [Nat.shiftLeft_eq]
    _ = (h.toNat % 65536) <<< 16 + l.toNat % 65536 := (Nat.shiftLeft_add_eq_or_of_lt hl _).symm
    _ = l.toNat % 65536 + (h.toNat % 65536) * 65536 := by rw [Nat.shiftLeft_eq, Nat.add_comm]

/-- The product of two halves is a word. -/
lemma toNat_mul_halves {x y : Word} (hx : x.toNat < 65536) (hy : y.toNat < 65536) :
    (x * y).toNat = x.toNat * y.toNat := by
  rw [BitVec.toNat_mul, Nat.mod_eq_of_lt]
  calc x.toNat * y.toNat ≤ 65535 * 65535 := Nat.mul_le_mul (by omega) (by omega)
    _ < 2^32 := by norm_num

/-- The carry of a sum, found by comparing with either summand. -/
lemma toNat_add_carry (x y : Word) :
    (x + y).toNat + (if x + y < x ∨ x + y < y then 4294967296 else 0) = x.toNat + y.toNat := by
  rw [if_congr (or_iff_left_of_imp (add_lt_comm x y).mp) rfl rfl]
  exact add_toNat_carry x y

/-- The high word: the product of the high halves, the carries and the high half of the middle. -/
lemma toNat_high_sum (ac k mid : Word) (hk : k.toNat < 65536) :
    (ac + (k <<< 16) + ((mid >>> 16) &&& 0xffff)).toNat =
      (ac.toNat + k.toNat * 65536 + mid.toNat / 65536) % 4294967296 := by
  rw [BitVec.toNat_add, BitVec.toNat_add, toNat_shift_half hk, toNat_high_half]
  omega

lemma toNat_mul_eq (v1 v2 : Word) :
    v1.toNat * v2.toNat = v1.toNat / 65536 * (v2.toNat / 65536) * 4294967296 +
      (v1.toNat / 65536 * (v2.toNat % 65536) + v2.toNat / 65536 * (v1.toNat % 65536)) * 65536 +
      v1.toNat % 65536 * (v2.toNat % 65536) := by
  conv_lhs => rw [← Nat.div_add_mod v1.toNat 65536, ← Nat.div_add_mod v2.toNat 65536]
  ring

/-- unsigned_multiply leaves the exact product. -/
lemma unsignedMultiply_toNat (v1 v2 : Word) :
    ((unsignedMultiply v1 v2).1 ++ (unsignedMultiply v1 v2).2).toNat = v1.toNat * v2.toNat := by
  have hv1 := v1.isLt
  have hv2 := v2.isLt
  have hprod : v1.toNat * v2.toNat < 4294967296 * 4294967296 := Nat.mul_lt_mul'' hv1 hv2
  have ha := toNat_high_half v1
  have hb := toNat_low_half v1
  have hc := toNat_high_half v2
  have hd := toNat_low_half v2
  have hbd := toNat_mul_halves (x := v1 &&& 0xffff) (y := v2 &&& 0xffff) (by omega) (by omega)
  have had := toNat_mul_halves (x := (v1 >>> 16) &&& 0xffff) (y := v2 &&& 0xffff)
    (by omega) (by omega)
  have hcb := toNat_mul_halves (x := (v2 >>> 16) &&& 0xffff) (y := v1 &&& 0xffff)
    (by omega) (by omega)
  have hac := toNat_mul_halves (x := (v1 >>> 16) &&& 0xffff) (y := (v2 >>> 16) &&& 0xffff)
    (by omega) (by omega)
  have hmul := toNat_mul_eq v1 v2
  rw [← ha, ← hb, ← hc, ← hd, ← hbd, ← had, ← hcb, ← hac] at hmul
  rw [toNat_append]
  simp only [unsignedMultiply]
  generalize (v1 &&& 0xffff) * (v2 &&& 0xffff) = bd at *
  generalize ((v1 >>> 16) &&& 0xffff) * (v2 &&& 0xffff) = ad at *
  generalize ((v2 >>> 16) &&& 0xffff) * (v1 &&& 0xffff) = cb at *
  generalize ((v1 >>> 16) &&& 0xffff) * ((v2 >>> 16) &&& 0xffff) = ac at *
  have hmid := toNat_add_carry ad cb
  have hmid2 := toNat_add_carry (ad + cb) ((bd >>> 16) &&& 0xffff)
  rw [toNat_high_half] at hmid2
  rw [toNat_join_halves]
  generalize ad + cb = mid at *
  generalize mid + ((bd >>> 16) &&& 0xffff) = mid2 at *
  have hzero : (0 : Word).toNat = 0 := rfl
  have hone : (1 : Word).toNat = 1 := rfl
  have htwo : (1 + 1 : Word).toNat = 2 := rfl
  by_cases h : mid < ad ∨ mid < cb
  · rw [if_pos h] at hmid ⊢
    by_cases h2 : mid2 < mid ∨ mid2 < ((bd >>> 16) &&& 0xffff)
    · rw [if_pos h2] at hmid2 ⊢
      rw [toNat_high_sum _ _ _ (by decide), htwo]
      omega
    · rw [if_neg h2] at hmid2 ⊢
      rw [toNat_high_sum _ _ _ (by decide), hone]
      omega
  · rw [if_neg h] at hmid ⊢
    by_cases h2 : mid2 < mid ∨ mid2 < ((bd >>> 16) &&& 0xffff)
    · rw [if_pos h2] at hmid2 ⊢
      rw [toNat_high_sum _ _ _ (by decide), zero_add, hone]
      omega
    · rw [if_neg h2] at hmid2 ⊢
      rw [toNat_high_sum _ _ _ (by decide), hzero]
      omega

/-! Its signed form. -/

/-- The absolute value, INT_MIN's among them. -/
lemma toNat_magnitude (v : Word) : (if v.msb then -v else v).toNat = v.toInt.natAbs := by
  have hv := v.isLt
  rw [BitVec.toInt_eq_msb_cond]
  by_cases h : v.msb = true
  · have hle := (BitVec.msb_eq_true_iff_two_mul_ge).mp h
    rw [if_pos h, if_pos h, BitVec.toNat_neg]
    omega
  · rw [if_neg h, if_neg h]
    omega

/-- A signed product from its sign and its magnitude. -/
lemma toInt_mul_toInt (v1 v2 : Word) :
    v1.toInt * v2.toInt = if xor v1.msb v2.msb then -((v1.toInt.natAbs * v2.toInt.natAbs : ℕ) : ℤ)
      else ((v1.toInt.natAbs * v2.toInt.natAbs : ℕ) : ℤ) := by
  have habs : ∀ v : Word, v.toInt = if v.msb then -(v.toInt.natAbs : ℤ) else v.toInt.natAbs := by
    intro v
    rw [BitVec.msb_eq_toInt]
    by_cases h : v.toInt < 0
    · rw [if_pos (decide_eq_true h), Int.ofNat_natAbs_of_nonpos h.le, neg_neg]
    · rw [if_neg (mt of_decide_eq_true h), Int.natAbs_of_nonneg (not_lt.mp h)]
  rw [Nat.cast_mul]
  nth_rewrite 1 [habs v1, habs v2]
  cases v1.msb <;> cases v2.msb <;> simp

/-- signed_multiply leaves the exact product. -/
lemma signedMultiply_eq (v1 v2 : Word) :
    (signedMultiply v1 v2).1 ++ (signedMultiply v1 v2).2 =
      BitVec.ofInt 64 (v1.toInt * v2.toInt) := by
  have hmag := unsignedMultiply_toNat (if v1.msb then -v1 else v1) (if v2.msb then -v2 else v2)
  rw [toNat_magnitude, toNat_magnitude] at hmag
  rw [toInt_mul_toInt, ← hmag]
  simp only [signedMultiply]
  generalize unsignedMultiply _ _ = p
  have hp : BitVec.ofInt 64 ((p.1 ++ p.2).toNat : ℤ) = p.1 ++ p.2 := by
    rw [BitVec.ofInt_natCast, BitVec.ofNat_toNat, BitVec.setWidth_eq]
  cases xor v1.msb v2.msb with
  | false => exact hp.symm
  | true =>
    rw [if_pos rfl, if_pos rfl, BitVec.ofInt_neg, hp]
    exact (append_neg p.1 p.2).symm

lemma natAbs_toInt_le (v : Word) : v.toInt.natAbs ≤ 2^31 := by
  have hlo := v.le_toInt
  have hhi := v.toInt_lt
  omega

/-- A signed product fits in a double word. -/
lemma toInt_ofInt_mul (v1 v2 : Word) :
    (BitVec.ofInt 64 (v1.toInt * v2.toInt)).toInt = v1.toInt * v2.toInt := by
  have habs : (v1.toInt * v2.toInt).natAbs ≤ 2^31 * 2^31 := by
    rw [Int.natAbs_mul]
    exact Nat.mul_le_mul (natAbs_toInt_le v1) (natAbs_toInt_le v2)
  rw [BitVec.toInt_ofInt]
  exact Int.bmod_eq_of_le (by omega) (by omega)

lemma unsignedMultiply_eq (v1 v2 : Word) :
    (unsignedMultiply v1 v2).1 ++ (unsignedMultiply v1 v2).2 =
      BitVec.ofNat 64 (v1.toNat * v2.toNat) := by
  rw [← unsignedMultiply_toNat, BitVec.ofNat_toNat, BitVec.setWidth_eq]

/-! Accumulation. -/

lemma multiplyAdd_eq (hi lo : Word) (p : Word × Word) :
    (multiplyAdd hi lo p).1 ++ (multiplyAdd hi lo p).2 = (hi ++ lo) + (p.1 ++ p.2) := by
  rw [append_add, carry]
  simp only [multiplyAdd]
  rw [if_congr (or_iff_right_of_imp (add_lt_comm lo p.2).mp) rfl rfl]
  congr 1
  split <;> ring

lemma multiplySub_eq (hi lo : Word) (p : Word × Word) :
    (multiplySub hi lo p).1 ++ (multiplySub hi lo p).2 = (hi ++ lo) - (p.1 ++ p.2) := by
  rw [append_sub]
  simp only [multiplySub, gt_iff_lt]
  congr 1
  split <;> ring

/-! The instructions. -/

/-- The instruction changes HI and LO only, to a double word with the property. -/
def LeavesHiLo (env : Env) {ν : Type} (slot : ν → Exec ν) (s : ν) (i : Inst) (m : Machine)
    (P : BitVec 64 → Prop) : Prop :=
  ∃ hi lo : Word, P (hi ++ lo) ∧ (perform env slot s (dispatch env i m)).run m =
    .ok (.next, s) (m.setRegs { m.toRegs with hi := hi, lo := lo })

/-- As before, with the low word in rd also. -/
def LeavesProduct (env : Env) {ν : Type} (slot : ν → Exec ν) (s : ν) (i : Inst) (m : Machine)
    (P : BitVec 64 → Prop) : Prop :=
  ∃ hi lo : Word, P (hi ++ lo) ∧ (perform env slot s (dispatch env i m)).run m =
    .ok (.next, s) (m.setRegs ({ m.toRegs with hi := hi, lo := lo }.setGpr i.rd lo))

/-- Whatever its operands, a multiplication leaves the exact product, and an accumulation adds it
to or subtracts it from what HI and LO held. -/
theorem multiply_exact (env : Env) {ν : Type} (slot : ν → Exec ν) (s : ν) (i : Inst)
    (m : Machine) :
    let rs := m.gpr i.rs
    let rt := m.gpr i.rt
    LeavesHiLo env slot s { i with opcode := some .mult } m
      (fun p => p.toInt = rs.toInt * rt.toInt) ∧
    LeavesHiLo env slot s { i with opcode := some .multu } m
      (fun p => p.toNat = rs.toNat * rt.toNat) ∧
    LeavesProduct env slot s { i with opcode := some .mul } m
      (fun p => p.toInt = rs.toInt * rt.toInt) ∧
    LeavesHiLo env slot s { i with opcode := some .madd } m
      (fun p => p = (m.hi ++ m.lo) + BitVec.ofInt 64 (rs.toInt * rt.toInt)) ∧
    LeavesHiLo env slot s { i with opcode := some .maddu } m
      (fun p => p = (m.hi ++ m.lo) + BitVec.ofNat 64 (rs.toNat * rt.toNat)) ∧
    LeavesHiLo env slot s { i with opcode := some .msub } m
      (fun p => p = (m.hi ++ m.lo) - BitVec.ofInt 64 (rs.toInt * rt.toInt)) ∧
    LeavesHiLo env slot s { i with opcode := some .msubu } m
      (fun p => p = (m.hi ++ m.lo) - BitVec.ofNat 64 (rs.toNat * rt.toNat)) := by
  intro rs rt
  have hsigned := signedMultiply_eq rs rt
  have hunsigned := unsignedMultiply_eq rs rt
  have hexact : ((signedMultiply rs rt).1 ++ (signedMultiply rs rt).2).toInt =
      rs.toInt * rt.toInt := by rw [hsigned, toInt_ofInt_mul]
  refine ⟨⟨_, _, hexact, rfl⟩, ⟨_, _, unsignedMultiply_toNat rs rt, rfl⟩, ⟨_, _, hexact, rfl⟩,
    ⟨_, _, ?_, rfl⟩, ⟨_, _, ?_, rfl⟩, ⟨_, _, ?_, rfl⟩, ⟨_, _, ?_, rfl⟩⟩
  · rw [← hsigned]
    exact multiplyAdd_eq m.hi m.lo _
  · rw [← hunsigned]
    exact multiplyAdd_eq m.hi m.lo _
  · rw [← hsigned]
    exact multiplySub_eq m.hi m.lo _
  · rw [← hunsigned]
    exact multiplySub_eq m.hi m.lo _

end Spimulator
