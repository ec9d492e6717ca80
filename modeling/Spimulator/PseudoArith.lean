import Spimulator.Division
import Spimulator.Multiply

/-! The pseudo-ops that rotate, take absolute values, and multiply with a check. -/
namespace Spimulator
open Frame CodeBlock

/-! Shifts. -/

/-- A shift to the left or to the right. -/
def shiftBy (left : Bool) (v : Word) (shamt : Byte) : Word :=
  if left then shiftLeft v shamt else shiftRight v shamt

def rotateBy (left : Bool) (v : Word) (n : ℕ) : Word := if left then v.rotateLeft n else v.rotateRight n

def shiftOp (left : Bool) : Opcode := if left then .sll else .srl
def shiftVOp (left : Bool) : Opcode := if left then .sllv else .srlv

/-- The low five bits. -/
def lowFive (v : Word) : Byte := (v &&& 0x1f).setWidth 8

lemma toNat_lowFive (v : Word) : (lowFive v).toNat = v.toNat % 32 := by
  have h : (v &&& 0x1f).toNat = v.toNat % 2^5 := by
    rw [BitVec.toNat_and]
    exact Nat.and_two_pow_sub_one_eq_mod _ 5
  rw [lowFive, BitVec.toNat_setWidth, h]
  omega

/-- The field of a constant shift. -/
lemma lowFive_eq (v : Word) : v.setWidth 8 &&& 0x1f = lowFive v := by
  apply BitVec.eq_of_toNat_eq
  have h : (v.setWidth 8 &&& (0x1f : Byte)).toNat = (v.setWidth 8).toNat % 2^5 := by
    rw [BitVec.toNat_and]
    exact Nat.and_two_pow_sub_one_eq_mod _ 5
  rw [toNat_lowFive, h, BitVec.toNat_setWidth]
  omega

lemma shiftLeft_lowFive (x d : Word) : shiftLeft x (lowFive d) = x <<< (d.toNat % 32) := by
  have h : lowFive d < 32 := by
    rw [BitVec.lt_def, toNat_lowFive]
    exact Nat.mod_lt _ (by decide)
  rw [shiftLeft, if_pos h, toNat_lowFive]

lemma shiftRight_lowFive (x d : Word) : shiftRight x (lowFive d) = x >>> (d.toNat % 32) := by
  have h : lowFive d < 32 := by
    rw [BitVec.lt_def, toNat_lowFive]
    exact Nat.mod_lt _ (by decide)
  rw [shiftRight, if_pos h, toNat_lowFive]

lemma toNat_neg_mod (d : Word) : (-d).toNat % 32 = (32 - d.toNat % 32) % 32 := by
  have hd := d.isLt
  rw [BitVec.toNat_neg]
  omega

/-- Two shifts, by a distance and by its complement, are a rotation. -/
lemma shift_or_shift (left : Bool) (x d : Word) :
    shiftBy left x (lowFive d) ||| shiftBy (!left) x (lowFive (-d)) =
      rotateBy left x (d.toNat % 32) := by
  have hmod : d.toNat % 32 % 32 = d.toNat % 32 := Nat.mod_mod _ _
  have hlt : d.toNat % 32 < 32 := Nat.mod_lt _ (by decide)
  have hzero : (32 - 0) % 32 = 0 := rfl
  have hcomp : d.toNat % 32 ≠ 0 → (32 - d.toNat % 32) % 32 = 32 - d.toNat % 32 := by omega
  cases left with
  | true =>
    simp only [shiftBy, rotateBy, if_true, Bool.not_true, Bool.false_eq_true, if_false,
      shiftLeft_lowFive, shiftRight_lowFive, toNat_neg_mod, BitVec.rotateLeft_def, hmod]
    by_cases hk : d.toNat % 32 = 0
    · rw [hk, hzero, BitVec.shiftLeft_zero, BitVec.ushiftRight_zero, BitVec.or_self,
        BitVec.ushiftRight_eq_zero (by decide)]
      exact (or_zero_word x).symm
    · rw [hcomp hk]
  | false =>
    simp only [shiftBy, rotateBy, if_true, Bool.not_false, Bool.false_eq_true, if_false,
      shiftLeft_lowFive, shiftRight_lowFive, toNat_neg_mod, BitVec.rotateRight_def, hmod]
    by_cases hk : d.toNat % 32 = 0
    · rw [hk, hzero, BitVec.shiftLeft_zero, BitVec.ushiftRight_zero, BitVec.or_self,
        BitVec.shiftLeft_eq_zero (by decide)]
      exact (or_zero_word x).symm
    · rw [hcomp hk]

/-! Instructions. -/

section

variable {env : Env} {target : Word} {m : Machine} (rd rs rt : Word) (hm : m.Ready)

include hm

lemma NodeRuns.setRd {op : Opcode} {v : Word}
    (h : dispatch env (makeRTypeInst op (rd.setWidth 8) (rs.setWidth 8) (rt.setWidth 8)) m =
      m.setRd (makeRTypeInst op (rd.setWidth 8) (rs.setWidth 8) (rt.setWidth 8)) v) :
    NodeRuns env target (.r op rd rs rt) m ((m.setGpr (rd.setWidth 8) v).goto (m.pc + 4)) :=
  .inst (fun _ => rfl) (.setRd hm h)

lemma NodeRuns.subu : NodeRuns env target (.r .subu rd rs rt) m
    ((m.setGpr (rd.setWidth 8) (m.gpr (rs.setWidth 8) - m.gpr (rt.setWidth 8))).goto (m.pc + 4)) :=
  .setRd rd rs rt hm rfl

lemma NodeRuns.addu : NodeRuns env target (.r .addu rd rs rt) m
    ((m.setGpr (rd.setWidth 8) (m.gpr (rs.setWidth 8) + m.gpr (rt.setWidth 8))).goto (m.pc + 4)) :=
  .setRd rd rs rt hm rfl

lemma NodeRuns.or : NodeRuns env target (.r .or rd rs rt) m
    ((m.setGpr (rd.setWidth 8) (m.gpr (rs.setWidth 8) ||| m.gpr (rt.setWidth 8))).goto (m.pc + 4)) :=
  .setRd rd rs rt hm rfl

lemma NodeRuns.shiftV (left : Bool) : NodeRuns env target (.r (shiftVOp left) rd rs rt) m
    ((m.setGpr (rd.setWidth 8)
      (shiftBy left (m.gpr (rt.setWidth 8)) (lowFive (m.gpr (rs.setWidth 8))))).goto (m.pc + 4)) := by
  cases left
  · exact .setRd rd rs rt hm rfl
  · exact .setRd rd rs rt hm rfl

lemma NodeRuns.shift (left : Bool) (sh : Word) :
    NodeRuns env target (.rShift (shiftOp left) rd rt sh) m
      ((m.setGpr (rd.setWidth 8) (shiftBy left (m.gpr (rt.setWidth 8)) (lowFive sh))).goto
        (m.pc + 4)) := by
  refine .inst (fun _ => rfl) ?_
  rw [← lowFive_eq]
  cases left
  · exact .setRd hm rfl
  · exact .setRd hm rfl

end

/-! Rotation. -/

/-- What a rotation by a register is expanded to. -/
def rotateVNodes (left : Bool) (rd rs rt : Word) : List InstNode :=
  [.r .subu 1 0 rt, .r (shiftVOp (!left)) 1 1 rs, .r (shiftVOp left) rd rt rs, .r .or rd rd 1]

/-- What a rotation by a constant is expanded to. -/
def rotateNodes (left : Bool) (rd rs dist : Word) : List InstNode :=
  [.rShift (shiftOp (!left)) 1 rs (-dist), .rShift (shiftOp left) rd rs dist, .r .or rd rd 1]

section

variable {env : Env} {target : Word} {m : Machine} {rd rs rt : Word} (hm : m.Ready)
  (hrd : rd.setWidth 8 ≠ (0 : Byte)) (hat : rd.setWidth 8 ≠ (1 : Byte))
  (hrs : rs.setWidth 8 ≠ (1 : Byte))

include hm hrd hat hrs

omit hrs in
/-- The second half of a rotation, with the part shifted away in $at. -/
lemma rotateEnd_run (left : Bool) {towards : InstNode} {b d p : Word}
    (hb : b = shiftBy (!left) (m.gpr (rs.setWidth 8)) (lowFive (-d)))
    (htowards : NodeRuns env target towards ((m.setGpr 1 b).goto p)
      ((((m.setGpr 1 b).goto p).setGpr (rd.setWidth 8)
        (shiftBy left (m.gpr (rs.setWidth 8)) (lowFive d))).goto (p + 4)))
    (hsize : towards.size = 1) :
    NodesRun env target [towards, .r .or rd rd 1] ((m.setGpr 1 b).goto p)
      (((m.setGpr 1 b).setGpr (rd.setWidth 8)
        (rotateBy left (m.gpr (rs.setWidth 8)) (d.toNat % 32))).goto (slot 4 p 2)) := by
  have hone : (1 : Byte) ≠ 0 := by decide
  have hready := (((hm.setGpr hone b).goto p).setGpr hrd
    (shiftBy left (m.gpr (rs.setWidth 8)) (lowFive d))).goto (p + 4)
  have hor : NodeRuns env target (.r .or rd rd 1) _ _ := .or rd rd 1 hready
  simp only [register_at, Machine.setGpr_goto, Machine.goto_goto, Machine.toRegs_goto,
    Machine.gpr_setGpr_self, Machine.gpr_setGpr_of_ne _ hat.symm, Machine.setGpr_setGpr,
    Machine.pc_goto, hb, shift_or_shift] at hor
  rw [slot_succ, slot_one, hb]
  rw [hb] at htowards
  exact .next htowards (by rw [hsize]; rfl) (.leave hor)

lemma rotateV_run (left : Bool) (hrt : rt.setWidth 8 ≠ (1 : Byte)) :
    ∃ a, NodesRun env target (rotateVNodes left rd rs rt) m
      (((m.setGpr 1 a).setGpr (rd.setWidth 8) (rotateBy left (m.gpr (rs.setWidth 8))
        ((m.gpr (rt.setWidth 8)).toNat % 32))).goto (slot 4 m.pc 4)) := by
  have hone : (1 : Byte) ≠ 0 := by decide
  have hneg : NodeRuns env target (.r .subu 1 0 rt) m
      ((m.setGpr 1 (-m.gpr (rt.setWidth 8))).goto (m.pc + 4)) := by
    have h : NodeRuns env target _ m _ := .subu 1 0 rt hm
    rw [register_at, show m.gpr ((0 : Word).setWidth 8) = 0 from hm.zero] at h
    simpa using h
  have haway : NodeRuns env target (.r (shiftVOp (!left)) 1 1 rs) _ _ :=
    .shiftV 1 1 rs ((hm.setGpr hone (-m.gpr (rt.setWidth 8))).goto (m.pc + 4)) (!left)
  simp only [register_at, Machine.setGpr_goto, Machine.goto_goto, Machine.toRegs_goto,
    Machine.gpr_setGpr_self, Machine.gpr_setGpr_of_ne _ hrs, Machine.setGpr_setGpr,
    Machine.pc_goto] at haway
  obtain ⟨b, hb⟩ : ∃ b, b = shiftBy (!left) (m.gpr (rs.setWidth 8))
    (lowFive (-m.gpr (rt.setWidth 8))) := ⟨_, rfl⟩
  rw [← hb] at haway
  have htowards : NodeRuns env target (.r (shiftVOp left) rd rt rs) _ _ :=
    .shiftV rd rt rs ((hm.setGpr hone b).goto (m.pc + 4 + 4)) left
  simp only [Machine.toRegs_goto, Machine.gpr_setGpr_of_ne _ hrs, Machine.gpr_setGpr_of_ne _ hrt,
    Machine.pc_goto] at htowards
  have hend := rotateEnd_run hm hrd hat left hb htowards rfl
  rw [slot_succ, slot_succ]
  exact ⟨b, .next hneg rfl (.next haway rfl hend)⟩

lemma rotate_run (left : Bool) (dist : Word) :
    ∃ a, NodesRun env target (rotateNodes left rd rs dist) m
      (((m.setGpr 1 a).setGpr (rd.setWidth 8) (rotateBy left (m.gpr (rs.setWidth 8))
        (dist.toNat % 32))).goto (slot 4 m.pc 3)) := by
  have hone : (1 : Byte) ≠ 0 := by decide
  have haway : NodeRuns env target (.rShift (shiftOp (!left)) 1 rs (-dist)) m _ :=
    .shift 1 rs hm (!left) (-dist)
  rw [register_at] at haway
  obtain ⟨b, hb⟩ : ∃ b, b = shiftBy (!left) (m.gpr (rs.setWidth 8)) (lowFive (-dist)) := ⟨_, rfl⟩
  rw [← hb] at haway
  have htowards : NodeRuns env target (.rShift (shiftOp left) rd rs dist) _ _ :=
    .shift rd rs ((hm.setGpr hone b).goto (m.pc + 4)) left dist
  simp only [Machine.toRegs_goto, Machine.gpr_setGpr_of_ne _ hrs, Machine.pc_goto] at htowards
  have hend := rotateEnd_run hm hrd hat left hb htowards rfl
  rw [slot_succ]
  exact ⟨b, .next haway rfl hend⟩

end

/-! Absolute values. -/

/-- What abs is expanded to. -/
def absNodes (rd rs : Word) : List InstNode :=
  (if rd ≠ rs then [.r .addu rd 0 rs] else []) ++
    [.i .bgez 0 rs (branchOffset 3), .rShift .sll 0 0 0, .r .sub rd 0 rs]

/-- The absolute value as a word. -/
def absWord (v : Word) : Word := BitVec.ofInt 32 |v.toInt|

lemma absWord_eq (v : Word) : absWord v = if v.msb then -v else v := by
  rw [absWord]
  by_cases h : v.msb = true
  · have hneg : v.toInt < 0 := by
      rw [BitVec.msb_eq_toInt, decide_eq_true_eq] at h
      exact h
    rw [if_pos h, abs_of_neg hneg, BitVec.ofInt_neg, BitVec.ofInt_toInt]
  · have hpos : 0 ≤ v.toInt := by
      rw [BitVec.msb_eq_toInt, decide_eq_true_eq] at h
      exact not_lt.mp h
    rw [if_neg h, abs_of_nonneg hpos, BitVec.ofInt_toInt]

lemma zero_ssubOverflow (v : Word) : (0 : Word).ssubOverflow v = true ↔ v = 0x80000000 := by
  have hlow := v.le_toInt
  have hhigh := v.toInt_lt
  have heq : v = 0x80000000 ↔ v.toInt = -2^31 :=
    ⟨fun h => by rw [h]; rfl, fun h => BitVec.eq_of_toInt_eq h⟩
  rw [heq]
  simp only [BitVec.ssubOverflow, Bool.or_eq_true, decide_eq_true_eq]
  change 0 - v.toInt ≥ 2^31 ∨ 0 - v.toInt < -2^31 ↔ _
  omega

section

variable {env : Env} {target : Word} {m : Machine} {rd rs : Word} (hm : m.Ready)
  (hb : env.delayedBranches = false) (hrd : rd.setWidth 8 ≠ (0 : Byte))

include hm

omit hb hrd in
/-- sub of $0, without and with an overflow -/
lemma negate_runs (hover : m.gpr (rs.setWidth 8) ≠ 0x80000000) :
    NodeRuns env target (.r .sub rd 0 rs) m
      ((m.setGpr (rd.setWidth 8) (-m.gpr (rs.setWidth 8))).goto (m.pc + 4)) := by
  have hnot : ¬ (m.gpr 0).ssubOverflow (m.gpr (rs.setWidth 8)) = true := by
    rw [hm.zero]
    exact mt (zero_ssubOverflow _).mp hover
  have h : NodeRuns env target (.r .sub rd 0 rs) m ((m.setGpr (rd.setWidth 8)
      (m.gpr 0 - m.gpr (rs.setWidth 8))).goto (m.pc + 4)) := .setRd rd 0 rs hm (if_neg hnot)
  rw [hm.zero, show 0 - m.gpr (rs.setWidth 8) = -m.gpr (rs.setWidth 8) from BitVec.zero_sub _] at h
  exact h

lemma negate_overflow (hover : m.gpr (rs.setWidth 8) = 0x80000000) :
    NodeRuns env target (.r .sub rd 0 rs) m (m.faulted .ov) := by
  refine .inst (fun _ => rfl) (.raise hm ?_)
  change (if (m.gpr 0).ssubOverflow (m.gpr (rs.setWidth 8)) then _ else _) = _
  rw [hm.zero, if_pos ((zero_ssubOverflow _).mpr hover)]

include hb

/-- The branch over the negation of a word that is not negative. -/
lemma bgezSkip_runs : NodeRuns env target (.i .bgez 0 rs (branchOffset 3)) m
    (m.goto (if (m.gpr (rs.setWidth 8)).msb = false then slot 4 m.pc 3 else m.pc + 4)) := by
  refine .inst (fun _ => rfl) ?_
  have h : InstRuns env (makeITypeInst .bgez 0 (rs.setWidth 8) 3) m _ := .branchIf hm hb rfl
  rw [branchOffset_make] at h
  exact h

/-- The part of abs after the copy. -/
lemma absTail_run (hcopy : m.gpr (rd.setWidth 8) = m.gpr (rs.setWidth 8))
    (hover : m.gpr (rs.setWidth 8) ≠ 0x80000000) : NodesRun env target
      [.i .bgez 0 rs (branchOffset 3), .rShift .sll 0 0 0, .r .sub rd 0 rs] m
      ((m.setGpr (rd.setWidth 8) (absWord (m.gpr (rs.setWidth 8)))).goto (slot 4 m.pc 3)) := by
  have htest : NodeRuns env target (.i .bgez 0 rs (branchOffset 3)) m _ := bgezSkip_runs hm hb
  rw [absWord_eq]
  by_cases h : (m.gpr (rs.setWidth 8)).msb = false
  · rw [if_pos h] at htest
    rw [if_neg (by simp [h]), ← hcopy, m.setGpr_gpr]
    exact .skip 2 htest rfl .nil
  · rw [if_neg h] at htest
    rw [if_pos (by simpa using h)]
    have hnop : NodeRuns env target (.rShift .sll 0 0 0) (m.goto (m.pc + 4)) _ := .nop (hm.goto _)
    have hneg : NodeRuns env target (.r .sub rd 0 rs) (m.goto (m.pc + 4 + 4)) _ :=
      negate_runs (hm.goto _) hover
    rw [slot_succ, slot_succ]
    exact .next htest rfl (.next hnop rfl (.leave hneg))

lemma absTail_overflow (hover : m.gpr (rs.setWidth 8) = 0x80000000) : NodesRun env target
      [.i .bgez 0 rs (branchOffset 3), .rShift .sll 0 0 0, .r .sub rd 0 rs] m
      ((m.goto (m.pc + 4 + 4)).faulted .ov) := by
  have htest : NodeRuns env target (.i .bgez 0 rs (branchOffset 3)) m _ := bgezSkip_runs hm hb
  have hneg : ¬ (m.gpr (rs.setWidth 8)).msb = false := by
    rw [hover]
    decide
  rw [if_neg hneg] at htest
  have hnop : NodeRuns env target (.rShift .sll 0 0 0) (m.goto (m.pc + 4)) _ := .nop (hm.goto _)
  exact .next htest rfl (.next hnop rfl (.leave (negate_overflow (hm.goto _) hover)))

include hrd

lemma abs_run (hsame : rd.setWidth 8 = (rs.setWidth 8 : Byte) → rd = rs) :
    (m.gpr (rs.setWidth 8) ≠ 0x80000000 → NodesRun env target (absNodes rd rs) m
      ((m.setGpr (rd.setWidth 8) (absWord (m.gpr (rs.setWidth 8)))).goto
        (slot 4 m.pc (sizeAll (absNodes rd rs))))) ∧
    (m.gpr (rs.setWidth 8) = 0x80000000 → ∃ v p, NodesRun env target (absNodes rd rs) m
      (((m.setGpr (rd.setWidth 8) v).goto p).faulted .ov)) := by
  unfold absNodes
  by_cases h : rd = rs
  · subst h
    rw [if_neg (not_not.mpr rfl)]
    refine ⟨fun hover => absTail_run hm hb rfl hover, fun hover =>
      ⟨m.gpr (rd.setWidth 8), m.pc + 4 + 4, ?_⟩⟩
    rw [m.setGpr_gpr]
    exact absTail_overflow hm hb hover
  · rw [if_pos h]
    have hcopy : NodeRuns env target (.r .addu rd 0 rs) m
        ((m.setGpr (rd.setWidth 8) (m.gpr (rs.setWidth 8))).goto (m.pc + 4)) := by
      have h : NodeRuns env target _ m _ := .addu rd 0 rs hm
      rw [show m.gpr ((0 : Word).setWidth 8) = 0 from hm.zero,
        show 0 + m.gpr (rs.setWidth 8) = m.gpr (rs.setWidth 8) from BitVec.zero_add _] at h
      exact h
    have hready := (hm.setGpr hrd (m.gpr (rs.setWidth 8))).goto (m.pc + 4)
    have hrs : (m.setGpr (rd.setWidth 8) (m.gpr (rs.setWidth 8))).gpr (rs.setWidth 8) =
        m.gpr (rs.setWidth 8) := m.gpr_setGpr_of_ne (fun heq => h (hsame heq.symm)) _
    refine ⟨fun hover => ?_, fun hover => ?_⟩
    · have htail : NodesRun env target [_, _, .r .sub rd 0 rs] _ _ :=
        absTail_run hready hb ((m.gpr_setGpr_self _ _).trans hrs.symm) (hrs.trans_ne hover)
      rw [Machine.toRegs_goto, hrs, Machine.setGpr_goto, Machine.goto_goto, Machine.setGpr_setGpr,
        Machine.pc_goto, ← slot_succ] at htail
      exact .next hcopy rfl htail
    · have htail : NodesRun env target [_, _, .r .sub rd 0 rs] _ _ :=
        absTail_overflow hready hb (hrs.trans hover)
      exact ⟨_, _, .next hcopy rfl htail⟩

end

/-! Multiplication. -/

namespace Order

def multOpcode : Order → Opcode
  | signed => .mult
  | unsigned => .multu

/-- The product of two words. -/
def product (o : Order) (a b : Word) : ℤ := o.value a * o.value b

/-- The number is a word. -/
def fits : Order → ℤ → Prop
  | signed, n => -2^31 ≤ n ∧ n < 2^31
  | unsigned, n => 0 ≤ n ∧ n < 2^32

end Order

/-- The low word of a double word. -/
lemma low_of_append {hi lo : Word} {n : ℤ} (h : hi ++ lo = BitVec.ofInt 64 n) :
    lo = BitVec.ofInt 32 n := by
  have hsum := congrArg BitVec.toNat h
  rw [WordPair.toNat_append, BitVec.toNat_ofInt] at hsum
  apply BitVec.eq_of_toNat_eq
  have hlo := lo.isLt
  rw [BitVec.toNat_ofInt]
  omega

/-- An unsigned product is a word when its high word is 0. -/
lemma fits_unsigned {hi lo : Word} {n : ℤ} (h : hi ++ lo = BitVec.ofInt 64 n) (hmin : 0 ≤ n)
    (hmax : n < 2^64) : Order.unsigned.fits n ↔ hi = 0 := by
  have hsum := congrArg BitVec.toNat h
  rw [WordPair.toNat_append, BitVec.toNat_ofInt] at hsum
  have hlo := lo.isLt
  have hzero : hi = 0 ↔ hi.toNat = 0 := ⟨fun h => by rw [h]; rfl, fun h => BitVec.eq_of_toNat_eq h⟩
  rw [hzero, Order.fits]
  omega

/-- A signed product is a word when its high word repeats the sign of the low one. -/
lemma fits_signed {hi lo : Word} {n : ℤ} (h : hi ++ lo = BitVec.ofInt 64 n) (hmin : -2^63 ≤ n)
    (hmax : n < 2^63) : Order.signed.fits n ↔ hi = lo.sshiftRight 31 := by
  have hsum := congrArg BitVec.toNat h
  rw [WordPair.toNat_append, BitVec.toNat_ofInt] at hsum
  have hsign : (lo.sshiftRight 31).toInt = lo.toInt / 2^31 := by
    rw [BitVec.toInt_sshiftRight, Int.shiftRight_eq_div_pow]
    rfl
  have heq : hi = lo.sshiftRight 31 ↔ hi.toInt = lo.toInt / 2^31 := by
    rw [← hsign]
    exact ⟨fun h => by rw [h], fun h => BitVec.eq_of_toInt_eq h⟩
  have hhi := hi.isLt
  have hlo := lo.isLt
  rw [heq, Order.fits, BitVec.toInt_eq_toNat_cond, BitVec.toInt_eq_toNat_cond]
  split <;> split <;> omega

lemma signed_product_bounds (a b : Word) :
    -2^63 ≤ Order.signed.product a b ∧ Order.signed.product a b < 2^63 := by
  have habs : (a.toInt * b.toInt).natAbs ≤ 2^31 * 2^31 := by
    rw [Int.natAbs_mul]
    exact Nat.mul_le_mul (natAbs_toInt_le a) (natAbs_toInt_le b)
  change -2^63 ≤ a.toInt * b.toInt ∧ a.toInt * b.toInt < 2^63
  omega

lemma unsigned_product_bounds (a b : Word) :
    0 ≤ Order.unsigned.product a b ∧ Order.unsigned.product a b < 2^64 := by
  have hlt : a.toNat * b.toNat < 2^32 * 2^32 := Nat.mul_lt_mul'' a.isLt b.isLt
  change 0 ≤ (a.toNat : ℤ) * b.toNat ∧ (a.toNat : ℤ) * b.toNat < 2^64
  rw [← Nat.cast_mul]
  omega

/-- mult and multu -/
lemma mult_runs {env : Env} {target : Word} {m : Machine} (hm : m.Ready) (o : Order) (rd rs rt : Word) :
    ∃ hi lo : Word, hi ++ lo =
        BitVec.ofInt 64 (o.product (m.gpr (rs.setWidth 8)) (m.gpr (rt.setWidth 8))) ∧
      NodeRuns env target (.r o.multOpcode rd rs rt) m ((m.withHiLo hi lo).goto (m.pc + 4)) := by
  cases o with
  | signed => exact ⟨_, _, signedMultiply_eq _ _, .inst (fun _ => rfl) (.regs hm rfl)⟩
  | unsigned =>
    refine ⟨_, _, (unsignedMultiply_eq _ _).trans ?_, .inst (fun _ => rfl) (.regs hm rfl)⟩
    rw [Order.product, Order.value, Order.value, ← Nat.cast_mul, BitVec.ofInt_natCast]
    rfl

/-- The check of a product, and the trap. -/
def checkNodes (rd : Word) : Order → List InstNode
  | .signed => [.r .mflo rd 0 0, .rShift .sra rd rd 31, .i .beq rd 1 (branchOffset 3),
      .rShift .sll 0 0 0, .r .brk 0 0 0]
  | .unsigned => [.i .beq 0 1 (branchOffset 3), .rShift .sll 0 0 0, .r .brk 0 0 0]

/-- What mult_inst expands to. -/
def multNodes (o : Order) (rd rs rt : Word) : List InstNode :=
  [.r o.multOpcode 0 rs rt, .r .mfhi 1 0 0] ++ (checkNodes rd o ++ [.r .mflo rd 0 0])

section

variable {env : Env} {target : Word} {m : Machine} {rd : Word} (hm : m.Ready)
  (hb : env.delayedBranches = false) (hrd : rd.setWidth 8 ≠ (0 : Byte))
  (hat : rd.setWidth 8 ≠ (1 : Byte))

include hm hb hrd hat

omit hb hat in
/-- The sign of the low word goes to the destination. -/
lemma lowSign_run {rest : List InstNode} {m' : Machine}
    (hrest : NodesRun env target rest
      ((m.setGpr (rd.setWidth 8) (m.lo.sshiftRight 31)).goto (m.pc + 4 + 4)) m') :
    NodesRun env target (.r .mflo rd 0 0 :: .rShift .sra rd rd 31 :: rest) m m' := by
  have hmove : NodeRuns env target (.r .mflo rd 0 0) m _ := moveFrom_runs rd hm true
  have hready := (hm.setGpr hrd m.lo).goto (m.pc + 4)
  have hshift : NodeRuns env target (.rShift .sra rd rd 31)
      ((m.setGpr (rd.setWidth 8) m.lo).goto (m.pc + 4))
      ((((m.setGpr (rd.setWidth 8) m.lo).goto (m.pc + 4)).setGpr (rd.setWidth 8)
        (((m.setGpr (rd.setWidth 8) m.lo).gpr (rd.setWidth 8)).sshiftRight 31)).goto
          (m.pc + 4 + 4)) := .inst (fun _ => rfl) (.setRd hready rfl)
  rw [Machine.gpr_setGpr_self, Machine.setGpr_goto, Machine.setGpr_setGpr,
    Machine.goto_goto] at hshift
  exact .next hmove rfl (.next hshift rfl hrest)

/-- The branch over the trap of a signed product. -/
lemma signTest_runs {a b : Word} (hproduct : m.hi ++ m.lo = BitVec.ofInt 64 (Order.signed.product a b))
    (hhi : m.gpr 1 = m.hi) (p : Word) [Decidable (Order.signed.fits (Order.signed.product a b))] :
    NodeRuns env target (.i .beq rd 1 (branchOffset 3))
      ((m.setGpr (rd.setWidth 8) (m.lo.sshiftRight 31)).goto p)
      ((m.setGpr (rd.setWidth 8) (m.lo.sshiftRight 31)).goto
        (if Order.signed.fits (Order.signed.product a b) then slot 4 p 3 else p + 4)) := by
  have hready := (hm.setGpr hrd (m.lo.sshiftRight 31)).goto p
  have hbounds := signed_product_bounds a b
  have htest : NodeRuns env target (.i .beq rd 1 (branchOffset 3)) _ _ := .beqSkip 1 rd hready hb
  rw [Machine.toRegs_goto, register_at, Machine.gpr_setGpr_self,
    Machine.gpr_setGpr_of_ne _ hat.symm, hhi, Machine.goto_goto, Machine.pc_goto,
    if_congr (fits_signed hproduct hbounds.1 hbounds.2).symm rfl rfl] at htest
  exact htest

omit hrd hat in
/-- The branch over the trap of an unsigned product. -/
lemma zeroTest_runs {a b : Word}
    (hproduct : m.hi ++ m.lo = BitVec.ofInt 64 (Order.unsigned.product a b)) (hhi : m.gpr 1 = m.hi)
    [Decidable (Order.unsigned.fits (Order.unsigned.product a b))] :
    NodeRuns env target (.i .beq 0 1 (branchOffset 3)) m (m.goto
      (if Order.unsigned.fits (Order.unsigned.product a b) then slot 4 m.pc 3 else m.pc + 4)) := by
  have hbounds := unsigned_product_bounds a b
  have htest : NodeRuns env target (.i .beq 0 1 (branchOffset 3)) m _ := .beqSkip 1 0 hm hb
  rw [register_at, show m.gpr ((0 : Word).setWidth 8) = 0 from hm.zero, hhi,
    if_congr (fits_unsigned hproduct hbounds.1 hbounds.2).symm rfl rfl] at htest
  exact htest

variable (o : Order) {a b : Word} (hproduct : m.hi ++ m.lo = BitVec.ofInt 64 (o.product a b))
  (hhi : m.gpr 1 = m.hi)

include hproduct hhi

/-- A product that is a word passes the check. -/
lemma check_pass (hfits : o.fits (o.product a b)) :
    ∃ v, NodesRun env target (checkNodes rd o) m
      ((m.setGpr (rd.setWidth 8) v).goto (slot 4 m.pc (sizeAll (checkNodes rd o)))) := by
  classical
  cases o with
  | unsigned =>
    refine ⟨m.gpr (rd.setWidth 8), ?_⟩
    rw [m.setGpr_gpr]
    exact .pass rfl hfits (zeroTest_runs hm hb hproduct hhi)
  | signed =>
    have htest : NodeRuns env target _ _ _ :=
      signTest_runs hm hb hrd hat hproduct hhi (m.pc + 4 + 4)
    have hend : slot 4 m.pc (sizeAll (checkNodes rd .signed)) = slot 4 (m.pc + 4 + 4) 3 := by
      rw [← slot_succ, ← slot_succ]
      rfl
    rw [hend]
    exact ⟨m.lo.sshiftRight 31, lowSign_run hm hrd (.pass rfl hfits htest)⟩

/-- Any other product traps. -/
lemma check_trap (hfits : ¬ o.fits (o.product a b)) :
    ∃ v p, NodesRun env target (checkNodes rd o) m
      (((m.setGpr (rd.setWidth 8) v).goto p).faulted .bp) := by
  classical
  cases o with
  | unsigned =>
    refine ⟨m.gpr (rd.setWidth 8), slot 4 m.pc 2, ?_⟩
    rw [m.setGpr_gpr]
    exact .trap hm rfl hfits (zeroTest_runs hm hb hproduct hhi)
  | signed =>
    have htest : NodeRuns env target _ _ _ :=
      signTest_runs hm hb hrd hat hproduct hhi (m.pc + 4 + 4)
    have hready := (hm.setGpr hrd (m.lo.sshiftRight 31)).goto (m.pc + 4 + 4)
    exact ⟨m.lo.sshiftRight 31, _, lowSign_run hm hrd (.trap hready rfl hfits htest)⟩

end

section

variable {env : Env} {target : Word} {m : Machine} {rd : Word} (rs rt : Word) (hm : m.Ready)
  (hb : env.delayedBranches = false) (hrd : rd.setWidth 8 ≠ (0 : Byte))
  (hat : rd.setWidth 8 ≠ (1 : Byte)) (o : Order)

include hm

/-- The product is in HI and LO, and its high word in $at. -/
lemma multiply_run : ∃ hi lo : Word, hi ++ lo =
      BitVec.ofInt 64 (o.product (m.gpr (rs.setWidth 8)) (m.gpr (rt.setWidth 8))) ∧
    NodesRun env target [.r o.multOpcode 0 rs rt, .r .mfhi 1 0 0] m
      (((m.withHiLo hi lo).setGpr 1 hi).goto (slot 4 m.pc 2)) := by
  obtain ⟨hi, lo, hproduct, hmult⟩ : ∃ hi lo : Word, _ ∧ NodeRuns env target _ m _ :=
    mult_runs hm o 0 rs rt
  have hready : ((m.withHiLo hi lo).goto (m.pc + 4)).Ready := ⟨hm.zero, hm.noException⟩
  have hmove : NodeRuns env target (.r .mfhi 1 0 0) _ _ := moveFrom_runs 1 hready false
  rw [register_at, Machine.setGpr_goto, Machine.goto_goto, Machine.pc_goto] at hmove
  refine ⟨hi, lo, hproduct, ?_⟩
  rw [slot_succ, slot_one]
  exact .next hmult rfl (.leave hmove)

include hb hrd hat

lemma mult_pass (hfits : o.fits (o.product (m.gpr (rs.setWidth 8)) (m.gpr (rt.setWidth 8)))) :
    ∃ a hi lo, NodesRun env target (multNodes o rd rs rt) m
      ((((m.withHiLo hi lo).setGpr 1 a).setGpr (rd.setWidth 8) (BitVec.ofInt 32
        (o.product (m.gpr (rs.setWidth 8)) (m.gpr (rt.setWidth 8))))).goto
          (slot 4 m.pc (sizeAll (multNodes o rd rs rt)))) := by
  obtain ⟨hi, lo, hproduct, hmult⟩ : ∃ hi lo : Word, _ ∧ NodesRun env target _ m _ :=
    multiply_run rs rt hm o
  have hready : (((m.withHiLo hi lo).setGpr 1 hi).goto (slot 4 m.pc 2)).Ready :=
    ⟨hm.zero, hm.noException⟩
  obtain ⟨v, hcheck⟩ : ∃ v, NodesRun env target _ _ _ :=
    check_pass hready hb hrd hat o hproduct rfl hfits
  have hend := (hready.setGpr hrd v).goto (slot 4 (slot 4 m.pc 2) (sizeAll (checkNodes rd o)))
  have hmove : NodeRuns env target (.r .mflo rd 0 0) _ _ := moveFrom_runs rd hend true
  have hlast : (slot 4 (slot 4 m.pc 2) (sizeAll (checkNodes rd o))) + 4 =
      slot 4 m.pc (sizeAll (multNodes o rd rs rt)) := by
    rw [slot_add, ← slot_one (slot 4 m.pc _), slot_add, multNodes, sizeAll_append, sizeAll_append]
    rfl
  simp only [Machine.setGpr_goto, Machine.goto_goto, Machine.pc_goto, Machine.setGpr_setGpr,
    hlast] at hcheck hmove
  refine ⟨hi, hi, lo, ?_⟩
  rw [← low_of_append hproduct]
  exact hmult.append rfl (hcheck.append rfl (.leave hmove))

/-- A product that is no word. -/
lemma mult_trap (hfits : ¬ o.fits (o.product (m.gpr (rs.setWidth 8)) (m.gpr (rt.setWidth 8)))) :
    ∃ a hi lo v p, NodesRun env target (multNodes o rd rs rt) m
      (((((m.withHiLo hi lo).setGpr 1 a).setGpr (rd.setWidth 8) v).goto p).faulted .bp) := by
  obtain ⟨hi, lo, hproduct, hmult⟩ : ∃ hi lo : Word, _ ∧ NodesRun env target _ m _ :=
    multiply_run rs rt hm o
  have hready : (((m.withHiLo hi lo).setGpr 1 hi).goto (slot 4 m.pc 2)).Ready :=
    ⟨hm.zero, hm.noException⟩
  obtain ⟨v, p, hcheck⟩ : ∃ v p, NodesRun env target _ _ _ :=
    check_trap hready hb hrd hat o hproduct rfl hfits
  rw [Machine.setGpr_goto, Machine.goto_goto] at hcheck
  exact ⟨hi, hi, lo, v, p, hmult.append rfl hcheck.stop⟩

end

/-! Statements. -/

/-- A statement that rotates, takes an absolute value or multiplies. -/
inductive ArithLine
  | rotate (left : Bool) (rd rs : Fin 32) (src : Source)
  | abs (rd rs : Fin 32)
  | mulo (o : Order) (rd rs : Fin 32) (src : Source)
  deriving DecidableEq, Repr

/-- How far a rotation goes. -/
def Source.distance (m : Machine) : Source → ℕ
  | reg r => (m.gpr (regNo r)).toNat % 32
  | imm v => v.toNat

def rotateOp (left : Bool) : PseudoOp := if left then .rol else .ror
def Order.muloOp : Order → PseudoOp
  | signed => .mulo
  | unsigned => .mulou

/-- An exception, with what the instructions before it may have left. -/
def Raises (e : ExcCode) (rd : RegNo) (m m' : Machine) : Prop :=
  ∃ a v hi lo p, m' = ((((m.withHiLo hi lo).setGpr 1 a).setGpr rd v).goto p).faulted e

namespace ArithLine

def tokens : ArithLine → List Token
  | rotate left rd rs src =>
      [.keyword (.pseudo (rotateOp left)), .reg (regWord rd), .reg (regWord rs), src.token]
  | abs rd rs => [.keyword (.pseudo .abs), .reg (regWord rd), .reg (regWord rs)]
  | mulo o rd rs src =>
      [.keyword (.pseudo o.muloOp), .reg (regWord rd), .reg (regWord rs), src.token]

/-- The operands are not $at, the destination is not $0, and a constant distance is below 32. -/
def operandsFree : ArithLine → Prop
  | rotate _ rd rs src => rd ≠ 0 ∧ rd ≠ 1 ∧ rs ≠ 1 ∧ src ≠ .reg 1 ∧ ∀ v, src = .imm v → v.toNat ≤ 31
  | abs rd rs => rd ≠ 0 ∧ rd ≠ 1 ∧ rs ≠ 1
  | mulo _ rd rs src => rd ≠ 0 ∧ rd ≠ 1 ∧ rs ≠ 1 ∧ src ≠ .reg 1

/-- What the statement is to do. -/
def effect : ArithLine → Word → Word → Machine → Machine → Prop
  | rotate left rd rs src, _, after, m, m' => ∃ a, m' = ((m.setGpr 1 a).setGpr (regNo rd)
      (rotateBy left (m.gpr (regNo rs)) (src.distance m))).goto after
  | abs rd rs, _, after, m, m' =>
      (m.gpr (regNo rs) = 0x80000000 → Raises .ov (regNo rd) m m') ∧
      (m.gpr (regNo rs) ≠ 0x80000000 →
        m' = (m.setGpr (regNo rd) (absWord (m.gpr (regNo rs)))).goto after)
  | mulo o rd rs src, _, after, m, m' =>
      (¬ o.fits (o.product (m.gpr (regNo rs)) (src.value m)) → Raises .bp (regNo rd) m m') ∧
      (o.fits (o.product (m.gpr (regNo rs)) (src.value m)) → ∃ a hi lo,
        m' = (((m.withHiLo hi lo).setGpr 1 a).setGpr (regNo rd)
          (BitVec.ofInt 32 (o.product (m.gpr (regNo rs)) (src.value m)))).goto after)

/-- The statement, up to its end, is parsed into instructions that do what it is to do. -/
def Correct (env : AsmEnv) (line : ArithLine) : Prop :=
  ∀ t : Token, t.ends → Parses (parseAsmCode env) (line.tokens ++ [t]) fun ns =>
    Implements env.toEnv ns line.effect

/-- What the statement is parsed into. -/
def nodes : ArithLine → List InstNode
  | rotate left rd rs (.reg rt) => rotateVNodes left (regWord rd) (regWord rs) (regWord rt)
  | rotate left rd rs (.imm v) => rotateNodes left (regWord rd) (regWord rs) v
  | abs rd rs => absNodes (regWord rd) (regWord rs)
  | mulo o rd rs (.reg rt) => multNodes o (regWord rd) (regWord rs) (regWord rt)
  | mulo o rd rs (.imm v) =>
      if v = 0 then [.i .ori (regWord rd) 0 (constImmExpr 0)]
      else .i .ori 1 0 (constImmExpr v) :: multNodes o (regWord rd) (regWord rs) 1

end ArithLine

/-! Parsing. -/

lemma Reads.evalConst (v : Word) (ts : List Token) :
    Reads (evalImmExpr (constImmExpr v)) ts (Gives v [] ts) := by
  intro s h
  refine ⟨v, s, [], ts, ?_, h, ⟨rfl, rfl, rfl⟩, rfl, rfl, rfl⟩
  rw [evalImmExpr_const rfl]
  rfl

/-- A constant in the range. -/
lemma Reads.checkRange {v : Word} {lo hi : ℤ} (hlo : lo ≤ v.toInt) (hhi : v.toInt ≤ hi)
    (ts : List Token) : Reads (checkImmRange (constImmExpr v) lo hi) ts (Gives () [] ts) := by
  intro s h
  refine ⟨(), s, [], ts, ?_, h, ⟨rfl, rfl, rfl⟩, rfl, rfl, rfl⟩
  have hnot : ¬ (v.toInt < lo ∨ hi < v.toInt) := by omega
  have hcheck : (do
      let value ← evalImmExpr (constImmExpr v)
      onlyIf (value.toInt < lo ∨ hi < value.toInt) (report (.immediateRange value)) :
      Assemble Unit).run s = .ok () s := by
    rw [run_bind_of_ok (evalImmExpr_const rfl s), onlyIf_neg]
    · rfl
    · exact hnot
  change (onlyIf (s.symbolDefined (constImmExpr v) = true) _).run s = _
  rw [onlyIf_pos (symbolDefined_none rfl s)]
  exact hcheck

lemma multInst_appends (o : Order) {rd : Word} (hrd : rd ≠ 0) (rs rt : Word) :
    Appends (multInst (o = .unsigned) rd rs rt) (multNodes o rd rs rt) := by
  have hend : Appends (do
      nopInst
      trapInst
      emitR .mflo rd 0 0) [.rShift .sll 0 0 0, .r .brk 0 0 0, .r .mflo rd 0 0] :=
    .seq (.inst _) (.seq (.inst _) (.inst _))
  have hsign : Appends (do
      emitR .mflo rd 0 0
      emitRShift .sra rd rd 31
      emitI .beq rd 1 (branchOffset 3))
      [.r .mflo rd 0 0, .rShift .sra rd rd 31, .i .beq rd 1 (branchOffset 3)] :=
    .seq (.inst _) (.seq (.inst _) (.inst _))
  have hzero : Appends (emitI .beq 0 1 (branchOffset 3)) [.i .beq 0 1 (branchOffset 3)] := .inst _
  unfold multInst
  rw [onlyIf_pos hrd]
  cases o with
  | signed =>
    rw [if_neg (by decide), if_neg (by decide)]
    exact (Appends.inst _).seq ((Appends.inst (.r .mfhi 1 0 0)).seq (hsign.seq hend))
  | unsigned =>
    rw [if_pos (by decide), if_pos (by decide)]
    exact (Appends.inst _).seq ((Appends.inst (.r .mfhi 1 0 0)).seq (hzero.seq hend))

section

variable {env : AsmEnv} {t : Token}

lemma reads_parseRotate (left : Bool) (rd rs : Fin 32) {src : Source} (ht : t.ends)
    (hdist : ∀ v, src = .imm v → v.toNat ≤ 31) :
    Reads (doParsePseudo env (rotateOp left)) [.reg (regWord rd), .reg (regWord rs), src.token, t]
      fun _ ns _ => ns = (ArithLine.rotate left rd rs src).nodes := by
  have hrotate : Reads (parseRotate env (shiftVOp (!left)) (shiftVOp left) (shiftOp (!left))
      (shiftOp left)) [.reg (regWord rd), .reg (regWord rs), src.token, t]
      fun _ ns _ => ns = (ArithLine.rotate left rd rs src).nodes := by
    refine (Reads.register _).then_ ((Reads.register _).then_ ?_)
    cases src with
    | reg r =>
      refine (Reads.take (f := Token.asReg) rfl).then_ ?_
      refine (Appends.seq (.inst _) (.seq (.inst _) (.seq (.inst _) (.inst _))) _).mono ?_
      rintro _ _ _ ⟨-, rfl, -⟩
      rfl
    | imm v =>
      have hv := hdist v rfl
      have hint : v.toInt = v.toNat := BitVec.toInt_eq_toNat_of_lt (by omega)
      refine (Reads.leave (f := Token.asReg) rfl).then_
        ((Reads.imm32 v (Token.ends_plus ht) (Token.ends_asInt ht)).then_
          ((Reads.evalConst v _).then_ ((Reads.checkRange (by omega) (by omega) _).then_ ?_)))
      refine (Appends.seq (.inst _) (.seq (.inst _) (.inst _)) _).mono ?_
      rintro _ _ _ ⟨-, rfl, -⟩
      rfl
  cases left <;> exact hrotate

lemma reads_parseAbs (rd rs : Fin 32) (ts : List Token) :
    Reads (parseAbs env) (.reg (regWord rd) :: .reg (regWord rs) :: ts)
      fun _ ns _ => ns = (ArithLine.abs rd rs).nodes := by
  refine (Reads.register _).then_ ((Reads.register _).then_ ?_)
  refine (Appends.seq (.onlyIf (.inst _)) (.seq (.inst _) (.seq (.inst _) (.inst _))) _).mono ?_
  rintro _ _ _ ⟨-, rfl, -⟩
  rfl

lemma reads_parseMulo (o : Order) {rd : Fin 32} (hrd : rd ≠ 0) (rs : Fin 32) (src : Source)
    (ht : t.ends) :
    Reads (doParsePseudo env o.muloOp) [.reg (regWord rd), .reg (regWord rs), src.token, t]
      fun _ ns _ => ns = (ArithLine.mulo o rd rs src).nodes := by
  have hmulo : Reads (parseMulo env (o = .unsigned))
      [.reg (regWord rd), .reg (regWord rs), src.token, t]
      fun _ ns _ => ns = (ArithLine.mulo o rd rs src).nodes := by
    have hmult (rt : Word) := multInst_appends o (regWord_ne_zero.mpr hrd) (regWord rs) rt
    refine (Reads.register _).then_ ((Reads.register _).then_ ?_)
    cases src with
    | reg r =>
      refine (Reads.take (f := Token.asReg) rfl).then_ ((hmult (regWord r) _).mono ?_)
      rintro _ _ _ ⟨-, rfl, -⟩
      rfl
    | imm v =>
      refine (Reads.leave (f := Token.asReg) rfl).then_
        ((Reads.imm32 v (Token.ends_plus ht) (Token.ends_asInt ht)).then_ ?_)
      by_cases hv : v = 0
      · rw [if_pos (Source.isZeroImm_const.mpr hv)]
        refine (Reads.append _).mono ?_
        rintro _ _ _ ⟨-, rfl, -⟩
        rw [hv]
        rfl
      · rw [if_neg (Source.isZeroImm_const.not.mpr hv)]
        refine (Reads.emit (hmult 1 _)).mono ?_
        rintro _ _ _ ⟨-, rfl, -⟩
        rw [ArithLine.nodes, if_neg hv]
        rfl
  cases o <;> exact hmulo

lemma ArithLine.parses {line : ArithLine} (hfree : line.operandsFree) (ht : t.ends) :
    Parses (parseAsmCode env) (line.tokens ++ [t]) fun ns => ns = line.nodes := by
  cases line with
  | rotate left rd rs src =>
    obtain ⟨-, -, -, -, hdist⟩ := hfree
    exact .ofPseudo (reads_parseRotate left rd rs ht hdist)
  | abs rd rs => exact .ofPseudo (reads_parseAbs rd rs [t])
  | mulo o rd rs src => exact .ofPseudo (reads_parseMulo o hfree.1 rs src ht)

end

/-! Correctness. -/

@[simp] lemma fixed_bgezSkip (rs : Word) :
    (InstNode.i .bgez 0#32 rs (branchOffset 3#32)).fixed := ⟨rfl, rfl⟩

lemma multNodes_fixed (o : Order) (rd rs rt : Word) : ∀ n ∈ multNodes o rd rs rt, n.fixed := by
  cases o <;> simp [multNodes, checkNodes]

lemma regWord_injective {r r' : Fin 32} (h : (regNo r : Byte) = regNo r') : regWord r = regWord r' := by
  revert r r'
  decide

namespace ArithLine

lemma nodes_fixed (line : ArithLine) : ∀ n ∈ line.nodes, n.fixed := by
  cases line with
  | rotate left rd rs src => cases src <;> simp [nodes, rotateVNodes, rotateNodes]
  | abs rd rs =>
    rw [nodes, absNodes]
    split <;> simp
  | mulo o rd rs src =>
    cases src with
    | reg rt => exact multNodes_fixed _ _ _ _
    | imm v =>
      rw [nodes]
      split
      · simp
      · exact List.forall_mem_cons.mpr ⟨fixed_ori _ _ _, multNodes_fixed _ _ _ _⟩

section

variable {env : Env} {target : Word} {m : Machine} (hm : m.Ready)
  (hb : env.delayedBranches = false)

include hm

lemma rotate_effect (left : Bool) {rd rs : Fin 32} {src : Source}
    (hfree : (rotate left rd rs src).operandsFree) :
    ∃ m', (rotate left rd rs src).effect target (slot 4 m.pc (sizeAll (rotate left rd rs src).nodes))
      m m' ∧ NodesRun env target (rotate left rd rs src).nodes m m' := by
  obtain ⟨hzero, hat, hrs, hsrc, hdist⟩ := hfree
  have hzero' := (setWidth_regWord rd).trans_ne (regNo_ne_zero hzero)
  have hat' := (setWidth_regWord rd).trans_ne (regNo_ne_at hat)
  have hrs' := (setWidth_regWord rs).trans_ne (regNo_ne_at hrs)
  cases src with
  | reg rt =>
    have hrt : rt ≠ 1 := fun h => hsrc (by rw [h])
    obtain ⟨a, h⟩ : ∃ a, NodesRun env target _ m _ := rotateV_run hm hzero' hat' hrs' left
      ((setWidth_regWord rt).trans_ne (regNo_ne_at hrt))
    simp only [setWidth_regWord] at h
    exact ⟨_, ⟨a, rfl⟩, h⟩
  | imm v =>
    have hv := hdist v rfl
    obtain ⟨a, h⟩ : ∃ a, NodesRun env target _ m _ := rotate_run hm hzero' hat' hrs' left v
    simp only [setWidth_regWord, Nat.mod_eq_of_lt (show v.toNat < 32 by omega)] at h
    exact ⟨_, ⟨a, rfl⟩, h⟩

include hb

lemma abs_effect {rd rs : Fin 32} (hfree : (abs rd rs).operandsFree) :
    ∃ m', (abs rd rs).effect target (slot 4 m.pc (sizeAll (abs rd rs).nodes)) m m' ∧
      NodesRun env target (abs rd rs).nodes m m' := by
  obtain ⟨hzero, -, -⟩ := hfree
  have hsame (h : ((regWord rd).setWidth 8 : Byte) = (regWord rs).setWidth 8) :
      regWord rd = regWord rs := by
    rw [setWidth_regWord, setWidth_regWord] at h
    exact regWord_injective h
  obtain ⟨hset, hraise⟩ : (_ → NodesRun env target _ m _) ∧ _ := abs_run hm hb
    ((setWidth_regWord rd).trans_ne (regNo_ne_zero hzero)) hsame
  rw [setWidth_regWord, setWidth_regWord] at hset hraise
  by_cases hover : m.gpr (regNo rs) = 0x80000000
  · obtain ⟨v, p, h⟩ := hraise hover
    have hsame : m.setGpr 1 (m.gpr 1) = m := m.setGpr_gpr 1
    refine ⟨_, ⟨fun _ => ⟨m.gpr 1, v, m.hi, m.lo, p, ?_⟩, fun hnot => absurd hover hnot⟩, h⟩
    change _ = (((((m.setGpr 1 (m.gpr 1)).setGpr (regNo rd) v).goto p).faulted .ov))
    rw [hsame]
  · exact ⟨_, ⟨fun h => absurd h hover, fun _ => rfl⟩, hset hover⟩

/-- A checked multiplication of two registers. -/
lemma mult_effect (rs : Fin 32) (o : Order) {rd : Fin 32} (hzero : rd ≠ 0) (hat : rd ≠ 1) (rt : Word) {b : Word}
    (hvalue : m.gpr (rt.setWidth 8) = b) :
    ∃ m', (((¬ o.fits (o.product (m.gpr (regNo rs)) b) → Raises .bp (regNo rd) m m') ∧
        (o.fits (o.product (m.gpr (regNo rs)) b) → ∃ a hi lo,
          m' = (((m.withHiLo hi lo).setGpr 1 a).setGpr (regNo rd)
            (BitVec.ofInt 32 (o.product (m.gpr (regNo rs)) b))).goto
              (slot 4 m.pc (sizeAll (multNodes o (regWord rd) (regWord rs) rt)))))) ∧
      NodesRun env target (multNodes o (regWord rd) (regWord rs) rt) m m' := by
  have hzero' := (setWidth_regWord rd).trans_ne (regNo_ne_zero hzero)
  have hat' := (setWidth_regWord rd).trans_ne (regNo_ne_at hat)
  by_cases hfits : o.fits (o.product (m.gpr (regNo rs)) b)
  · obtain ⟨a, hi, lo, h⟩ : ∃ a hi lo, NodesRun env target (multNodes o (regWord rd) (regWord rs) rt)
        m _ := mult_pass _ _ hm hb hzero' hat' o (by rw [setWidth_regWord, hvalue]; exact hfits)
    rw [setWidth_regWord, setWidth_regWord, hvalue] at h
    exact ⟨_, ⟨fun hnot => absurd hfits hnot, fun _ => ⟨a, hi, lo, rfl⟩⟩, h⟩
  · obtain ⟨a, hi, lo, v, p, h⟩ : ∃ a hi lo v p, NodesRun env target
        (multNodes o (regWord rd) (regWord rs) rt) m _ :=
      mult_trap _ _ hm hb hzero' hat' o (by rw [setWidth_regWord, hvalue]; exact hfits)
    rw [setWidth_regWord] at h
    exact ⟨_, ⟨fun _ => ⟨a, v, hi, lo, p, rfl⟩, fun hyes => absurd hyes hfits⟩, h⟩

omit hm hb in
/-- What was loaded in $at is gone when $at is set again. -/
lemma loaded_setAt (m : Machine) (v p hi lo a : Word) :
    (((m.setGpr 1 v).goto p).withHiLo hi lo).setGpr 1 a = ((m.withHiLo hi lo).setGpr 1 a).goto p := by
  change (((m.withHiLo hi lo).setGpr 1 v).setGpr 1 a).goto p = _
  rw [Machine.setGpr_setGpr]

lemma mulo_effect (o : Order) {rd rs : Fin 32} {src : Source}
    (hfree : (mulo o rd rs src).operandsFree) :
    ∃ m', (mulo o rd rs src).effect target (slot 4 m.pc (sizeAll (mulo o rd rs src).nodes)) m m' ∧
      NodesRun env target (mulo o rd rs src).nodes m m' := by
  obtain ⟨hzero, hat, hrs, hsrc⟩ := hfree
  cases src with
  | reg rt => exact mult_effect hm hb rs o hzero hat _ (congrArg m.gpr (setWidth_regWord rt))
  | imm v =>
    by_cases hv : v = 0
    · have hori : NodeRuns env target (.i .ori (regWord rd) 0 (constImmExpr 0)) m _ :=
        .oriSmall (regWord rd) hm (by decide)
      have hproduct : o.product (m.gpr (regNo rs)) v = 0 := by
        rw [hv]
        cases o <;> exact mul_zero _
      have hfits : o.fits 0 := by cases o <;> simp [Order.fits]
      have hsame : m.setGpr 1 (m.gpr 1) = m := m.setGpr_gpr 1
      have hrun : NodesRun env target (mulo o rd rs (.imm v)).nodes m
          ((m.setGpr ((regWord rd).setWidth 8) 0).goto (m.pc + 4)) := by
        rw [nodes, if_pos hv]
        exact .leave hori
      refine ⟨_, ⟨fun hnot => ?_, fun _ => ⟨m.gpr 1, m.hi, m.lo, ?_⟩⟩, hrun⟩
      · rw [Source.value, Source.valueIn, hproduct] at hnot
        exact absurd hfits hnot
      · change _ = ((m.setGpr 1 (m.gpr 1)).setGpr _ _).goto _
        rw [hsame, setWidth_regWord, Source.value, Source.valueIn, hproduct, nodes, if_pos hv]
        rfl
    · have hload : NodeRuns env target (.i .ori 1 0 (constImmExpr v)) m _ := .oriAt hm v
      have hready := (hm.setGpr (show (1 : Byte) ≠ 0 by decide) v).goto
        (slot 4 m.pc (InstNode.i .ori 1 0 (constImmExpr v)).size)
      obtain ⟨m', ⟨hraise, hset⟩, hmult⟩ : ∃ m', _ ∧ NodesRun env target
          (multNodes o (regWord rd) (regWord rs) 1) _ m' :=
        mult_effect hready hb rs o hzero hat 1 (m.gpr_setGpr_self 1 v)
      rw [Machine.toRegs_goto, m.gpr_setGpr_of_ne (regNo_ne_at hrs)] at hraise hset
      have hnodes : (mulo o rd rs (.imm v)).nodes =
          .i .ori 1 0 (constImmExpr v) :: multNodes o (regWord rd) (regWord rs) 1 := if_neg hv
      refine ⟨m', ⟨fun hnot => ?_, fun hfits => ?_⟩, ?_⟩
      · obtain ⟨a, w, hi, lo, p, rfl⟩ := hraise hnot
        exact ⟨a, w, hi, lo, p, by
          rw [loaded_setAt, Machine.setGpr_goto, Machine.goto_goto]⟩
      · obtain ⟨a, hi, lo, rfl⟩ := hset hfits
        refine ⟨a, hi, lo, ?_⟩
        rw [loaded_setAt, Machine.setGpr_goto, Machine.goto_goto, Machine.pc_goto, slot_add, hnodes,
          sizeAll_cons]
        rfl
      · rw [hnodes]
        exact .next hload rfl hmult

end

lemma implements {env : Env} (hb : env.delayedBranches = false) (hbare : env.bareMachine = false)
    {line : ArithLine} (hfree : line.operandsFree) : Implements env line.nodes line.effect := by
  refine .mk_of_plain hb hbare (fun n hn => (line.nodes_fixed n hn).1) fun target m hm => ?_
  cases line with
  | rotate left rd rs src => exact rotate_effect hm left hfree
  | abs rd rs => exact abs_effect hm hb hfree
  | mulo o rd rs src => exact mulo_effect hm hb o hfree

end ArithLine

/-- Rotations, absolute values and checked multiplications are right. -/
theorem arith_correct {env : AsmEnv} (hb : env.delayedBranches = false)
    (hbare : env.bareMachine = true → env.delayedBranches = true) {line : ArithLine}
    (hfree : line.operandsFree) : line.Correct env := by
  intro t ht
  refine (line.parses hfree ht).mono ?_
  rintro _ rfl
  exact line.implements hb (env.not_bare hb hbare) hfree

/-- rol $8, $8, 31 -/
theorem arith_rol : (ArithLine.rotate true 8 8 (.imm 31)).Correct .quiet :=
  have hdist (v : Word) (h : Source.imm 31 = .imm v) : v.toNat ≤ 31 := by
    cases h
    decide
  have hfree : (ArithLine.rotate true 8 8 (.imm 31)).operandsFree :=
    ⟨by decide, by decide, by decide, by decide, hdist⟩
  arith_correct rfl (by decide) hfree

end Spimulator
