import Spimulator.Encoding

/-! The round trip of test_assembly: inst_decode after inst_encode. -/
namespace Spimulator
open BitField

/-- The operand fields that a shape's encoding and decoding agree on. inst_encode drops the
code of break, and inst_decode reads bits 25..21 of a coprocessor branch as RS and hands FS, FT,
FD to mk_r_inst as RS, RT, RD for two shapes. -/
def OperandsKept (i : Inst) : OpType → Prop
  | .branchCoprocCond => False
  | .noarg => i.rd = 0
  | .fpCmpFsFt => i.fs = 0 ∧ i.fd = 0
  | .fpMovc => i.fs = 0 ∧ i.fd = 0 ∧ i.rt &&& 3 = 0
  | _ => True

instance (i : Inst) (t : OpType) : Decidable (OperandsKept i t) := by
  unfold OperandsKept
  split <;> infer_instance

/-- The row is found again: its key keeps all its bits, and where a row that run_spim rejects
has the same encoding, the search prefers this one. -/
def RowKept (tbl : AOpcodeTbl) (op : Opcode) : Prop :=
  op ∉ Opcode.unselectedRows ∧ (op ∈ Opcode.sharedRows → tbl.find op.aOpcode = some op)

lemma jump_word (target : Word) (ht : target < 0x4000000) :
    place 32 0 (target.setWidth 26) = target := by
  apply BitVec.eq_of_getLsbD_eq
  intro j hj
  simp only [getLsbD_place, BitVec.getLsbD_setWidth, hj, Nat.zero_le, decide_true, Nat.sub_zero,
    Bool.true_and]
  by_cases h26 : j < 26
  · simp [h26]
  · have hlt : target.toNat < 2^j :=
      Nat.lt_of_lt_of_le ht (Nat.pow_le_pow_right Nat.two_pos (by omega : 26 ≤ j))
    simp [h26, BitVec.getLsbD, Nat.testBit_lt_two_pow hlt]

lemma instEncode_eq {op : Opcode} {i : Inst} (ha : Assembled op i) (hf : RowFacts op) :
    instEncode i = op.aOpcode ||| fieldBits i op.opType := by
  have henc : instEncode i = op.aOpcode ||| operandBits i op.opType := by
    simp only [instEncode, instEncode?, ha.opcode, hf.encodable, if_false, Option.getD_some]
  rw [henc]
  cases ha with
  | fpCmp fs ft cc h hs ht hc =>
    have hcond := hf.cond h
    have hplace : op.aOpcode ||| place 32 0 (op.aOpcode.extractLsb' 0 4 |>.setWidth 8) = op.aOpcode := by
      apply BitVec.eq_of_getLsbD_eq
      intro j hj
      simp only [place, BitVec.getLsbD_or, BitVec.getLsbD_shiftLeft, BitVec.getLsbD_setWidth,
        BitVec.getLsbD_extractLsb', Nat.zero_add, Nat.sub_zero]
      cases op.aOpcode.getLsbD j <;> simp
    simp only [h, fieldBits, operandBits, makeRCondTypeInst, hcond, Inst.cond]
    rw [BitVec.or_comm _ (place 32 0 _), ← BitVec.or_assoc, hplace]
  | fpMovc fd fs rt h hd hs ht =>
    simp only [h, fieldBits, operandBits, Inst.cc, makeRCoTypeInst, makeRTypeInst,
      regs_rt_cc rt ht]
  | branchCoproc cc v h hc =>
    have hcc : ∀ cc : Byte, cc < 8 → ∀ n t : Bool, ((cc <<< 2) ||| (if n then 2 else 0) |||
        (if t then 1 else 0)) >>> 2 = cc := by decide
    simp only [h, fieldBits, operandBits, Inst.cc, makeITypeInst, Inst.rt_setImm, hcc cc hc,
      regs_cc cc hc]
  | jump target h ht =>
    have hj : op.opType = .j := by rcases h with rfl | rfl <;> rfl
    have ht' : (makeJTypeInst op target).target = target := Inst.target_setTarget _ target
    have hw := jump_word target ht
    simp only [hj, fieldBits, operandBits, ht', hw]
  | rdRsRt _ _ _ h | copreg _ _ h | rsImm _ _ h => rcases h with h | h <;> simp only [h, fieldBits]
  | imm _ _ _ h => rcases h with h | h | h | h <;> simp only [h, fieldBits]
  | noarg _ h | rdRtShamt _ _ _ h | rs _ h | rd _ h | rdRs _ _ h | rsRt _ _ h | movc _ _ _ h
  | fpFdFs _ _ h | fpFdFsFt _ _ _ h | rtImm _ _ h => simp only [h, fieldBits]

lemma setWidth_shamt (n : Byte) : (n.setWidth 5).setWidth 8 &&& 31#8 = n &&& 31#8 := by
  revert n
  decide

lemma setWidth_cc (cc : Byte) (h : cc < 8) : (cc.setWidth 5 <<< 2).setWidth 8 = cc <<< 2 := by
  revert cc
  decide

lemma isReg_cc (cc : Byte) (h : cc < 8) : IsReg (cc <<< 2) := by
  revert cc
  decide

/-- The condition code of an FP conditional move, as inst_decode reads it back. -/
lemma extract_ccBits (rt : Byte) :
    ((ccBits (rt >>> 2)).extractLsb' 16 5).setWidth 8 = rt &&& 0x1c := by
  revert rt
  decide

lemma and_eq_self_iff (rt : Byte) (h : IsReg rt) : rt &&& 0x1c = rt ↔ rt &&& 3 = 0 := by
  revert rt
  decide

/-- Once its row is found, an assembled instruction is read back up to its lost operands. -/
theorem decodeFields_instEncode {op : Opcode} {i : Inst} (ha : Assembled op i)
    (hf : RowFacts op) (hu : op ∉ Opcode.unselectedRows) :
    (decodeFields (instEncode i) op).SameFields i ↔ OperandsKept i op.opType := by
  have hz : ∀ {t : OpType}, op.opType = t → _ := fun h => extract_aOpcode hf hu h
  rw [instEncode_eq ha hf]
  cases ha with
  | noarg n h =>
    simp only [decodeFields, h, mkRInst, makeRTypeInst, Inst.SameFields, OperandsKept]
    tauto
  | rdRsRt _ _ _ h | copreg _ _ h =>
    rcases h with h | h <;>
    simp (disch := first | assumption | decide) [decodeFields, h, fieldBits, operandBits, regs,
      binRs, binRt, binRd, binReg, BitVec.extractLsb'_or, hz h, extract_place_disjoint, mkRInst,
      makeRTypeInst, makeRCoTypeInst, setWidth_reg, Inst.SameFields, OperandsKept, Inst.fs]
  | rdRtShamt _ _ _ h | rs _ h | rd _ h | rdRs _ _ h | rsRt _ _ h | fpFdFs _ _ h
  | fpFdFsFt _ _ _ h =>
    simp (disch := first | assumption | decide) [decodeFields, h, fieldBits, operandBits, regs,
      binRs, binRt, binRd, binShamt, binReg, BitVec.extractLsb'_or, hz h, extract_place_disjoint,
      mkRInst, mkCoRInst, makeRTypeInst, makeRCoTypeInst, makeRShTypeInst, setWidth_reg,
      setWidth_shamt, Inst.SameFields, OperandsKept, Inst.fs, Inst.fd, Inst.ft]
  | movc _ _ cc h hd hs hc =>
    simp (disch := first | assumption | decide) [decodeFields, h, fieldBits, operandBits, regs,
      binRs, binRt, binRd, binReg, BitVec.extractLsb'_or, hz h, extract_place_disjoint, mkRInst,
      makeRTypeInst, setWidth_reg, setWidth_cc cc hc, Inst.SameFields, OperandsKept]
  | imm _ _ v h =>
    rcases h with h | h | h | h <;>
    simp (disch := first | assumption | decide) [decodeFields, h, fieldBits, operandBits, regs,
      binRs, binRt, binReg, BitVec.extractLsb'_or, hz h, extract_place_disjoint, mkIInst,
      makeITypeInst, setWidth_reg, OperandsKept, Inst.base]
  | rtImm _ v h =>
    simp (disch := first | assumption | decide) [decodeFields, h, fieldBits, operandBits, regs,
      binRs, binRt, binReg, BitVec.extractLsb'_or, hz h, extract_place_disjoint, mkIInst,
      makeITypeInst, setWidth_reg, OperandsKept]
  | rsImm _ v h =>
    rcases h with h | h <;>
    simp (disch := first | assumption | decide) [decodeFields, h, fieldBits, operandBits, regs,
      binRs, binReg, BitVec.extractLsb'_or, hz h, extract_place_disjoint, mkIInst,
      makeITypeInst, setWidth_reg, OperandsKept]
  | fpMovc fd fs rt h hd hs ht =>
    have hcc := extract_ccBits rt
    have hlow : ∀ lo, lo+5 ≤ 18 → (ccBits (rt >>> 2)).extractLsb' lo 5 = 0#5 := fun lo h =>
      extract_place_disjoint _ lo _ (Or.inl h)
    simp (disch := first | assumption | decide) [decodeFields, h, fieldBits, regs, binRd, binRt,
      binShamt, binReg, BitVec.extractLsb'_or, hz h, extract_place_disjoint, mkRInst,
      makeRCoTypeInst, makeRTypeInst, setWidth_reg, OperandsKept, Inst.SameFields, Inst.fs,
      Inst.fd, Inst.cc, hcc, hlow]
    have hrt := and_eq_self_iff rt ht
    rintro rfl
    constructor
    · rintro ⟨h1, h2, -⟩
      exact ⟨h2, hrt.mp h1⟩
    · rintro ⟨h1, h2⟩
      exact ⟨hrt.mpr h2, h1, h1.symm⟩
  | fpCmp fs ft cc h hs ht hc =>
    simp (disch := first | assumption | decide) [decodeFields, h, fieldBits, regs, binRd, binRt,
      binShamt, binReg, BitVec.extractLsb'_or, extract_place_disjoint, mkRInst,
      makeRCondTypeInst, makeRTypeInst, setWidth_reg, OperandsKept, Inst.SameFields, Inst.fs,
      Inst.ft, Inst.fd, hf.cond h, hz h, setWidth_cc cc hc]
    constructor
    · rintro ⟨h1, h2⟩
      exact ⟨h1.symm.trans h2.symm, h2.symm⟩
    · rintro ⟨h1, h2⟩
      exact ⟨h2.trans h1.symm, h2.symm⟩
  | branchCoproc cc v h hc =>
    have hrs : ∀ w : Word, (decodeFields w op).rs = binRs w := by
      intro w
      simp only [decodeFields, h, mkIInst, Inst.rs_setImm]
    simp only [h, OperandsKept, iff_false]
    intro hsame
    have h8 := hsame.2.1
    rw [hrs] at h8
    simp (disch := decide) [fieldBits, ccBits, binRs, binReg, BitVec.extractLsb'_or, hf.coproc h,
      extract_place_disjoint, makeITypeInst] at h8
  | jump target h ht =>
    have hw : target &&& 0x3ffffff#32 = target := by
      have hm : place 32 0 (target.setWidth 26) &&& mask 32 0 26 = _ := place_and_mask 0 _
      rw [jump_word target ht] at hm
      exact hm
    have hj : op.opType = .j ∧ op.aOpcode &&& 0x3ffffff#32 = 0#32 := by
      rcases h with rfl | rfl <;> decide
    simp [decodeFields, hj.1, hj.2, fieldBits, OperandsKept, mkJInst, makeJTypeInst,
      jump_word target ht, BitVec.and_or_distrib_right, hw]

/-- What inst_decode returns for an encoded instruction depends only on the row search. -/
lemma instDecode_instEncode_eq {op : Opcode} {i : Inst} (tbl : AOpcodeTbl) (ha : Assembled op i)
    (hf : RowFacts op) : instDecode tbl (instEncode i) =
      match tbl.find (decodeKey op.aOpcode) with
      | none => mkRInst (instEncode i) none 0 0 0 0
      | some op' => decodeFields (instEncode i) op' := by
  have hk : decodeKey (instEncode i) = decodeKey op.aOpcode := by
    rw [instEncode_eq ha hf]
    exact decodeKey_or _ _ (fieldBits_and _ _ _ hf.major)
      (fun h => fieldBits_and _ _ _ (hf.cop1 h)) (fieldBits_and _ _ _ hf.key)
  cases hfind : tbl.find (decodeKey op.aOpcode) <;> simp only [instDecode, hk, hfind]

lemma opcode_decodeFields (w : Word) (op : Opcode) :
    (decodeFields w op).opcode = some op ∨ (decodeFields w op).opcode = none := by
  unfold decodeFields
  cases op.opType <;> simp [mkRInst, mkIInst, mkCoRInst, mkJInst, Inst.setTarget]

/-- The row of an executed instruction is found again exactly when `RowKept` says so. -/
lemma find_eq_iff (tbl : AOpcodeTbl) {op : Opcode} (hx : op.executed = true) (hf : RowFacts op) :
    tbl.find (decodeKey op.aOpcode) = some op ↔ RowKept tbl op := by
  constructor
  · intro h
    have hkey : decodeKey op.aOpcode = op.aOpcode := (tbl.sound _ _ h).symm
    rw [hkey] at h
    exact ⟨hf.selected.mp hkey, fun _ => h⟩
  · rintro ⟨hu, hs⟩
    rw [hf.selected.mpr hu]
    by_cases hsh : op ∈ Opcode.sharedRows
    · exact hs hsh
    · obtain ⟨op', h⟩ := Option.isSome_iff_exists.mp (tbl.complete op)
      rw [h, Opcode.eq_of_aOpcode hx hsh (tbl.sound _ _ h)]

/-- test_assembly accepts an executed instruction exactly when its row is found again and its
shape keeps its operands. -/
theorem instDecode_instEncode_iff (tbl : AOpcodeTbl) {op : Opcode} {i : Inst}
    (ha : Assembled op i) (hx : op.executed = true) :
    (instDecode tbl (instEncode i)).SameFields i ↔ RowKept tbl op ∧ OperandsKept i op.opType := by
  have hf := rowFacts hx ha.ne_cop2
  rw [instDecode_instEncode_eq tbl ha hf, ← find_eq_iff tbl hx hf]
  by_cases hfind : tbl.find (decodeKey op.aOpcode) = some op
  · have hu := ((find_eq_iff tbl hx hf).mp hfind).1
    simp only [hfind, decodeFields_instEncode ha hf hu, true_and]
  · simp only [hfind, false_and, iff_false]
    rintro ⟨hop, -⟩
    rw [ha.opcode] at hop
    cases hfo : tbl.find (decodeKey op.aOpcode) with
    | none => simp [hfo, mkRInst] at hop
    | some op' =>
      simp only [hfo] at hop
      rcases opcode_decodeFields (instEncode i) op' with h | h
      · rw [h, Option.some.injEq] at hop
        exact hfind (hop ▸ hfo)
      · simp [h] at hop

/-- Where test_assembly accepts, exactly, and that accepted instructions have distinct words. -/
theorem instEncode_invertible (tbl : AOpcodeTbl) :
    (∀ (op : Opcode) (i : Inst), Assembled op i → op.executed = true →
      ((instDecode tbl (instEncode i)).SameFields i ↔
        RowKept tbl op ∧ OperandsKept i op.opType)) ∧
    (∀ (op op' : Opcode) (i j : Inst), Assembled op i → op.executed = true →
      Assembled op' j → op'.executed = true →
      RowKept tbl op ∧ OperandsKept i op.opType → RowKept tbl op' ∧ OperandsKept j op'.opType →
      instEncode i = instEncode j → i.SameFields j) := by
  refine ⟨fun op i ha hx => instDecode_instEncode_iff tbl ha hx, ?_⟩
  intro op op' i j ha hx ha' hx' hi hj he
  have h := (instDecode_instEncode_iff tbl ha hx).mpr hi
  have h' := (instDecode_instEncode_iff tbl ha' hx').mpr hj
  rw [he] at h
  exact h.symm.trans h'

theorem instEncode_invertible_addi :
    (instDecode .first (instEncode (makeITypeInst .addi 8 9 5))).SameFields
      (makeITypeInst .addi 8 9 5) :=
  ((instEncode_invertible .first).1 .addi _
    (.imm 8 9 5 (Or.inl rfl) (by decide) (by decide)) rfl).mpr
    ⟨⟨by decide, fun h => absurd h (by decide)⟩, trivial⟩

/-- break 1 and break 2 are stored as the same word, which decodes to break 0. -/
theorem break_code_lost :
    Assembled .brk (makeRTypeInst .brk 2 0 0) ∧ Opcode.brk.executed = true ∧
      ¬ (instDecode .first (instEncode (makeRTypeInst .brk 2 0 0))).SameFields
        (makeRTypeInst .brk 2 0 0) ∧
      instEncode (makeRTypeInst .brk 1 0 0) = instEncode (makeRTypeInst .brk 2 0 0) :=
  ⟨.noarg 2 rfl, rfl, by decide +kernel, rfl⟩

end Spimulator
