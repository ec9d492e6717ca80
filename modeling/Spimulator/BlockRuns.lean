import Spimulator.CodeRun
import Spimulator.NodeCode

/-! Runs of the short sequences that pseudo-ops expand to. -/
namespace Spimulator
open Frame CodeBlock

/-! One instruction. -/

section

variable {env : Env} {i : Inst} {m m₁ m' : Machine} {v : Word}

theorem InstRuns.setRd (hm : m.Ready) (h : dispatch env i m = m.setRd i v) :
    InstRuns env i m ((m.setGpr i.rd v).goto (m.pc + 4)) :=
  .regs hm h

theorem InstRuns.setRt (hm : m.Ready) (h : dispatch env i m = m.setRt i v) :
    InstRuns env i m ((m.setGpr i.rt v).goto (m.pc + 4)) :=
  .regs hm h

theorem InstRuns.branchIf {c : Prop} [Decidable c] (hm : m.Ready)
    (hb : env.delayedBranches = false) (h : dispatch env i m = m.branchIf i c false) :
    InstRuns env i m (m.goto (if c then m.pc + i.branchOffset else m.pc + 4)) := by
  simpa using InstRuns.branch hm hb h

/-- The distance that a displacement stands for. -/
def displacement (disp : Half) : Word := (disp <<< 2).signExtend 32

lemma branchOffset_make (op : Opcode) (rt rs : Byte) (disp : Half) :
    (makeITypeInst op rt rs disp).branchOffset = displacement disp := by
  simp only [Inst.branchOffset, makeITypeInst, Inst.ioffset_setImm, displacement]

variable (rd rs rt : Byte) (f : Half)

theorem beq_runs (hm : m.Ready) (hb : env.delayedBranches = false) :
    InstRuns env (makeITypeInst .beq rt rs f) m
      (m.goto (if m.gpr rs = m.gpr rt then m.pc + displacement f else m.pc + 4)) := by
  rw [← branchOffset_make .beq rt rs f]
  exact .branchIf hm hb rfl

theorem bne_runs (hm : m.Ready) (hb : env.delayedBranches = false) :
    InstRuns env (makeITypeInst .bne rt rs f) m
      (m.goto (if m.gpr rs ≠ m.gpr rt then m.pc + displacement f else m.pc + 4)) := by
  rw [← branchOffset_make .bne rt rs f]
  exact .branchIf hm hb rfl

lemma uimm_make (op : Opcode) : (makeITypeInst op rt rs f).uimm = f.setWidth 32 := by
  simp only [Inst.uimm, makeITypeInst, Inst.imm_setImm]

lemma simm_make (op : Opcode) : (makeITypeInst op rt rs f).simm = f.signExtend 32 := by
  simp only [Inst.simm, makeITypeInst, Inst.imm_setImm]

theorem ori_runs (hm : m.Ready) : InstRuns env (makeITypeInst .ori rt rs f) m
    ((m.setGpr rt (m.gpr rs ||| f.setWidth 32)).goto (m.pc + 4)) := by
  rw [← uimm_make rs rt f .ori]
  exact .setRt hm rfl

theorem lui_runs (hm : m.Ready) : InstRuns env (makeITypeInst .lui rt rs f) m
    ((m.setGpr rt (f.setWidth 32 <<< 16)).goto (m.pc + 4)) := by
  rw [← uimm_make rs rt f .lui]
  exact .setRt hm rfl

/-- An order of words, as the comparisons of the processor have it. -/
inductive Order
  | signed | unsigned
  deriving DecidableEq, Repr

namespace Order

def lt : Order → Word → Word → Bool
  | signed, a, b => a.slt b
  | unsigned, a, b => a.ult b

def opcode : Order → Opcode
  | signed => .slt
  | unsigned => .sltu

def immOpcode : Order → Opcode
  | signed => .slti
  | unsigned => .sltiu

lemma ite_unsigned (a b x y : Word) :
    (if unsigned.lt a b then x else y) = if a < b then x else y :=
  if_congr BitVec.ult_iff_lt rfl rfl

end Order

theorem slt_runs (o : Order) (hm : m.Ready) : InstRuns env (makeRTypeInst o.opcode rd rs rt) m
    ((m.setGpr rd (if o.lt (m.gpr rs) (m.gpr rt) then 1 else 0)).goto (m.pc + 4)) := by
  cases o with
  | signed => exact .setRd hm rfl
  | unsigned =>
    rw [Order.ite_unsigned]
    exact .setRd hm rfl

theorem slti_runs (o : Order) (hm : m.Ready) : InstRuns env (makeITypeInst o.immOpcode rt rs f) m
    ((m.setGpr rt (if o.lt (m.gpr rs) (f.signExtend 32) then 1 else 0)).goto (m.pc + 4)) := by
  rw [← simm_make rs rt f o.immOpcode]
  cases o with
  | signed => exact .setRt hm rfl
  | unsigned =>
    rw [Order.ite_unsigned]
    exact .setRt hm rfl

/-- sll $0, $0, 0 -/
theorem nop_runs (hm : m.Ready) :
    InstRuns env (makeRShTypeInst .sll 0 0 0) m (m.goto (m.pc + 4)) := by
  have h : InstRuns env (makeRShTypeInst .sll 0 0 0) m
      ((m.setGpr 0 (shiftLeft (m.gpr 0) 0)).goto (m.pc + 4)) := .setRd hm rfl
  have hz : shiftLeft (m.gpr 0) 0 = m.gpr 0 := by
    rw [hm.zero]
    rfl
  rw [hz, m.setGpr_gpr] at h
  exact h

end

/-! Halves of a word. -/

lemma low_half (v : Word) : ((v.setWidth 16 : Half).setWidth 32 : Word) = v &&& 0xffff := by
  apply BitVec.eq_of_toNat_eq
  rw [BitVec.toNat_and]
  change _ = v.toNat &&& (2^16 - 1)
  rw [Nat.and_two_pow_sub_one_eq_mod]
  simp only [BitVec.toNat_setWidth]
  omega

lemma high_half (v : Word) :
    (((v.extractLsb' 16 16 : Half).setWidth 32 : Word) <<< 16) = v &&& 0xffff0000 := by
  have hhalf : ((v.extractLsb' 16 16 : Half).setWidth 32 : Word) = v >>> 16 := by
    apply BitVec.eq_of_toNat_eq
    have hv := v.isLt
    simp only [BitVec.toNat_setWidth, BitVec.extractLsb'_toNat, BitVec.toNat_ushiftRight,
      Nat.shiftRight_eq_div_pow]
    omega
  rw [hhalf]
  exact (Alignment.and_allOnes_shiftLeft 16 v).symm

lemma halves (v : Word) : (v &&& 0xffff0000) ||| (v &&& 0xffff) = v := by
  rw [← BitVec.and_or_distrib_left]
  exact BitVec.and_allOnes

lemma zero_or_word (v : Word) : 0 ||| v = v := BitVec.zero_or
lemma or_zero_word (v : Word) : v ||| 0 = v := BitVec.or_zero

/-! Blocks. -/

namespace CodeRuns

variable {env : Env} {i : Inst} {code rest : List Inst} {m m₁ m' : Machine}

theorem next (he : InstRuns env i m m₁) (hpc : m₁.pc = m.pc + 4)
    (h : CodeRuns env m₁.pc rest m₁ m') : CodeRuns env m.pc (i :: rest) m m' := by
  rw [hpc] at h
  exact Runs.next rfl he h

theorem last (he : InstRuns env i m m₁) : CodeRuns env m.pc [i] m m₁ :=
  Runs.next rfl he .refl

/-- The first instruction skips `n` instructions of the block. -/
theorem skip (n : ℕ) (he : InstRuns env i m m₁) (hpc : m₁.pc = slot 4 m.pc (n+1))
    (hn : n ≤ rest.length) (h : CodeRuns env m₁.pc (rest.drop n) m₁ m') :
    CodeRuns env m.pc (i :: rest) m m' := by
  rw [hpc] at h
  exact Runs.skip n rfl he hn h

theorem append (h : CodeRuns env m.pc code m m₁) (hpc : m₁.pc = slot 4 m.pc code.length)
    (h' : CodeRuns env m₁.pc rest m₁ m') : CodeRuns env m.pc (code ++ rest) m m' := by
  rw [hpc] at h'
  exact Runs.append h h'

/-- Runs that leave the block end in one state. -/
theorem end_unique {start : Word} (h : CodeRuns env start code m m₁)
    (h' : CodeRuns env start code m m') (hout : ∀ k < code.length, m₁.pc ≠ slot 4 start k)
    (hout' : ∀ k < code.length, m'.pc ≠ slot 4 start k) (hshort : 4*code.length < 2^32) : m₁ = m' :=
  Runs.end_unique h h' hout hout' (fun _ _ _ _ => InstRuns.unique) (by decide) (Nat.le_of_lt hshort)

/-- The end of a block is outside it. -/
theorem end_ne {start : Word} (hshort : 4*code.length < 2^32) :
    ∀ k < code.length, slot 4 start code.length ≠ slot 4 start k := by
  intro k hk heq
  have h := slot_inj hshort (by omega) (by decide) heq
  omega

end CodeRuns

section

variable {env : Env} {m : Machine}

/-- The code of produce_immediate leaves the constant in its register; $at may change. -/
theorem produceCode_runs (rt v : Word) (hm : m.Ready) :
    ∃ a, CodeRuns env m.pc (produceCode rt v) m
      (((m.setGpr 1 a).setGpr (rt.setWidth 8) v).goto (slot 4 m.pc (produceCode rt v).length)) := by
  unfold produceCode
  split
  · rename_i hlow
    have hv : v &&& 0xffff0000 = v := by
      have h := halves v
      rwa [hlow, or_zero_word] at h
    have h : InstRuns env _ m _ := lui_runs 0 (rt.setWidth 8) (v.extractLsb' 16 16) hm
    rw [high_half, hv] at h
    refine ⟨m.gpr 1, ?_⟩
    rw [m.setGpr_gpr]
    exact .last h
  · split
    · rename_i hhigh
      have hv : v &&& 0xffff = v := by
        have h := halves v
        rwa [hhigh, zero_or_word] at h
      have h : InstRuns env _ m _ := ori_runs 0 (rt.setWidth 8) (v.setWidth 16) hm
      rw [hm.zero, zero_or_word, low_half, hv] at h
      refine ⟨m.gpr 1, ?_⟩
      rw [m.setGpr_gpr]
      exact .last h
    · refine ⟨v &&& 0xffff0000, ?_⟩
      have hlui : InstRuns env _ m _ := lui_runs 0 1 (v.extractLsb' 16 16) hm
      rw [high_half] at hlui
      have hori : InstRuns env _ _ _ := ori_runs 1 (rt.setWidth 8) (v.setWidth 16)
        ((hm.setGpr (show (1 : Byte) ≠ 0 by decide) (v &&& 0xffff0000)).goto (m.pc + 4))
      rw [low_half, Machine.toRegs_goto, Machine.gpr_setGpr_self, halves] at hori
      refine .next hlui rfl (.last ?_)
      simpa [slot, BitVec.add_assoc] using hori

/-- Loading a constant with ori. -/
theorem constOri_runs (rt v : Word) (hm : m.Ready) :
    ∃ a, CodeRuns env m.pc (constCode .ori rt 0 v) m
      (((m.setGpr 1 a).setGpr (rt.setWidth 8) v).goto
        (slot 4 m.pc (constCode .ori rt 0 v).length)) := by
  unfold constCode
  split
  · rw [if_pos ⟨Or.inl rfl, rfl⟩]
    exact produceCode_runs rt v hm
  · rename_i hsmall
    have hhigh : v &&& 0xffff0000 = 0 := by
      simpa [immTooLarge, signExtendsImm, Opcode.isLoadStore] using hsmall
    have hv : v &&& 0xffff = v := by
      have h := halves v
      rwa [hhigh, zero_or_word] at h
    have h : InstRuns env _ m _ := ori_runs 0 (rt.setWidth 8) (v.setWidth 16) hm
    rw [hm.zero, zero_or_word, low_half, hv] at h
    refine ⟨m.gpr 1, ?_⟩
    rw [m.setGpr_gpr]
    exact .last h

/-- A constant that fits a signed field is what the field stands for. -/
lemma signExtend_small {op : Opcode} {v : Word} (hop : signExtendsImm op = true)
    (h : immTooLarge op (constImmExpr v) v = false) :
    ((v.setWidth 16 : Half).signExtend 32 : Word) = v := by
  have hmask : (v &&& 0xffff8000).toNat = v.toNat / 2^15 * 2^15 :=
    Alignment.toNat_and_allOnes_shiftLeft 15 v
  have hrange : v.toNat < 2^15 ∨ 2^32 - 2^15 ≤ v.toNat := by
    simp only [immTooLarge, hop, true_or, if_true, decide_eq_false_iff_not, not_and_or,
      not_not] at h
    rcases h with h | h
    · rw [h] at hmask
      change 0 = _ at hmask
      omega
    · rw [h] at hmask
      change 0xffff8000 = _ at hmask
      omega
  apply BitVec.eq_of_toInt_eq
  have hv := v.isLt
  rw [BitVec.toInt_signExtend_of_le (by decide), BitVec.toInt_eq_toNat_bmod,
    BitVec.toInt_eq_toNat_bmod, BitVec.toNat_setWidth, Int.bmod_def, Int.bmod_def]
  omega

lemma register_at : (1 : Word).setWidth 8 = (1 : Byte) := rfl

lemma signExtendsImm_order (o : Order) : signExtendsImm o.immOpcode = true := by
  cases o <;> rfl

/-- Comparing with a constant, in $at. -/
theorem constSlti_runs (o : Order) (rs v : Word) (hrs : rs.setWidth 8 ≠ (1 : Byte))
    (hm : m.Ready) :
    CodeRuns env m.pc (constCode o.immOpcode 1 rs v) m
      ((m.setGpr 1 (if o.lt (m.gpr (rs.setWidth 8)) v then 1 else 0)).goto
        (slot 4 m.pc (constCode o.immOpcode 1 rs v).length)) := by
  have hnot : ¬ ((o.immOpcode = .ori ∨ o.immOpcode = .addi ∨ o.immOpcode = .addiu ∨
      o.immOpcode = .lui) ∧ rs = 0) := by
    cases o <;> simp [Order.immOpcode]
  have hreg : immOpToOp o.immOpcode = some o.opcode := by cases o <;> rfl
  have hbr : o.immOpcode.isBranch = false := by cases o <;> rfl
  unfold constCode
  rw [if_neg hnot, hreg]
  split
  · obtain ⟨a, hload⟩ : ∃ a, CodeRuns env m.pc (produceCode 1 v) m _ := produceCode_runs 1 v hm
    rw [register_at, Machine.setGpr_setGpr] at hload
    refine hload.append rfl ?_
    have hat := (hm.setGpr (show (1 : Byte) ≠ 0 by decide) v).goto
      (slot 4 m.pc (produceCode 1 v).length)
    have hslt : InstRuns env _ _ _ := slt_runs 1 (rs.setWidth 8) 1 o hat
    rw [Machine.toRegs_goto, Machine.gpr_setGpr_self, Machine.gpr_setGpr_of_ne _ hrs,
      Machine.setGpr_goto, Machine.goto_goto, Machine.setGpr_setGpr, Machine.pc_goto] at hslt
    rw [List.length_append, ← slot_add]
    exact .last hslt
  · rename_i hsmall
    have h : InstRuns env _ m _ := slti_runs (rs.setWidth 8) 1 (v.setWidth 16) o hm
    rw [signExtend_small (signExtendsImm_order o) (by simpa using hsmall)] at h
    rw [constField, if_neg (by simp [hbr])]
    exact .last h

end

end Spimulator
