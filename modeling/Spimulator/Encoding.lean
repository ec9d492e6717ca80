import Mathlib.Data.List.Sort
import Spimulator.Instruction

/-! Which instructions survive inst_encode followed by inst_decode, the check that
test_assembly makes. -/
namespace Spimulator
open BitField

def opcodeIsNullifiedBranch : Opcode → Bool
  | .bc1fl | .bc1tl | .bc2fl | .bc2tl | .beql | .bgezall | .bgezl | .bgtzl | .blezl | .bltzall
  | .bltzl | .bnel => true
  | _ => false

def opcodeIsTrueBranch : Opcode → Bool
  | .bc1t | .bc1tl | .bc2t | .bc2tl => true
  | _ => false

/-- A register number, or a condition code shifted left by two. -/
def IsReg (r : Byte) : Prop := r < 32

instance (r : Byte) : Decidable (IsReg r) := inferInstanceAs (Decidable (r < 32))

/-- The instructions the assembler stores for an opcode. For each operand shape, the builder
call that the parser makes for it, with register, shift and condition-code numbers within
their widths. -/
inductive Assembled (op : Opcode) : Inst → Prop
  | noarg (n : Byte) (h : op.opType = .noarg) : Assembled op (makeRTypeInst op n 0 0)
  | rdRsRt (rd rs rt : Byte) (h : op.opType = .rdRsRt ∨ op.opType = .rdRtRs)
      (hd : IsReg rd) (hs : IsReg rs) (ht : IsReg rt) : Assembled op (makeRTypeInst op rd rs rt)
  | rdRtShamt (rd rt shamt : Byte) (h : op.opType = .rdRtShamt)
      (hd : IsReg rd) (ht : IsReg rt) : Assembled op (makeRShTypeInst op rd rt shamt)
  | rs (rs : Byte) (h : op.opType = .rs) (hs : IsReg rs) :
      Assembled op (makeRTypeInst op 0 rs 0)
  | rd (rd : Byte) (h : op.opType = .rd) (hd : IsReg rd) :
      Assembled op (makeRTypeInst op rd 0 0)
  | rdRs (rd rs : Byte) (h : op.opType = .rdRs) (hd : IsReg rd) (hs : IsReg rs) :
      Assembled op (makeRTypeInst op rd rs 0)
  | rsRt (rs rt : Byte) (h : op.opType = .rsRt) (hs : IsReg rs) (ht : IsReg rt) :
      Assembled op (makeRTypeInst op 0 rs rt)
  | copreg (copreg rt : Byte) (h : op.opType = .rtCopreg ∨ op.opType = .fpRtCopreg)
      (hd : IsReg copreg) (ht : IsReg rt) : Assembled op (makeRCoTypeInst op 0 copreg rt)
  | movc (rd rs cc : Byte) (h : op.opType = .movc)
      (hd : IsReg rd) (hs : IsReg rs) (hc : cc < 8) : Assembled op (makeRTypeInst op rd rs (cc <<< 2))
  | fpFdFs (fd fs : Byte) (h : op.opType = .fpFdFs)
      (hd : IsReg fd) (hs : IsReg fs) : Assembled op (makeRCoTypeInst op fd fs 0)
  | fpFdFsFt (fd fs ft : Byte) (h : op.opType = .fpFdFsFt)
      (hd : IsReg fd) (hs : IsReg fs) (ht : IsReg ft) : Assembled op (makeRCoTypeInst op fd fs ft)
  | fpMovc (fd fs rt : Byte) (h : op.opType = .fpMovc)
      (hd : IsReg fd) (hs : IsReg fs) (ht : IsReg rt) : Assembled op (makeRCoTypeInst op fd fs rt)
  | fpCmp (fs ft cc : Byte) (h : op.opType = .fpCmpFsFt)
      (hs : IsReg fs) (ht : IsReg ft) (hc : cc < 8) : Assembled op (makeRCondTypeInst op fs ft cc)
  | imm (rt rs : Byte) (v : Half)
      (h : op.opType = .rtRsImm ∨ op.opType = .branchRsRtLabel ∨ op.opType = .rtAddr ∨
        op.opType = .fpFtAddr)
      (ht : IsReg rt) (hs : IsReg rs) : Assembled op (makeITypeInst op rt rs v)
  | rtImm (rt : Byte) (v : Half) (h : op.opType = .rtImm) (ht : IsReg rt) :
      Assembled op (makeITypeInst op rt 0 v)
  | rsImm (rs : Byte) (v : Half)
      (h : op.opType = .rsImm ∨ op.opType = .branchRsLabel) (hs : IsReg rs) :
      Assembled op (makeITypeInst op 0 rs v)
  | branchCoproc (cc : Byte) (v : Half) (h : op.opType = .branchCoprocCond) (hc : cc < 8) :
      Assembled op (makeITypeInst op ((cc <<< 2) |||
        (if opcodeIsNullifiedBranch op then 2 else 0) |||
        (if opcodeIsTrueBranch op then 1 else 0)) 0 v)
  -- parse_j emits only j and jal with a label
  | jump (target : Word) (h : op = .j ∨ op = .jal) (ht : target < 0x4000000) :
      Assembled op (makeJTypeInst op target)

theorem Assembled.opcode {op : Opcode} {i : Inst} (ha : Assembled op i) : i.opcode = some op := by
  cases ha <;> simp

/-! Two rows of opcodes.h share an encoding only in the six pairs listed here. -/

namespace Opcode

/-- One row of each pair of rows with equal encodings. -/
def twins : List Opcode := [.prefx, .suxc1, .ldxc1, .lwxc1, .roundLS, .sdxc1]

def keys : List ℕ := (all.filter (fun op => op ∉ twins)).map (fun op => op.aOpcode.toNat)

set_option maxRecDepth 100000 in
lemma sorted_keys : (keys.insertionSort (· ≤ ·)).IsChain (· < ·) := by decide +kernel

lemma nodup_keys : keys.Nodup := by
  have h := (List.isChain_iff_pairwise.mp sorted_keys).imp (fun h => Nat.ne_of_lt h)
  exact (List.perm_insertionSort _ keys).nodup_iff.mp h

lemma aOpcode_inj {op op' : Opcode} (h : op ∉ twins) (h' : op' ∉ twins)
    (ha : op.aOpcode = op'.aOpcode) : op = op' := by
  have mem : ∀ o : Opcode, o ∉ twins → o ∈ all.filter (fun o => o ∉ twins) := fun o ho =>
    List.mem_filter.mpr ⟨o.mem_all, by simpa using ho⟩
  exact List.inj_on_of_nodup_map nodup_keys (mem op h) (mem op' h') (congrArg BitVec.toNat ha)

/-- The executed rows that share their encoding with a row that run_spim rejects. -/
def sharedRows : List Opcode := [.floorWS, .truncWS]

/-- The executed rows whose encoding has bits that inst_decode does not look at. -/
def unselectedRows : List Opcode :=
  [.bc1fl, .bc1tl, .bc2fl, .bc2t, .bc2tl, .movt, .movtD, .movtS]

lemma twin_partner : ∀ t ∈ twins, t.executed = false ∧
    ∃ p ∉ twins, t.aOpcode = p.aOpcode ∧ (p.executed = true → p ∈ sharedRows) := by
  intro t ht
  simp only [twins, List.mem_cons, List.not_mem_nil, or_false] at ht
  rcases ht with rfl | rfl | rfl | rfl | rfl | rfl
  · exact ⟨rfl, .floorWS, by decide, rfl, by decide⟩
  · exact ⟨rfl, .truncWS, by decide, rfl, by decide⟩
  · exact ⟨rfl, .maddD, by decide, rfl, by decide⟩
  · exact ⟨rfl, .maddS, by decide, rfl, by decide⟩
  · exact ⟨rfl, .swxc1, by decide, rfl, by decide⟩
  · exact ⟨rfl, .truncLS, by decide, rfl, by decide⟩

/-- An executed row outside the shared ones is the only row with its encoding. -/
lemma eq_of_aOpcode {op op' : Opcode} (hx : op.executed = true) (hs : op ∉ sharedRows)
    (ha : op'.aOpcode = op.aOpcode) : op' = op := by
  have hop : op ∉ twins := fun ht => by simp [(twin_partner op ht).1] at hx
  by_cases ht : op' ∈ twins
  · obtain ⟨-, p, hp, hpa, hpx⟩ := twin_partner op' ht
    have hpo : p = op := aOpcode_inj hp hop (hpa.symm.trans ha)
    subst hpo
    exact absurd (hpx hx) hs
  · exact aOpcode_inj ht hop ha

end Opcode

/-! The key of an encoded instruction. -/

/-- The bits of a word that decodeKey keeps. -/
def keyMask (val : Word) : Word :=
  let a := val &&& 0xfc000000
  if a = 0 ∨ a = 0x70000000 then 0xfc00003f
  else if a = 0x04000000 then 0xfc1f0000
  else if a = 0x40000000 then 0xffe0001f
  else if a = 0x44000000 then
    if val &&& 0xff000000 = 0x45000000 then 0xffe10000 else 0xffe0003f
  else if a = 0x48000000 ∨ a = 0x4c000000 then 0xffe00000
  else 0xfc000000

lemma decodeKey_eq (val : Word) : decodeKey val = val &&& keyMask val := by
  unfold decodeKey keyMask
  simp only
  split_ifs <;> simp only [← BitVec.and_or_distrib_left] <;> rfl

lemma keyMask_or (a f : Word) (hf : f &&& 0xfc000000#32 = 0#32)
    (hc : a &&& 0xfc000000#32 = 0x44000000#32 → f &&& 0xff000000#32 = 0#32) :
    keyMask (a ||| f) = keyMask a := by
  have h : (a ||| f) &&& 0xfc000000#32 = a &&& 0xfc000000#32 := by
    rw [BitVec.and_or_distrib_right, hf, BitVec.or_zero]
  simp only [keyMask, BitVec.ofNat_eq_ofNat, h]
  by_cases h1 : a &&& 0xfc000000#32 = 0x44000000#32
  · rw [BitVec.and_or_distrib_right, hc h1, BitVec.or_zero]
  · simp only [h1, if_false]

/-- Operands outside the key of a row do not change the key. -/
theorem decodeKey_or (a f : Word) (hf : f &&& 0xfc000000#32 = 0#32)
    (hc : a &&& 0xfc000000#32 = 0x44000000#32 → f &&& 0xff000000#32 = 0#32)
    (hk : f &&& keyMask a = 0#32) : decodeKey (a ||| f) = decodeKey a := by
  rw [decodeKey_eq, decodeKey_eq, keyMask_or a f hf hc, BitVec.and_or_distrib_right, hk,
    BitVec.or_zero]

/-- The bits that the operands of an assembled instruction may set. The condition of a
floating-point comparison is part of its row. -/
def operandMask : OpType → Word
  | .branchCoprocCond => 0x001cffff
  | .branchRsLabel | .rsImm => 0x03e0ffff
  | .rtImm | .rtRsImm | .branchRsRtLabel | .rtAddr | .fpFtAddr | .j => 0x03ffffff
  | .rs => 0x03e00000
  | .rd => 0x0000f800
  | .rtCopreg | .fpRtCopreg => 0x001ff800
  | .rsRt => 0x03ff0000
  | .rdRs => 0x03e0f800
  | .rdRtShamt | .fpCmpFsFt | .fpFdFsFt | .fpMovc => 0x001fffc0
  | .rdRsRt | .rdRtRs | .movc => 0x03fff800
  | .fpFdFs => 0x0000ffc0
  | .noarg | .fpFdFrFsFt => 0

/-- What the round trip needs to know of a row of opcodes.h. -/
structure RowFacts (op : Opcode) : Prop where
  encodable : op.opType ≠ .fpFdFrFsFt
  major : operandMask op.opType &&& 0xfc000000#32 = 0#32
  cop1 : op.aOpcode &&& 0xfc000000#32 = 0x44000000#32 →
    operandMask op.opType &&& 0xff000000#32 = 0#32
  key : operandMask op.opType &&& keyMask op.aOpcode = 0#32
  clear : op ∉ Opcode.unselectedRows → op.aOpcode &&& operandMask op.opType = 0#32
  coproc : op.opType = .branchCoprocCond → op.aOpcode.extractLsb' 21 5 = 8#5
  cond : op.opType = .fpCmpFsFt → condOf op = some ((op.aOpcode.extractLsb' 0 4).setWidth 8)
  selected : decodeKey op.aOpcode = op.aOpcode ↔ op ∉ Opcode.unselectedRows

instance (op : Opcode) : Decidable (RowFacts op) :=
  decidable_of_iff (_ ∧ _ ∧ _ ∧ _ ∧ _ ∧ _ ∧ _ ∧ _)
    ⟨fun ⟨a, b, c, d, e, f, g, h⟩ => ⟨a, b, c, d, e, f, g, h⟩,
      fun ⟨a, b, c, d, e, f, g, h⟩ => ⟨a, b, c, d, e, f, g, h⟩⟩

set_option maxRecDepth 100000 in
lemma rowFacts_all : ∀ op ∈ Opcode.all, op.executed = true → op ≠ .cop2 → RowFacts op := by
  decide +kernel

lemma rowFacts {op : Opcode} (hx : op.executed = true) (hc : op ≠ .cop2) : RowFacts op :=
  rowFacts_all op op.mem_all hx hc

/-! The operand bits as disjoint fields. -/

/-- A condition code has three bits. -/
def ccBits (cc : Byte) : Word := place 32 18 (cc.setWidth 3)

lemma regs_cc (cc : Byte) (h : cc < 8) : regs (cc <<< 2) 16 = ccBits cc := by
  revert cc
  decide

lemma regs_rt_cc (rt : Byte) (h : IsReg rt) : regs (rt >>> 2) 18 = ccBits (rt >>> 2) := by
  revert rt
  decide

/-- operandBits with the condition codes narrowed to their three bits, and without the
condition of a comparison, which the row already has. -/
def fieldBits (i : Inst) : OpType → Word
  | .branchCoprocCond => ccBits i.cc ||| place 32 0 i.ioffset
  | .fpCmpFsFt => regs i.ft 16 ||| regs i.fs 11 ||| regs i.fd 6
  | .fpMovc => ccBits i.cc ||| regs i.fs 11 ||| regs i.fd 6
  | .j => place 32 0 (i.target.setWidth 26)
  | t => operandBits i t

lemma fieldBits_and (i : Inst) (t : OpType) (k : Word) (hk : operandMask t &&& k = 0#32) :
    fieldBits i t &&& k = 0#32 := by
  have field : ∀ {n : ℕ} (lo : ℕ) (x : BitVec n),
      mask 32 lo n &&& operandMask t = mask 32 lo n → place 32 lo x &&& k = 0#32 := by
    intro n lo x h
    apply place_and
    rw [← h, BitVec.and_assoc, hk, BitVec.and_zero]
  cases t <;> simp only [fieldBits, operandBits, regs, ccBits, BitVec.and_or_distrib_right] <;>
    simp (disch := decide) [field]


lemma extract_aOpcode {op : Opcode} {t : OpType} (hf : RowFacts op)
    (hu : op ∉ Opcode.unselectedRows) (ht : op.opType = t) (lo n : ℕ) (hn : lo+n ≤ 32)
    (hm : operandMask t &&& mask 32 lo n = mask 32 lo n) :
    op.aOpcode.extractLsb' lo n = 0#n := by
  subst ht
  exact extract_of_and_mask lo _ _ hn (hf.clear hu) hm

lemma setWidth_reg (r : Byte) (h : IsReg r) : (r.setWidth 5).setWidth 8 = r := by
  revert r
  decide

lemma Assembled.ne_cop2 {op : Opcode} {i : Inst} (ha : Assembled op i) : op ≠ .cop2 := by
  rintro rfl
  cases ha <;> simp_all [Opcode.opType, Opcode.row]

end Spimulator
