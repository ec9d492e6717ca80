import Mathlib.Data.Int.Notation
import Spimulator.Library.BitField
import Spimulator.Opcode

/-! Instruction records of instruction.h, their construction by the assembler, and the two
hand-written maps between records and instruction words. -/
namespace Spimulator
open BitField

abbrev Byte := BitVec 8
abbrev Half := BitVec 16
abbrev Word := BitVec 32

/-- A node of the symbol table, named by its allocation number. -/
abbrev LabelRef := ℕ

/-- label plus or minus an offset; `bits` is positive for bits 31..16 and negative for bits 15..0. -/
structure ImmExpr where
  offset : Word
  symbol : Option LabelRef
  bits : ℤ
  pcRelative : Bool
  deriving DecidableEq, Repr

/-- The fields of an instruction. The union of instruction.h is kept as its four bytes, which
the immediate and the jump target overlay. Opcode `none` is the opcode 0 of an invalid word. -/
structure Inst where
  opcode : Option Opcode := none
  rs : Byte := 0
  rt : Byte := 0
  rd : Byte := 0
  shamt : Byte := 0
  encoding : Word := 0
  expr : Option ImmExpr := none
  deriving DecidableEq, Repr

namespace Inst

def fs (i : Inst) : Byte := i.rd
def ft (i : Inst) : Byte := i.rt
def fd (i : Inst) : Byte := i.shamt
def base (i : Inst) : Byte := i.rs
def cond (i : Inst) : Byte := i.rs
def cc (i : Inst) : Byte := i.rt >>> 2
def nd (i : Inst) : Byte := (i.rt &&& 2) >>> 1
def tf (i : Inst) : Byte := i.rt &&& 1
def ccfp (i : Inst) : Byte := i.fd >>> 2

def imm (i : Inst) : Half := i.shamt ++ i.rd
def ioffset (i : Inst) : Half := i.imm
def target (i : Inst) : Word := i.shamt ++ i.rd ++ i.rt ++ i.rs

def setImm (i : Inst) (v : Half) : Inst :=
  { i with rd := v.extractLsb' 0 8, shamt := v.extractLsb' 8 8 }
def setTarget (i : Inst) (v : Word) : Inst :=
  { i with rs := v.extractLsb' 0 8, rt := v.extractLsb' 8 8
           rd := v.extractLsb' 16 8, shamt := v.extractLsb' 24 8 }

@[simp] theorem imm_setImm (i : Inst) (v : Half) : (i.setImm v).imm = v := by
  simp only [imm, setImm]
  exact BitVec.extractLsb'_append_extractLsb' (w := 8)
@[simp] theorem target_setTarget (i : Inst) (v : Word) : (i.setTarget v).target = v := by
  simp only [target, setTarget]
  rw [BitVec.extractLsb'_append_extractLsb'_eq_extractLsb' (by rfl),
    BitVec.extractLsb'_append_extractLsb'_eq_extractLsb' (by rfl),
    BitVec.extractLsb'_append_extractLsb'_eq_extractLsb' (by rfl)]
  simp
@[simp] theorem ioffset_setImm (i : Inst) (v : Half) : (i.setImm v).ioffset = v := imm_setImm i v
@[simp] theorem opcode_setImm (i : Inst) (v : Half) : (i.setImm v).opcode = i.opcode := rfl
@[simp] theorem rs_setImm (i : Inst) (v : Half) : (i.setImm v).rs = i.rs := rfl
@[simp] theorem rt_setImm (i : Inst) (v : Half) : (i.setImm v).rt = i.rt := rfl
@[simp] theorem expr_setImm (i : Inst) (v : Half) : (i.setImm v).expr = i.expr := rfl

/-- The fields that inst_cmp compares: opcode and the four bytes of the union. -/
def SameFields (i j : Inst) : Prop :=
  i.opcode = j.opcode ∧ i.rs = j.rs ∧ i.rt = j.rt ∧ i.rd = j.rd ∧ i.shamt = j.shamt

instance (i j : Inst) : Decidable (SameFields i j) := inferInstanceAs (Decidable (_ ∧ _))

theorem SameFields.symm {i j : Inst} (h : i.SameFields j) : j.SameFields i := by
  obtain ⟨ho, hrs, hrt, hrd, hsh⟩ := h
  exact ⟨ho.symm, hrs.symm, hrt.symm, hrd.symm, hsh.symm⟩

theorem SameFields.trans {i j k : Inst} (h : i.SameFields j) (h' : j.SameFields k) :
    i.SameFields k := by
  obtain ⟨ho, hrs, hrt, hrd, hsh⟩ := h
  obtain ⟨ho', hrs', hrt', hrd', hsh'⟩ := h'
  exact ⟨ho.trans ho', hrs.trans hrs', hrt.trans hrt', hrd.trans hrd', hsh.trans hsh'⟩

theorem SameFields.imm {i j : Inst} (h : SameFields i j) : i.imm = j.imm := by
  obtain ⟨-, -, -, hd, hs⟩ := h
  simp only [Inst.imm, hd, hs]

theorem SameFields.target {i j : Inst} (h : SameFields i j) : i.target = j.target := by
  obtain ⟨-, hrs, hrt, hrd, hsh⟩ := h
  simp only [Inst.target, hrs, hrt, hrd, hsh]

@[simp] theorem sameFields_setImm (i j : Inst) (v : Half) :
    (i.setImm v).SameFields (j.setImm v) ↔ i.opcode = j.opcode ∧ i.rs = j.rs ∧ i.rt = j.rt := by
  simp [SameFields, setImm]

@[simp] theorem sameFields_setTarget (i j : Inst) (v : Word) :
    (i.setTarget v).SameFields (j.setTarget v) ↔ i.opcode = j.opcode := by
  simp [SameFields, setTarget]

end Inst

/-! Construction of instructions by the assembler. -/

def makeRTypeInst (opcode : Opcode) (rd rs rt : Byte) : Inst :=
  { opcode := some opcode, rs := rs, rt := rt, rd := rd }

def makeRCoTypeInst (opcode : Opcode) (fd fs ft : Byte) : Inst :=
  { makeRTypeInst opcode fs 0 ft with shamt := fd }

def makeRShTypeInst (opcode : Opcode) (rd rt shamt : Byte) : Inst :=
  { makeRTypeInst opcode rd 0 rt with shamt := shamt &&& 0x1f }

def condUn : Byte := 1
def condEq : Byte := 2
def condLt : Byte := 4
def condIn : Byte := 8

/-- The switch of r_cond_type_inst; other opcodes leave the field as it is. -/
def condOf : Opcode → Option Byte
  | .cEqD | .cEqS => some condEq
  | .cLeD | .cLeS => some (condIn ||| condLt ||| condEq)
  | .cLtD | .cLtS => some (condIn ||| condLt)
  | .cNgeD | .cNgeS => some (condIn ||| condLt ||| condUn)
  | .cNgleD | .cNgleS => some (condIn ||| condUn)
  | .cNglD | .cNglS => some (condIn ||| condEq ||| condUn)
  | .cNgtD | .cNgtS => some (condIn ||| condLt ||| condEq ||| condUn)
  | .cOltD | .cOltS => some condLt
  | .cOleD | .cOleS => some (condLt ||| condEq)
  | .cSeqD | .cSeqS => some (condIn ||| condEq)
  | .cSfD | .cSfS => some condIn
  | .cFD | .cFS => some 0
  | .cUeqD | .cUeqS => some (condEq ||| condUn)
  | .cUltD | .cUltS => some (condLt ||| condUn)
  | .cUleD | .cUleS => some (condLt ||| condEq ||| condUn)
  | .cUnD | .cUnS => some condUn
  | _ => none

def makeRCondTypeInst (opcode : Opcode) (fs ft cc : Byte) : Inst :=
  let i := { makeRTypeInst opcode fs 0 ft with shamt := cc <<< 2 }
  match condOf opcode with
  | some c => { i with rs := c }
  | none => i

/-- An immediate instruction once its expression has been evaluated to `v`. -/
def makeITypeInst (opcode : Opcode) (rt rs : Byte) (v : Half) : Inst :=
  { opcode := some opcode, rs := rs, rt := rt : Inst }.setImm v

def makeJTypeInst (opcode : Opcode) (target : Word) : Inst :=
  { opcode := some opcode : Inst }.setTarget target

@[simp] theorem opcode_makeRTypeInst (op : Opcode) (rd rs rt : Byte) :
    (makeRTypeInst op rd rs rt).opcode = some op := rfl
@[simp] theorem opcode_makeRCoTypeInst (op : Opcode) (fd fs ft : Byte) :
    (makeRCoTypeInst op fd fs ft).opcode = some op := rfl
@[simp] theorem opcode_makeRShTypeInst (op : Opcode) (rd rt shamt : Byte) :
    (makeRShTypeInst op rd rt shamt).opcode = some op := rfl
@[simp] theorem opcode_makeRCondTypeInst (op : Opcode) (fs ft cc : Byte) :
    (makeRCondTypeInst op fs ft cc).opcode = some op := by
  unfold makeRCondTypeInst
  cases condOf op <;> rfl
@[simp] theorem opcode_makeITypeInst (op : Opcode) (rt rs : Byte) (v : Half) :
    (makeITypeInst op rt rs v).opcode = some op := rfl
@[simp] theorem opcode_makeJTypeInst (op : Opcode) (target : Word) :
    (makeJTypeInst op target).opcode = some op := rfl

/-! Encoding. -/

def regs (r : Byte) (o : ℕ) : Word := place 32 o (r.setWidth 5)

/-- The operand bits that inst_encode adds to the row's binary opcode. -/
def operandBits (i : Inst) : OpType → Word
  | .branchCoprocCond => regs (i.cc <<< 2) 16 ||| place 32 0 i.ioffset
  | .branchRsLabel => regs i.rs 21 ||| place 32 0 i.ioffset
  | .rsImm => regs i.rs 21 ||| place 32 0 i.imm
  | .rtImm => regs i.rs 21 ||| regs i.rt 16 ||| place 32 0 i.imm
  | .rtRsImm | .branchRsRtLabel => regs i.rs 21 ||| regs i.rt 16 ||| place 32 0 i.imm
  | .rtAddr => regs i.base 21 ||| regs i.rt 16 ||| place 32 0 i.ioffset
  | .rs => regs i.rs 21
  | .rd => regs i.rd 11
  | .rtCopreg => regs i.rt 16 ||| regs i.rd 11
  | .rsRt => regs i.rs 21 ||| regs i.rt 16
  | .rdRs => regs i.rs 21 ||| regs i.rd 11
  | .rdRtShamt => regs i.rt 16 ||| regs i.rd 11 ||| regs i.shamt 6
  | .rdRsRt => regs i.rs 21 ||| regs i.rt 16 ||| regs i.rd 11
  | .rdRtRs => regs i.rs 21 ||| regs i.rt 16 ||| regs i.rd 11
  | .fpFtAddr => regs i.base 21 ||| regs i.rt 16 ||| place 32 0 i.ioffset
  | .fpFdFs => regs i.fs 11 ||| regs i.fd 6
  | .fpRtCopreg => regs i.rt 16 ||| regs i.fs 11
  | .fpCmpFsFt => regs i.ft 16 ||| regs i.fs 11 ||| regs i.fd 6 ||| place 32 0 i.cond
  | .fpFdFsFt => regs i.ft 16 ||| regs i.fs 11 ||| regs i.fd 6
  | .movc => regs i.rs 21 ||| regs i.rt 16 ||| regs i.rd 11
  | .fpMovc => regs i.cc 18 ||| regs i.fs 11 ||| regs i.fd 6
  | .j => i.target
  | .noarg => 0
  -- inst_encode has no case for FP_FD_FR_FS_FT_INST; see `instEncode`
  | .fpFdFrFsFt => 0

/-- The word of an instruction; `none` is the fatal_error of a shape without an encoding. -/
def instEncode? (i : Inst) : Option Word :=
  match i.opcode with
  | none => some 0
  | some op => if op.opType = .fpFdFrFsFt then none else some (op.aOpcode ||| operandBits i op.opType)

def instEncode (i : Inst) : Word := (instEncode? i).getD 0

/-! Decoding. -/

/-- The part of a word that selects the row of a_opcode_tbl. -/
def decodeKey (val : Word) : Word :=
  let a := val &&& 0xfc000000
  if a = 0 ∨ a = 0x70000000 then a ||| (val &&& 0x3f)
  else if a = 0x04000000 then a ||| (val &&& 0x001f0000)
  else if a = 0x40000000 then a ||| ((val &&& 0x03e00000) ||| (val &&& 0x1f))
  else if a = 0x44000000 then
    if val &&& 0xff000000 = 0x45000000 then
      a ||| (val &&& 0x03e00000) ||| (val &&& 0x00010000)
    else a ||| (val &&& 0x03e00000) ||| (val &&& 0x3f)
  else if a = 0x48000000 ∨ a = 0x4c000000 then a ||| (val &&& 0x03e00000)
  else a

/-- A search of a_opcode_tbl by bsearch after qsort. The library leaves open which of two rows
with equal keys is found, so the search is any one that finds a row exactly when one exists. -/
structure AOpcodeTbl where
  find : Word → Option Opcode
  sound : ∀ k op, find k = some op → op.aOpcode = k
  complete : ∀ op : Opcode, (find op.aOpcode).isSome

/-- The search that prefers the earlier row of opcodes.h. -/
def AOpcodeTbl.first : AOpcodeTbl where
  find k := Opcode.all.find? (fun op => op.aOpcode == k)
  sound k op h := by simpa using List.find?_some h
  complete op := by
    rw [List.find?_isSome]
    exact ⟨op, op.mem_all, by simp⟩

def binReg (v : Word) (o : ℕ) : Byte := (v.extractLsb' o 5).setWidth 8
def binRs (v : Word) : Byte := binReg v 21
def binRt (v : Word) : Byte := binReg v 16
def binRd (v : Word) : Byte := binReg v 11
def binShamt (v : Word) : Byte := binReg v 6

def mkRInst (val : Word) (opcode : Option Opcode) (rs rt rd shamt : Byte) : Inst :=
  { opcode := opcode, rs := rs, rt := rt, rd := rd, shamt := shamt, encoding := val }

def mkCoRInst (val : Word) (opcode : Option Opcode) (fs ft fd : Byte) : Inst :=
  { opcode := opcode, rd := fs, rt := ft, shamt := fd, encoding := val }

def mkIInst (val : Word) (opcode : Option Opcode) (rs rt : Byte) (offset : Half) : Inst :=
  { opcode := opcode, rs := rs, rt := rt, encoding := val : Inst }.setImm offset

def mkJInst (val : Word) (opcode : Option Opcode) (target : Word) : Inst :=
  { opcode := opcode, encoding := val : Inst }.setTarget target

/-- The operand fields read by inst_decode for each shape. -/
def decodeFields (val : Word) (op : Opcode) : Inst :=
  match op.opType with
  | .branchCoprocCond => mkIInst val op (binRs val) (binRt val) (val.extractLsb' 0 16)
  | .branchRsLabel => mkIInst val op (binRs val) 0 (val.extractLsb' 0 16)
  | .rsImm => mkIInst val op (binRs val) 0 (val.extractLsb' 0 16)
  | .rtImm => mkIInst val op (binRs val) (binRt val) (val.extractLsb' 0 16)
  | .rtRsImm | .branchRsRtLabel => mkIInst val op (binRs val) (binRt val) (val.extractLsb' 0 16)
  | .rtAddr => mkIInst val op (binRs val) (binRt val) (val.extractLsb' 0 16)
  | .rs => mkRInst val op (binRs val) 0 0 0
  | .rd => mkRInst val op 0 0 (binRd val) 0
  | .rtCopreg => mkRInst val op 0 (binRt val) (binRd val) 0
  | .rsRt => mkRInst val op (binRs val) (binRt val) 0 0
  | .rdRs => mkRInst val op (binRs val) 0 (binRd val) 0
  | .rdRtShamt => mkRInst val op 0 (binRt val) (binRd val) (binShamt val)
  | .rdRsRt => mkRInst val op (binRs val) (binRt val) (binRd val) 0
  | .rdRtRs => mkRInst val op (binRs val) (binRt val) (binRd val) 0
  | .fpFtAddr => mkIInst val op (binRs val) (binRt val) (val.extractLsb' 0 16)
  | .fpFdFs => mkCoRInst val op (binRd val) 0 (binShamt val)
  | .fpRtCopreg => mkRInst val op 0 (binRt val) (binRd val) 0
  | .fpCmpFsFt =>
    { mkRInst val op (binRd val) (binRt val) (binShamt val) 0 with
      rs := (val.extractLsb' 0 4).setWidth 8 }
  | .fpFdFsFt => mkCoRInst val op (binRd val) (binRt val) (binShamt val)
  | .movc => mkRInst val op (binRs val) (binRt val) (binRd val) 0
  | .fpMovc => mkRInst val op (binRd val) (binRt val) (binShamt val) 0
  | .j => mkJInst val op (val &&& 0x3ffffff)
  | .noarg => mkRInst val op 0 0 0 0
  | .fpFdFrFsFt => mkRInst val none 0 0 0 0

def instDecode (tbl : AOpcodeTbl) (val : Word) : Inst :=
  match tbl.find (decodeKey val) with
  | none => mkRInst val none 0 0 0 0
  | some op => decodeFields val op

end Spimulator
