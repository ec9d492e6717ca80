import Spimulator.Memory

/-! The switch of run_spim, split in two: what each opcode asks for, computed from the registers
alone, and (in the next module) the memory accesses, exceptions and jumps that carry it out. -/
namespace Spimulator

/-- Where a jump goes, looked up after its delay slot has run. -/
inductive JumpTarget
  | addr (a : Word)
  | region (target : Word)
  | epc
  deriving DecidableEq, Repr

/-- What a case of the switch does. -/
inductive Action
  -- new register contents and nothing else
  | regs (g : Regs)
  | raise (e : ExcCode)
  | ctc1 (fs : RegNo) (v : Word)
  | load (w : Width) (addr mask : Word) (dest : LoadDest)
  | loadPart (addr : Word) (merge : Word → Word) (rt : RegNo)
  | loadDouble (addr : Word) (ft : RegNo)
  | store (w : Width) (addr v : Word)
  | storePart (addr : Word) (merge : Word → Word)
  | storeDouble (addr lo hi : Word)
  | branch (g : Regs) (test : Bool) (target : Word) (nullify : Bool)
  | jump (g : Regs) (target : JumpTarget)
  | debugBreak
  | syscall
  | halt (h : Halt)

/-! Operands. -/

namespace Inst

def simm (i : Inst) : Word := i.imm.signExtend 32
def uimm (i : Inst) : Word := i.imm.setWidth 32

/-- BRANCH_OFFSET: the shifted displacement, cut to 16 bits. -/
def branchOffset (i : Inst) : Word := (i.ioffset <<< 2).signExtend 32

end Inst

def effAddr (i : Inst) (m : Machine) : Word := m.gpr i.base + i.ioffset.signExtend 32

/-! Arithmetic. -/

def signBit (v : Word) : Bool := v.msb

/-- The product of two words as HI and LO, by halves. -/
def unsignedMultiply (v1 v2 : Word) : Word × Word :=
  let a := (v1 >>> 16) &&& 0xffff
  let b := v1 &&& 0xffff
  let c := (v2 >>> 16) &&& 0xffff
  let d := v2 &&& 0xffff
  let bd := b * d
  let ad := a * d
  let cb := c * b
  let ac := a * c
  let mid := ad + cb
  let carryMid : Word := if mid < ad ∨ mid < cb then 1 else 0
  let mid2 := mid + ((bd >>> 16) &&& 0xffff)
  let carryMid := if mid2 < mid ∨ mid2 < ((bd >>> 16) &&& 0xffff) then carryMid + 1 else carryMid
  (ac + (carryMid <<< 16) + ((mid2 >>> 16) &&& 0xffff),
    (bd &&& 0xffff) ||| ((mid2 &&& 0xffff) <<< 16))

def signedMultiply (v1 v2 : Word) : Word × Word :=
  let negSign := xor v1.msb v2.msb
  let (hi, lo) := unsignedMultiply (if v1.msb then -v1 else v1) (if v2.msb then -v2 else v2)
  if negSign then (if ~~~lo + 1 = 0 then ~~~hi + 1 else ~~~hi, ~~~lo + 1)
  else (hi, lo)

/-- HI and LO plus a product. -/
def multiplyAdd (hi lo : Word) (product : Word × Word) : Word × Word :=
  let tmp := lo + product.2
  let hi := if tmp < product.2 ∨ tmp < lo then hi + 1 else hi
  (hi + product.1, tmp)

/-- HI and LO minus a product. -/
def multiplySub (hi lo : Word) (product : Word × Word) : Word × Word :=
  let tmp := lo - product.2
  let hi := if product.2 > lo then hi - 1 else hi
  (hi - product.1, tmp)

/-- The result of a division is undefined for these operands, and HI and LO stay as they are. -/
def divUndefined (rs rt : Word) : Prop := rt = 0 ∨ (rs = 0x80000000 ∧ rt = 0xffffffff)

instance (rs rt : Word) : Decidable (divUndefined rs rt) := inferInstanceAs (Decidable (_ ∨ _))

def leadingZeros (v : Word) : Word := v.clz
def leadingOnes (v : Word) : Word := (~~~v).clz

def shiftLeft (v : Word) (shamt : Byte) : Word := if shamt < 32 then v <<< shamt.toNat else v
def shiftRight (v : Word) (shamt : Byte) : Word := if shamt < 32 then v >>> shamt.toNat else v
def shiftRightSigned (v : Word) (shamt : Byte) : Word :=
  if shamt < 32 then v.sshiftRight shamt.toNat else v

/-! Unaligned words. -/

def mergeLwl (addr reg word : Word) : Word :=
  match (addr &&& 3).toNat with
  | 0 => ((word &&& 0xff) <<< 24) ||| (reg &&& 0xffffff)
  | 1 => ((word &&& 0xffff) <<< 16) ||| (reg &&& 0xffff)
  | 2 => ((word &&& 0xffffff) <<< 8) ||| (reg &&& 0xff)
  | _ => word

def mergeLwr (addr reg word : Word) : Word :=
  match (addr &&& 3).toNat with
  | 0 => word
  | 1 => (reg &&& 0xff000000) ||| ((word &&& 0xffffff00) >>> 8)
  | 2 => (reg &&& 0xffff0000) ||| ((word &&& 0xffff0000) >>> 16)
  | _ => (reg &&& 0xffffff00) ||| ((word &&& 0xff000000) >>> 24)

def mergeSwl (addr reg data : Word) : Word :=
  match (addr &&& 3).toNat with
  | 0 => (data &&& 0xffffff00) ||| ((reg >>> 24) &&& 0xff)
  | 1 => (data &&& 0xffff0000) ||| ((reg >>> 16) &&& 0xffff)
  | 2 => (data &&& 0xff000000) ||| ((reg >>> 8) &&& 0xffffff)
  | _ => reg

def mergeSwr (addr reg data : Word) : Word :=
  match (addr &&& 3).toNat with
  | 0 => reg
  | 1 => ((reg <<< 8) &&& 0xffffff00) ||| (data &&& 0xff)
  | 2 => ((reg <<< 16) &&& 0xffff0000) ||| (data &&& 0xffff)
  | _ => ((reg <<< 24) &&& 0xff000000) ||| (data &&& 0xffffff)

/-! Floating point. -/

/-- CC_mask: the bit of FCSR that holds a condition code. -/
def ccMask (n : Byte) : Word := if n = 0 ∨ n > 7 then 1 <<< 23 else 1 <<< (25 + n.toNat - 1)

/-- SET_FCC on FCSR. -/
def Regs.setFcc (g : Regs) (n : Byte) (v : Bool) : Regs :=
  g.setFcr 31 (if v then g.fcr 31 ||| ccMask n else g.fcr 31 &&& ~~~(ccMask n))

/-- Whether set_fpu_cc sets the condition code. -/
def fpuCond (cond : Byte) (less equal unordered : Bool) : Bool :=
  (cond &&& condLt ≠ 0 && less) || (cond &&& condEq ≠ 0 && equal) ||
    (cond &&& condUn ≠ 0 && unordered)

/-- A double overlays two single registers. -/
def Regs.fprD (g : Regs) (r : RegNo) : BitVec 64 := g.fpr (r+1) ++ g.fpr r
def Regs.setFprD (g : Regs) (r : RegNo) (v : BitVec 64) : Regs :=
  (g.setFpr r (v.setWidth 32)).setFpr (r+1) (v.extractLsb' 32 32)

/-- FPR_D and SET_FPR_D give up on odd registers. -/
def evenRegs (rs : List RegNo) (a : Action) : Action :=
  if rs.any (fun r => r &&& 1 ≠ 0) then .halt .oddDouble else a

namespace Machine

def fcc (m : Machine) (n : Byte) : Byte := if m.fcsr &&& ccMask n = 0 then 0 else 1

variable (m : Machine) (i : Inst)

/-! Cases of the switch that differ only in an operation. -/

def setRd (v : Word) : Action := .regs (m.toRegs.setGpr i.rd v)
def setRt (v : Word) : Action := .regs (m.toRegs.setGpr i.rt v)
def nothing : Action := .regs m.toRegs
def trapIf (c : Prop) [Decidable c] : Action := if c then .raise .tr else m.nothing
def setHiLo (p : Word × Word) : Action := .regs { m.toRegs with hi := p.1, lo := p.2 }

def loadRt (w : Width) (mask : Word) : Action := .load w (effAddr i m) mask (.gpr i.rt)
def storeRt (w : Width) : Action := .store w (effAddr i m) (m.gpr i.rt)

def branchIf (c : Prop) [Decidable c] (nullify : Bool) : Action :=
  .branch m.toRegs (decide c) (m.pc + i.branchOffset) nullify

/-- The address that linking branches and jumps save. -/
def linkAddr (env : Env) : Word := m.pc + (if env.delayedBranches then 8 else 4)

/-- Branches that link do so before their test. -/
def branchLink (env : Env) (c : Word → Bool) (nullify : Bool) : Action :=
  let g := m.toRegs.setGpr 31 (m.linkAddr env)
  .branch g (c (g.gpr i.rs)) (m.pc + i.branchOffset) nullify

def setFdS (v : Word) : Action := .regs (m.toRegs.setFpr i.fd v)
def setFdD (v : BitVec 64) : Action := evenRegs [i.fd] (.regs (m.toRegs.setFprD i.fd v))

/-- A single operation on one and on two sources, and the same for doubles. -/
def unaryS (f : Word → Word) : Action := m.setFdS i (f (m.fpr i.fs))
def binaryS (f : Word → Word → Word) : Action := m.setFdS i (f (m.fpr i.fs) (m.fpr i.ft))
def unaryD (f : BitVec 64 → BitVec 64) : Action :=
  evenRegs [i.fs] (m.setFdD i (f (m.fprD i.fs)))
def binaryD (f : BitVec 64 → BitVec 64 → BitVec 64) : Action :=
  evenRegs [i.fs, i.ft] (m.setFdD i (f (m.fprD i.fs) (m.fprD i.ft)))

/-- Conversion of a single or a double to an integer register. -/
def toIntS (env : Env) (f : BitVec 64 → BitVec 64) : Action :=
  m.unaryS i (fun v => env.fpu.toInt (f (env.fpu.ofSingle v)))
def toIntD (env : Env) (f : BitVec 64 → BitVec 64) : Action :=
  evenRegs [i.fs] (m.setFdS i (env.fpu.toInt (f (m.fprD i.fs))))

def moveS (c : Prop) [Decidable c] : Action := if c then m.unaryS i id else m.nothing
def moveD (c : Prop) [Decidable c] : Action := if c then m.unaryD i id else m.nothing

/-- A comparison of two values. A signalling one of unordered values traps. -/
def compareFp (fpu : Fpu) (v1 v2 : BitVec 64) : Action :=
  if fpu.isNaN v1 ∨ fpu.isNaN v2 then
    if i.cond &&& condIn ≠ 0 then .raise .fpe
    else .regs (m.toRegs.setFcc i.ccfp (fpuCond i.cond false false true))
  else .regs (m.toRegs.setFcc i.ccfp (fpuCond i.cond (fpu.lt v1 v2) (fpu.eq v1 v2) false))

def compareS (fpu : Fpu) : Action :=
  m.compareFp i fpu (fpu.ofSingle (m.fpr i.fs)) (fpu.ofSingle (m.fpr i.ft))
def compareD (fpu : Fpu) : Action :=
  evenRegs [i.fs, i.ft] (m.compareFp i fpu (m.fprD i.fs) (m.fprD i.ft))

/-- mtc0, with the fields that some registers do not implement. -/
def moveToCp0 : Action :=
  let v := m.gpr i.rt
  let g := m.toRegs.setCp0 i.fs v
  .regs (match i.fs with
    | 11 => g.setCp0 13 (m.cause &&& ~~~causeIP7)
    | 12 => g.setCp0 12 ((v &&& statusMask) ||| ((statusCU &&& 0x30000000) ||| statusUM))
    | 13 => g.setCp0 13 (v &&& causeMask)
    | 16 => g.setCp0 16 (v &&& configMask)
    | _ => g)

end Machine

/-- The cases of the switch. -/
def dispatch (env : Env) (i : Inst) (m : Machine) : Action :=
  let rs := m.gpr i.rs
  let rt := m.gpr i.rt
  let fpu := env.fpu
  match i.opcode with
  | none => .halt .unknownInstruction
  | some op =>
    match op with
    | .add => if rs.saddOverflow rt then .raise .ov else m.setRd i (rs + rt)
    | .addi => if rs.saddOverflow i.simm then .raise .ov else m.setRt i (rs + i.simm)
    | .addiu => m.setRt i (rs + i.simm)
    | .addu => m.setRd i (rs + rt)
    | .and => m.setRd i (rs &&& rt)
    | .andi => m.setRt i (rs &&& i.uimm)
    | .bc2f | .bc2fl | .bc2t | .bc2tl => .raise .cpU
    | .beq => m.branchIf i (rs = rt) false
    | .beql => m.branchIf i (rs = rt) true
    | .bgez => m.branchIf i (signBit rs = false) false
    | .bgezl => m.branchIf i (signBit rs = false) true
    | .bgezal => m.branchLink i env (fun v => !signBit v) false
    | .bgezall => m.branchLink i env (fun v => !signBit v) true
    | .bgtz => m.branchIf i (rs ≠ 0 ∧ signBit rs = false) false
    | .bgtzl => m.branchIf i (rs ≠ 0 ∧ signBit rs = false) true
    | .blez => m.branchIf i (rs = 0 ∨ signBit rs = true) false
    | .blezl => m.branchIf i (rs = 0 ∨ signBit rs = true) true
    | .bltz => m.branchIf i (signBit rs = true) false
    | .bltzl => m.branchIf i (signBit rs = true) true
    | .bltzal => m.branchLink i env signBit false
    | .bltzall => m.branchLink i env signBit true
    | .bne => m.branchIf i (rs ≠ rt) false
    | .bnel => m.branchIf i (rs ≠ rt) true
    | .brk => if i.rd = 1 then .debugBreak else .raise .bp
    | .cache => m.nothing
    | .cfc0 => m.setRt i (m.cp0Control i.rd)
    | .cfc2 => .raise .cpU
    | .clo => m.setRd i (leadingOnes rs)
    | .clz => m.setRd i (leadingZeros rs)
    | .cop2 => .raise .cpU
    | .ctc0 => .regs { m.toRegs with cp0Control := Function.update m.cp0Control i.rd rt }
    | .ctc2 => .raise .cpU
    | .div => if divUndefined rs rt then m.nothing else m.setHiLo (rs.srem rt, rs.sdiv rt)
    | .divu => if divUndefined rs rt then m.nothing else m.setHiLo (rs % rt, rs / rt)
    | .eret => .jump (m.toRegs.setCp0 12 (m.status &&& ~~~statusEXL)) .epc
    | .j => .jump m.toRegs (.region i.target)
    | .jal => .jump (m.toRegs.setGpr 31 (m.linkAddr env)) (.region i.target)
    | .jalr => .jump (m.toRegs.setGpr i.rd (m.linkAddr env)) (.addr rs)
    | .jr => .jump m.toRegs (.addr rs)
    | .lb => m.loadRt i .byte 0xffffffff
    | .lbu => m.loadRt i .byte 0xff
    | .lh => m.loadRt i .half 0xffffffff
    | .lhu => m.loadRt i .half 0xffff
    | .ll => m.loadRt i .word 0xffffffff
    | .lui => m.setRt i (i.uimm <<< 16)
    | .lw => m.loadRt i .word 0xffffffff
    | .ldc2 | .lwc2 => .raise .cpU
    | .lwl => .loadPart (effAddr i m) (mergeLwl (effAddr i m) rt) i.rt
    | .lwr => .loadPart (effAddr i m) (mergeLwr (effAddr i m) rt) i.rt
    | .madd => m.setHiLo (multiplyAdd m.hi m.lo (signedMultiply rs rt))
    | .maddu => m.setHiLo (multiplyAdd m.hi m.lo (unsignedMultiply rs rt))
    | .mfc0 => m.setRt i (m.cp0 i.fs)
    | .mfc2 => .raise .cpU
    | .mfhi => m.setRd i m.hi
    | .mflo => m.setRd i m.lo
    | .movn => if rt ≠ 0 then m.setRd i rs else m.nothing
    | .movz => if rt = 0 then m.setRd i rs else m.nothing
    | .msub => m.setHiLo (multiplySub m.hi m.lo (signedMultiply rs rt))
    | .msubu => m.setHiLo (multiplySub m.hi m.lo (unsignedMultiply rs rt))
    | .mtc0 => m.moveToCp0 i
    | .mtc2 => .raise .cpU
    | .mthi => .regs { m.toRegs with hi := rs }
    | .mtlo => .regs { m.toRegs with lo := rs }
    | .mul =>
      let p := signedMultiply rs rt
      .regs ({ m.toRegs with hi := p.1, lo := p.2 }.setGpr i.rd p.2)
    | .mult => m.setHiLo (signedMultiply rs rt)
    | .multu => m.setHiLo (unsignedMultiply rs rt)
    | .nor => m.setRd i (~~~(rs ||| rt))
    | .or => m.setRd i (rs ||| rt)
    | .ori => m.setRt i (rs ||| i.uimm)
    | .pref => m.nothing
    | .rfe => .raise .ri
    | .sb => m.storeRt i .byte
    | .sc => m.storeRt i .word
    | .sdc2 => .raise .cpU
    | .sh => m.storeRt i .half
    | .sll => m.setRd i (shiftLeft rt i.shamt)
    | .sllv => m.setRd i (shiftLeft rt ((rs &&& 0x1f).setWidth 8))
    | .slt => m.setRd i (if rs.slt rt then 1 else 0)
    | .slti => m.setRt i (if rs.slt i.simm then 1 else 0)
    | .sltiu => m.setRt i (if rs < i.simm then 1 else 0)
    | .sltu => m.setRd i (if rs < rt then 1 else 0)
    | .sra => m.setRd i (shiftRightSigned rt i.shamt)
    | .srav => m.setRd i (shiftRightSigned rt ((rs &&& 0x1f).setWidth 8))
    | .srl => m.setRd i (shiftRight rt i.shamt)
    | .srlv => m.setRd i (shiftRight rt ((rs &&& 0x1f).setWidth 8))
    | .sub => if rs.ssubOverflow rt then .raise .ov else m.setRd i (rs - rt)
    | .subu => m.setRd i (rs - rt)
    | .sw => m.storeRt i .word
    | .swc2 => .raise .cpU
    | .swl => .storePart (effAddr i m) (mergeSwl (effAddr i m) rt)
    | .swr => .storePart (effAddr i m) (mergeSwr (effAddr i m) rt)
    | .sync => m.nothing
    | .syscall => .syscall
    | .teq => m.trapIf (rs = rt)
    | .teqi => m.trapIf (rs = i.simm)
    | .tge => m.trapIf (rt.sle rs)
    | .tgei => m.trapIf (i.simm.sle rs)
    | .tgeiu => m.trapIf (i.simm ≤ rs)
    | .tgeu => m.trapIf (rt ≤ rs)
    | .tlbp | .tlbr | .tlbwi | .tlbwr => .raise .ri
    | .tlt => m.trapIf (rs.slt rt)
    | .tlti => m.trapIf (rs.slt i.simm)
    | .tltiu => m.trapIf (rs < i.simm)
    | .tltu => m.trapIf (rs < rt)
    | .tne => m.trapIf (rs ≠ rt)
    | .tnei => m.trapIf (rs ≠ i.simm)
    | .xor => m.setRd i (rs ^^^ rt)
    | .xori => m.setRt i (rs ^^^ i.uimm)
    -- FPA operations
    | .absS => m.unaryS i (fun v => fpu.toSingle (fpu.fabs (fpu.ofSingle v)))
    | .absD => m.unaryD i fpu.fabs
    | .addS => m.binaryS i fpu.addS
    | .addD => m.binaryD i fpu.add
    | .bc1f | .bc1fl | .bc1t | .bc1tl => m.branchIf i (m.fcc i.cc = i.tf) (i.nd ≠ 0)
    | .cFS | .cUnS | .cEqS | .cUeqS | .cOltS | .cOleS | .cUltS | .cUleS | .cSfS | .cNgleS
    | .cSeqS | .cNglS | .cLtS | .cNgeS | .cLeS | .cNgtS => m.compareS i fpu
    | .cFD | .cUnD | .cEqD | .cUeqD | .cOltD | .cOleD | .cUltD | .cUleD | .cSfD | .cNgleD
    | .cSeqD | .cNglD | .cLtD | .cNgeD | .cLeD | .cNgtD => m.compareD i fpu
    | .cfc1 => m.setRt i (m.fcr i.fs)
    | .ctc1 => .ctc1 i.fs rt
    | .ceilWD => m.toIntD i env fpu.ceil
    | .ceilWS => m.toIntS i env fpu.ceil
    | .cvtDS => m.setFdD i (fpu.ofSingle (m.fpr i.fs))
    | .cvtDW => m.setFdD i (fpu.ofInt (m.fpr i.fs))
    | .cvtSD => evenRegs [i.fs] (m.setFdS i (fpu.toSingle (m.fprD i.fs)))
    | .cvtSW => m.unaryS i fpu.ofIntSingle
    | .cvtWD => m.toIntD i env id
    | .cvtWS => m.toIntS i env id
    | .divS => m.binaryS i fpu.divS
    | .divD => m.binaryD i fpu.div
    | .floorWD => m.toIntD i env fpu.floor
    | .floorWS => m.toIntS i env fpu.floor
    | .ldc1 => .loadDouble (effAddr i m) i.ft
    | .lwc1 => .load .word (effAddr i m) 0xffffffff (.fpr i.ft)
    | .mfc1 => m.setRt i (m.fpr i.fs)
    | .movS => m.unaryS i id
    | .movD => m.unaryD i id
    | .movf => if m.fcc i.cc = 0 then m.setRd i rs else m.nothing
    | .movfD => m.moveD i (m.fcc i.cc = 0)
    | .movfS => m.moveS i (m.fcc i.cc = 0)
    | .movnD => m.moveD i (rt ≠ 0)
    | .movnS => m.moveS i (rt ≠ 0)
    | .movt => if m.fcc i.cc ≠ 0 then m.setRd i rs else m.nothing
    | .movtD => m.moveD i (m.fcc i.cc ≠ 0)
    | .movtS => m.moveS i (m.fcc i.cc ≠ 0)
    | .movzD => m.moveD i (rt = 0)
    | .movzS => m.moveS i (rt = 0)
    | .mtc1 => .regs (m.toRegs.setFpr i.fs rt)
    | .mulS => m.binaryS i fpu.mulS
    | .mulD => m.binaryD i fpu.mul
    | .negS => m.unaryS i fpu.negS
    | .negD => m.unaryD i fpu.neg
    | .roundWD => m.toIntD i env fpu.addHalf
    | .roundWS => m.toIntS i env fpu.addHalf
    | .sdc1 => evenRegs [i.rt] (.storeDouble (effAddr i m) (m.fpr i.rt) (m.fpr (i.rt+1)))
    | .sqrtD => m.unaryD i fpu.sqrt
    | .sqrtS => m.unaryS i (fun v => fpu.toSingle (fpu.sqrt (fpu.ofSingle v)))
    | .subS => m.binaryS i fpu.subS
    | .subD => m.binaryD i fpu.sub
    | .swc1 => .store .word (effAddr i m) (m.fpr i.rt)
    | .truncWD => m.toIntD i env id
    | .truncWS => m.toIntS i env id
    | _ => .halt .unknownInstruction

end Spimulator
