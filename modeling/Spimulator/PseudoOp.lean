import Spimulator.Operand

/-! Pseudo-ops: the expanders of pseudo-op.c and the operands that parser.c reads for them. -/
namespace Spimulator
open Frame

/-! Expanders. -/

def nopInst : Assemble Unit := emitRShift .sll 0 0 0
def trapInst : Assemble Unit := emitR .brk 0 0 0
def branchOffset (nInst : Word) : ImmExpr := constImmExpr (nInst <<< 2)

def opToImmOp : Opcode → Option Opcode
  | .add => some .addi
  | .addu => some .addiu
  | .and => some .andi
  | .or => some .ori
  | .xor => some .xori
  | .slt => some .slti
  | .sltu => some .sltiu
  | .sllv => some .sll
  | .srav => some .sra
  | .srlv => some .srl
  | _ => none

/-- div_inst: the quotient or the remainder, with a trap on a divisor that may be 0. -/
def divInst (op result : Opcode) (rd rs rt : Word) (constDivisor : Bool) : Assemble Unit := do
  onlyIf (rd ≠ 0 ∧ constDivisor = false) (do
    emitI .bne 0 rt (branchOffset 3)
    nopInst
    trapInst)
  emitR op 0 rs rt
  onlyIf (rd ≠ 0) (emitR result rd 0 0)

/-- mult_inst, with a trap on overflow. -/
def multInst (unsigned : Bool) (rd rs rt : Word) : Assemble Unit := do
  emitR (if unsigned then .multu else .mult) 0 rs rt
  onlyIf (rd ≠ 0) (do
    emitR .mfhi 1 0 0
    (if unsigned then emitI .beq 0 1 (branchOffset 3)
      else do
        emitR .mflo rd 0 0
        emitRShift .sra rd rd 31
        emitI .beq rd 1 (branchOffset 3) : Assemble Unit)
    nopInst
    trapInst
    emitR .mflo rd 0 0)

/-- set_le_inst and set_ge_inst: 1 where the operands are equal, else the comparison. -/
def setOrEqualInst (rd rs rt : Word) (compare : Assemble Unit) : Assemble Unit := do
  emitI .bne rs rt (branchOffset 3)
  emitI .ori rd 0 (constImmExpr 1)
  emitI .beq 0 0 (branchOffset 3)
  nopInst
  compare

def setLeInst (op : Opcode) (rd rs rt : Word) : Assemble Unit :=
  setOrEqualInst rd rs rt (emitR op rd rs rt)
def setGeInst (op : Opcode) (rd rs rt : Word) : Assemble Unit :=
  setOrEqualInst rd rs rt (emitR op rd rt rs)
def setGtInst (op : Opcode) (rd rs rt : Word) : Assemble Unit := emitR op rd rt rs

def setEqInst (ifEq ifNeq : Word) (rd rs rt : Word) : Assemble Unit := do
  emitI .beq rs rt (branchOffset 3)
  emitI .ori rd 0 (constImmExpr ifNeq)
  emitI .beq 0 0 (branchOffset 3)
  nopInst
  emitI .ori rd 0 (constImmExpr ifEq)

section

variable (env : AsmEnv)

/-! Families of pseudo-ops. -/

def parseTwoRegs (f : Word → Word → InstNode) : Assemble Unit := do
  let rd ← parseRegister env
  let rs ← parseRegister env
  appendInst (f rd rs)

/-- A rotation, by its two shifts: away and towards, of a register or of a constant. -/
def parseRotate (awayV towardsV away towards : Opcode) : Assemble Unit := do
  let rd ← parseRegister env
  let rs ← parseRegister env
  match ← takeToken env Token.asReg with
  | some rt =>
    emitR .subu 1 0 rt
    emitR awayV 1 1 rs
    emitR towardsV rd rt rs
    emitR .or rd rd 1
  | none =>
    let imm ← parseImm32 env
    let dist ← evalImmExpr imm
    checkImmRange imm 0 31
    emitRShift away 1 rs (-dist)
    emitRShift towards rd rs dist
    emitR .or rd rd 1

/-- A register, or an immediate that is put in $at unless it is 0. -/
def parseRegOrImm : Assemble Word := do
  match ← takeToken env Token.asReg with
  | some rt => pure rt
  | none =>
    let imm ← parseImm32 env
    if isZeroImm imm then pure 0
    else
      emitI .ori 1 0 imm
      pure 1

def parseSet (expand : Word → Word → Word → Assemble Unit) : Assemble Unit := do
  let rd ← parseRegister env
  let rs ← parseRegister env
  let rt ← parseRegOrImm env
  expand rd rs rt

def parseAbs : Assemble Unit := do
  let rd ← parseRegister env
  let rs ← parseRegister env
  onlyIf (rd ≠ rs) (emitR .addu rd 0 rs)
  emitI .bgez 0 rs (branchOffset 3)
  nopInst
  emitR .sub rd 0 rs

/-- The third operand of a division: a register, or an immediate other than 0. -/
def parseDivisor (op result : Opcode) (rd rs : Word) : Assemble Unit := do
  match ← takeToken env Token.asReg with
  | some rt => divInst op result rd rs rt false
  | none =>
    let imm ← parseImm32 env
    if isZeroImm imm then parseErrorAt "Divide by zero"
    else
      emitI .ori 1 0 imm
      divInst op result rd rs 1 true

def parseRem (op : Opcode) : Assemble Unit := do
  let rd ← parseRegister env
  let rs ← parseRegister env
  parseDivisor env op .mfhi rd rs

def parseMulo (unsigned : Bool) : Assemble Unit := do
  let rd ← parseRegister env
  let rs ← parseRegister env
  match ← takeToken env Token.asReg with
  | some rt => multInst unsigned rd rs rt
  | none =>
    let imm ← parseImm32 env
    if isZeroImm imm then emitI .ori rd 0 imm
    else
      emitI .ori 1 0 imm
      multInst unsigned rd rs 1

/-- mfc1.d and mtc1.d -/
def parseMoveD (op : Opcode) : Assemble Unit := do
  let reg ← parseRegister env
  let copreg ← parseCopReg env
  emitFpR op 0 copreg reg
  emitFpR op 0 (copreg + 1) (reg + 1)

def parseLiD : Assemble Unit := do
  let fd ← parseFpRegister env
  match ← takeToken env Token.asFp with
  | none => parseErrorAt "Expected FP literal"
  | some v =>
    emitI .ori 1 0 (constImmExpr (v.setWidth 32))
    emitFpR .mtc1 0 fd 1
    emitI .ori 1 0 (constImmExpr (v.extractLsb' 32 32))
    emitFpR .mtc1 0 (fd + 1) 1

def parseLiS : Assemble Unit := do
  let fd ← parseFpRegister env
  match ← takeToken env Token.asFp with
  | none => parseErrorAt "Expected FP literal"
  | some v =>
    emitI .ori 1 0 (constImmExpr (env.fpu.toSingle v))
    emitFpR .mtc1 0 fd 1

/-- A load or store of an FP register. -/
def parseFpAddr (op : Opcode) : Assemble Unit := do
  let fr ← parseFpRegister env
  let (imm, reg) ← parseAddress env
  emitI op fr reg imm

/-- A pseudo-op of a register and an address, with its expansion. -/
def parseRegAddr (expand : Word → Word → ImmExpr → Assemble Unit) : Assemble Unit := do
  let rt ← parseRegister env
  let (imm, reg) ← parseAddress env
  expand rt reg imm

/-- ld and sd: two words. -/
def expandDouble (op : Opcode) (rt reg : Word) (imm : ImmExpr) : Assemble Unit := do
  emitI op rt reg imm
  emitI op (rt + 1) reg (incrExprOffset imm 4)

/-- ulw and usw: the left part three bytes on. -/
def expandUnalignedWord (left right : Opcode) (rt reg : Word) (imm : ImmExpr) :
    Assemble Unit := do
  emitI left rt reg (incrExprOffset imm 3)
  emitI right rt reg imm

/-- ulh and ulhu -/
def expandUnalignedHalf (op : Opcode) (rt reg : Word) (imm : ImmExpr) : Assemble Unit := do
  emitI op rt reg (incrExprOffset imm 1)
  emitI .lbu 1 reg imm
  emitRShift .sll rt rt 8
  emitR .or rt rt 1

def expandUsh (rt reg : Word) (imm : ImmExpr) : Assemble Unit := do
  emitI .sb rt reg imm
  emitRShift .sll 1 rt 24
  emitRShift .srl rt rt 8
  emitR .or rt rt 1
  emitI .sb rt reg (incrExprOffset imm 1)
  emitRShift .srl 1 rt 24
  emitRShift .sll rt rt 8
  emitR .or rt rt 1

def expandLa (rt reg : Word) (imm : ImmExpr) : Assemble Unit :=
  if reg ≠ 0 then emitI .addi rt reg imm else emitI .ori rt 0 imm

def parseUnaryBranch (op : Opcode) : Assemble Unit := do
  let rs ← parseRegister env
  let target ← parseLabel env
  emitI op 0 rs target

def parseB (op : Opcode) : Assemble Unit := do
  let target ← parseLabel env
  emitI op 0 0 target

/-- A branch on a comparison, which goes to $at, of two registers or a register and an
immediate. -/
def parseCompareBranch (compareReg : Word → Word → Assemble Unit) (branchReg : Opcode)
    (compareImm : Word → ImmExpr → ImmExpr → Assemble Unit) (branchImm : Opcode) :
    Assemble Unit := do
  let rs ← parseRegister env
  match ← takeToken env Token.asReg with
  | some rt =>
    let target ← parseLabel env
    compareReg rs rt
    emitI branchReg 0 1 target
  | none =>
    let imm ← parseImm32 env
    let target ← parseLabel env
    compareImm rs imm target
    emitI branchImm 0 1 target

/-- bge, blt and their unsigned forms -/
def parseBgeBlt (op immOp branch : Opcode) : Assemble Unit :=
  parseCompareBranch env (fun rs rt => emitR op 1 rs rt) branch
    (fun rs imm _ => emitI immOp 1 rs imm) branch

/-! do_parse_pseudo -/

def doParsePseudo : PseudoOp → Assemble Unit
  | .li => do
    let rt ← parseRegister env
    let imm ← parseImm32 env
    emitI .ori rt 0 imm
  | .move => parseTwoRegs env fun rd rs => .r .addu rd 0 rs
  | .neg => parseTwoRegs env fun rd rs => .r .sub rd 0 rs
  | .negu => parseTwoRegs env fun rd rs => .r .subu rd 0 rs
  | .not => parseTwoRegs env fun rd rs => .r .nor rd rs 0
  | .ror => parseRotate env .sllv .srlv .sll .srl
  | .rol => parseRotate env .srlv .sllv .srl .sll
  | .sle => parseSet env (setLeInst .slt)
  | .sleu => parseSet env (setLeInst .sltu)
  | .sgt => parseSet env (setGtInst .slt)
  | .sgtu => parseSet env (setGtInst .sltu)
  | .sge => parseSet env (setGeInst .slt)
  | .sgeu => parseSet env (setGeInst .sltu)
  | .seq => parseSet env (setEqInst 1 0)
  | .sne => parseSet env (setEqInst 0 1)
  | .abs => parseAbs env
  | .nop => nopInst
  | .rem => parseRem env .div
  | .remu => parseRem env .divu
  | .mulo => parseMulo env false
  | .mulou => parseMulo env true
  | .mfc1D => parseMoveD env .mfc1
  | .mtc1D => parseMoveD env .mtc1
  | .liD => parseLiD env
  | .liS => parseLiS env
  | .ld_ => parseFpAddr env .ldc1
  | .ls_ => parseFpAddr env .lwc1
  | .sd_ => parseFpAddr env .sdc1
  | .ss_ => parseFpAddr env .swc1
  | .ld => parseRegAddr env (expandDouble .lw)
  | .sd => parseRegAddr env (expandDouble .sw)
  | .ulw => parseRegAddr env (expandUnalignedWord .lwl .lwr)
  | .usw => parseRegAddr env (expandUnalignedWord .swl .swr)
  | .ulh => parseRegAddr env (expandUnalignedHalf .lb)
  | .ulhu => parseRegAddr env (expandUnalignedHalf .lbu)
  | .ush => parseRegAddr env expandUsh
  | .la => parseRegAddr env expandLa
  | .beqz => parseUnaryBranch env .beq
  | .bnez => parseUnaryBranch env .bne
  | .b => parseB env .bgez
  | .bal => parseB env .bgezal
  | .bgt =>
    parseCompareBranch env (fun rs rt => emitR .slt 1 rt rs) .bne
      (fun rs imm _ => emitI .slti 1 rs (incrExprOffset imm 1)) .beq
  | .bgtu =>
    parseCompareBranch env (fun rs rt => emitR .sltu 1 rt rs) .bne
      (fun rs imm _ => do
        emitI .ori 1 0 imm
        emitI .beq rs 1 (branchOffset 3)
        emitR .sltu 1 rs 1) .beq
  | .bge => parseBgeBlt env .slt .slti .beq
  | .bgeu => parseBgeBlt env .sltu .sltiu .beq
  | .blt => parseBgeBlt env .slt .slti .bne
  | .bltu => parseBgeBlt env .sltu .sltiu .bne
  | .ble =>
    parseCompareBranch env (fun rs rt => emitR .slt 1 rt rs) .beq
      (fun rs imm _ => emitI .slti 1 rs (incrExprOffset imm 1)) .bne
  | .bleu =>
    parseCompareBranch env (fun rs rt => emitR .sltu 1 rt rs) .beq
      (fun rs imm target => do
        emitI .ori 1 0 imm
        emitI .beq rs 1 target
        emitR .sltu 1 rs 1) .bne

/-- parse_pseudo: the expansion goes into a node of its own. Expanders do not nest. -/
def parsePseudo (p : PseudoOp) : Assemble Unit := do
  modify fun s => { s with currentPseudo := some [] }
  doParsePseudo env p
  let s ← get
  modify fun s => { s with currentPseudo := none }
  appendNode (.pseudo (s.currentPseudo.getD []))

end
end Spimulator
