import Spimulator.PseudoOp

/-! parser.c: building the tree of a source file, one line at a time, and emitting it. -/
namespace Spimulator
open Frame

section

variable (env : AsmEnv)

/-! Instructions, by operand shape. -/

/-- Nothing supports the token: the rest of the line is skipped. -/
def parseUnsupported (msg : String) : Assemble Unit := do
  parseErrorAt msg
  syncToNl env

/-- A condition code, 0 unless given. -/
def parseCc : Assemble Word := do
  let cc ← takeToken env Token.asInt
  pure (cc.getD 0)

/-- sub and subu of an immediate add its negation. -/
def parseSubImm (op : Opcode) (rd rs : Word) : Assemble Unit := do
  let imm ← parseImm32 env
  let val ← evalImmExpr imm
  let e ← makeImmExpr (-val) none false
  emitI (if op = .sub then .addi else .addiu) rd rs e

/-- An opcode with a form for an immediate, which may also stand for both operands. -/
def parseRegImmForms (op : Opcode) (rd : Word) (immForm : Word → Assemble Unit) :
    Assemble Unit := do
  match ← takeToken env Token.asReg with
  | none => immForm rd
  | some rs =>
    match ← takeToken env Token.asReg with
    | some rt => emitR op rd rs rt
    | none => immForm rs

def parseR3 (op : Opcode) : Assemble Unit := do
  let rd ← parseRegister env
  if op = .clo ∨ op = .clz then
    let rs ← parseRegister env
    emitR op rd rs rd
  else if op = .mul then
    let rs ← parseRegister env
    match ← takeToken env Token.asReg with
    | some rt => emitR op rd rs rt
    | none =>
      let imm ← parseImm32 env
      emitI .ori 1 0 imm
      emitR op rd rs 1
  else if op = .sub ∨ op = .subu then parseRegImmForms env op rd (parseSubImm env op rd)
  else
    match if op ∈ [.add, .addu, .and, .or, .xor, .slt, .sltu] then opToImmOp op else none with
    | some immOp =>
      parseRegImmForms env op rd fun rs => do
        let imm ← parseImm32 env
        emitI immOp rd rs imm
    | none =>
      let rs ← parseRegister env
      let rt ← parseRegister env
      emitR op rd rs rt

def parseR2Sh (op : Opcode) : Assemble Unit := do
  if op = .ssnop then emitRShift .sll 0 0 1
  else
    let rd ← parseRegister env
    let rs ← parseRegister env
    match ← takeToken env Token.asInt with
    | some sh => emitRShift op rd rs sh
    | none => parseErrorAt "Expected integer shift amount"

def parseR1s (op : Opcode) : Assemble Unit := do
  let rs ← parseRegister env
  emitR op 0 rs 0

def parseI2 (op : Opcode) : Assemble Unit := do
  let rt ← parseRegister env
  let rs ← takeToken env Token.asReg
  let imm ← if op = .andi ∨ op = .ori ∨ op = .xori then parseUimm16 env else parseImm16 env
  emitI op rt (rs.getD rt) imm

def parseI1t (op : Opcode) : Assemble Unit := do
  let rt ← parseRegister env
  let imm ← parseUimm16 env
  emitI op rt 0 imm

def parseB2 (op : Opcode) : Assemble Unit := do
  let src1 ← parseRegister env
  match ← takeToken env Token.asReg with
  | some src2 =>
    let target ← parseLabel env
    emitI op src2 src1 target
  | none =>
    let imm ← parseImm32 env
    let target ← parseLabel env
    if isZeroImm imm then emitI op src1 0 target
    else
      emitI .ori 1 0 imm
      emitI op src1 1 target

def parseB1 (op : Opcode) : Assemble Unit := parseUnaryBranch env op

/-- A jump by register. The opcodes with a hazard barrier are accepted and emit nothing. -/
def jumpReg (op : Opcode) (rd rs : Word) : Assemble Unit :=
  if op = .j ∨ op = .jr then emitR .jr 0 rs 0
  else if op = .jal ∨ op = .jalr then emitR .jalr rd rs 0
  else pure ()

def parseJ (op : Opcode) : Assemble Unit := do
  match ← takeToken env Token.asReg with
  | some r1 =>
    match ← takeToken env Token.asReg with
    | some r2 => jumpReg op r1 r2
    | none => jumpReg op 31 r1
  | none =>
    let target ← parseLabel env
    if op = .j ∨ op = .jr then emitJ .j target
    else if op = .jal ∨ op = .jalr then emitJ .jal target
    else pure ()

def parseNoarg (op : Opcode) : Assemble Unit := do
  match ← takeToken env Token.asInt with
  | some n =>
    onlyIf (op = .brk ∧ n = 1) (parseErrorAt "Breakpoint 1 is reserved for debugger")
    emitR op n 0 0
  | none => emitR op 0 0 0

def parseRtCopreg (op : Opcode) : Assemble Unit := do
  let reg ← parseRegister env
  let copreg ← parseCopReg env
  emitFpR op 0 copreg reg

/-- Two operands; a division may have three. -/
def parseRsRt (op : Opcode) : Assemble Unit := do
  let r1 ← parseRegister env
  let t ← scannerPeek env
  if t.asReg = none ∧ t.asInt = none ∧ t.asId = none then
    parseErrorAt "Expected operand for div/mult"
  else
    let r2 ← parseRegister env
    let t ← scannerPeek env
    if (op = .div ∨ op = .divu) ∧ t.ends = false then parseDivisor env op .mflo r1 r2
    else emitR op 0 r1 r2

def parseRd (op : Opcode) : Assemble Unit := do
  let rd ← parseRegister env
  emitR op rd 0 0

def parseRdRtRs (op : Opcode) : Assemble Unit := do
  let rd ← parseRegister env
  let rs ← parseRegister env
  match ← takeToken env Token.asReg with
  | some rt => emitR op rd rt rs
  | none =>
    match ← takeToken env Token.asInt with
    | some shamt => (opToImmOp op).elim (throw .noImmediateOp) fun o => emitRShift o rd rs shamt
    | none => parseErrorAt "Expected register or integer shift"

def parseRsImm (op : Opcode) : Assemble Unit := do
  let rs ← parseRegister env
  let imm ← parseImm16 env
  emitI op 0 rs imm

def ccToRt (cc : Word) (nd tf : Bool) : Word :=
  (cc <<< 2) ||| ((if nd then 1 else 0) <<< 1) ||| (if tf then 1 else 0)

def parseBranchCoproc (op : Opcode) : Assemble Unit := do
  let cc ← parseCc env
  let target ← parseLabel env
  emitI op (ccToRt cc op.isNullifiedBranch op.isTrueBranch) 0 target

def parseMovc (op : Opcode) : Assemble Unit := do
  let rd ← parseRegister env
  let rs ← parseRegister env
  let cc ← parseCc env
  emitR op rd rs ((cc &&& 0x7) <<< 2)

def parseFpFdFs (op : Opcode) : Assemble Unit := do
  let fd ← parseFpRegister env
  let fs ← parseFpRegister env
  emitFpR op fd fs 0

def parseFpFdFsFt (op : Opcode) : Assemble Unit := do
  let fd ← parseFpRegister env
  let fs ← parseFpRegister env
  let ft ← parseFpRegister env
  emitFpR op fd fs ft

def parseFpCmp (op : Opcode) : Assemble Unit := do
  let cc ← parseCc env
  let fs ← parseFpRegister env
  let ft ← parseFpRegister env
  emitFpCompare op fs ft cc

def parseFpMovc (op : Opcode) : Assemble Unit := do
  let fd ← parseFpRegister env
  let fs ← parseFpRegister env
  match ← takeToken env Token.asReg with
  | some rt => emitFpR op fd fs rt
  | none =>
    let cc ← parseCc env
    emitFpR op fd fs ((cc &&& 0x7) <<< 2)

def parseOp (op : Opcode) : Assemble Unit :=
  match op.opType with
  | .noarg => parseNoarg env op
  | .rdRsRt => parseR3 env op
  | .rdRtShamt => parseR2Sh env op
  | .rs => parseR1s env op
  | .rtRsImm => parseI2 env op
  | .rtImm => parseI1t env op
  | .rtAddr => parseRegAddr env (emitI op)
  | .branchRsRtLabel => parseB2 env op
  | .branchRsLabel => parseB1 env op
  | .j | .rdRs => parseJ env op
  | .rtCopreg | .fpRtCopreg => parseRtCopreg env op
  | .rsRt => parseRsRt env op
  | .rd => parseRd env op
  | .rdRtRs => parseRdRtRs env op
  | .rsImm => parseRsImm env op
  | .branchCoprocCond => parseBranchCoproc env op
  | .movc => parseMovc env op
  | .fpFdFs => parseFpFdFs env op
  | .fpFdFsFt => parseFpFdFsFt env op
  | .fpCmpFsFt => parseFpCmp env op
  | .fpMovc => parseFpMovc env op
  | .fpFtAddr => parseFpAddr env op
  | .fpFdFrFsFt => parseUnsupported env "Instruction not yet supported"

def parseAsmCode : Assemble Unit := do
  match ← scannerAdvance env with
  | .keyword (.op op) => parseOp env op
  | .keyword (.pseudo p) => parsePseudo env p
  | _ => parseUnsupported env "Instruction not yet supported"

/-! Directives. -/

def parseDirSeg (kind : DirSegKind) : Assemble Unit := do
  let addr ← takeToken env Token.asInt
  modify fun s => s.parseDirSeg kind addr

def parseDirGlobl : Assemble Unit := do
  scannerForceIdentifier
  match ← takeToken env Token.asId with
  | some sym => appendNode (.dirGlobl sym)
  | none => parseErrorAt "Expected identifier after .globl"

def parseDirAlign : Assemble Unit := do
  let v ← parseExpression env
  onlyIf (v = 0) (modify fun s => { s with autoAlign := false })
  appendNode (.dirAlign v)

/-- .extern and .comm -/
def parseDirNamedSize (node : String → Word → AstNode) : Assemble Unit := do
  scannerForceIdentifier
  match ← takeToken env Token.asId with
  | some sym => do
    let sz ← parseExpression env
    appendNode (node sym sz)
  | none => parseErrorAt "Expected ID"

def parseDirSpace : Assemble Unit := do
  let v ← parseExpression env
  let s ← get
  if s.textDir then parseErrorAt "Can't put data in text segment"
  else appendNode (.dirSpace v)

/-- data_int_push: the value, with the symbol that the expression left open. -/
def dataIntPush (value : Word) : Assemble ImmExpr := do
  let s ← get
  let e ← makeImmExpr value (s.exprUnresolvedLabel.map fun l => (s.label l).name) false
  modify fun s => { s with exprUnresolvedLabel := none }
  pure e

/-- A list goes on to the end of the line; commas are no tokens. -/
def listStep {α : Type} (item : Assemble α) (xs : List α) : Assemble (List α × Bool) := do
  let x ← item
  let t ← scannerPeek env
  pure (xs ++ [x], ¬ t.ends)

/-- An expression that the parser cannot get past is read again and again. -/
def parseExprList (kind : DataIntKind) : Assemble Unit := do
  let s ← get
  let exprs ← repeatStep .endless (listStep env (do
    let v ← parseExpression env
    dataIntPush v)) (s.tokensLeft + 1) []
  appendNode (.dataInt kind exprs)

/-- A list that ends in something else is dropped. -/
def fpListStep (xs : Option (List (BitVec 64))) :
    Assemble (Option (List (BitVec 64)) × Bool) := do
  match ← takeToken env Token.asFp with
  | none =>
    parseErrorAt "Expected floating-point literal"
    pure (none, false)
  | some v =>
    let t ← scannerPeek env
    pure (xs.map (· ++ [v]), ¬ t.ends)

def parseFpExprList (kind : DataFpKind) : Assemble Unit := do
  let s ← get
  match ← repeatStep .endless (fpListStep env) (s.tokensLeft + 1) (some []) with
  | some values => appendNode (.dataFp kind values)
  | none => pure ()

/-- align_labels_to and set_data_alignment at the head of a data directive, noted in a data
section -/
def Asm.parseAligned (s : Asm) (alignment : ℕ) : Asm :=
  let s := if s.dataDir then s.log (.parseAligned alignment) else s
  s.alignDirective (BitVec.ofNat 32 alignment)

def parseAligned (alignment : ℕ) : Assemble Unit := modify fun s => s.parseAligned alignment

def parseDirDataInt (kind : DataIntKind) : Assemble Unit := do
  onlyIf (kind = .half) (parseAligned 1)
  onlyIf (kind = .word) (parseAligned 2)
  parseExprList env kind

def parseDirDataFp (kind : DataFpKind) : Assemble Unit := do
  parseAligned (if kind = .float then 2 else 3)
  parseFpExprList env kind

def stringListStep : Assemble (Unit × Bool) := do
  match ← takeToken env Token.asStr with
  | none =>
    parseErrorAt "Expected string literal"
    pure ((), false)
  | some bytes =>
    let s ← get
    (if s.textDir then parseErrorAt "Can't put data in text segment"
      else appendNode (.dataString bytes s.nullTerm) : Assemble Unit)
    let t ← scannerPeek env
    pure ((), ¬ t.ends)

def parseDirString (nullTerm : Bool) : Assemble Unit := do
  modify fun s => { s with nullTerm := nullTerm }
  let s ← get
  repeatStep .endless (fun _ => stringListStep env) (s.tokensLeft + 1) ()

def parseDirective : Directive → Assemble Unit
  | .data => parseDirSeg env .data
  | .kData => parseDirSeg env .kData
  | .text => parseDirSeg env .text
  | .kText => parseDirSeg env .kText
  | .globl => parseDirGlobl env
  | .word => parseDirDataInt env .word
  | .half => parseDirDataInt env .half
  | .byte => parseDirDataInt env .byte
  | .ascii => parseDirString env false
  | .asciiz => parseDirString env true
  | .float => parseDirDataFp env .float
  | .double => parseDirDataFp env .double
  | .space => parseDirSpace env
  | .align => parseDirAlign env
  | .comm => parseDirNamedSize env .dirComm
  | .extern_ => parseDirNamedSize env .dirExtern
  | .err => parseErrorAt ".err directive"
  | .metadata => syncToNl env
  | .unsupported => parseUnsupported env "Directive not yet supported"

/-! Lines. -/

/-- A label, or a constant, before the statement of the line. -/
def parseOptLabel : Assemble Unit := do
  let t ← scannerPeek env
  match t.asId with
  | none => pure ()
  | some sym =>
    let sep ← scannerPeek2 env
    onlyIf (sep = .punct ':' ∨ sep = .punct '=') (do
      let _ ← scannerAdvance env
      let _ ← scannerAdvance env
      if sep = .punct ':' then appendNode (.labelNormal sym)
      else
        let v ← parseExpression env
        appendNode (.labelConst sym v))

/-- The rest of a line, unless nothing is left of it. -/
def unlessEnded (rest : Token → Assemble Unit) : Assemble Unit := do
  match ← scannerPeek env with
  | .nl =>
    let _ ← scannerAdvance env
    pure ()
  | .eof => pure ()
  | t => rest t

def parseStatement (t : Token) : Assemble Unit :=
  match t with
  | .keyword (.dir d) => do
    let _ ← scannerAdvance env
    parseDirective env d
  | _ => parseAsmCode env

def endLine : Assemble Unit := do
  let s ← get
  if s.parseErrorOccurred then syncToNl env
  else unlessEnded env fun _ => parseUnsupported env "Extra tokens after instruction"

def parseLine : Assemble Unit :=
  unlessEnded env fun _ => do
    parseOptLabel env
    unlessEnded env fun t => do
      parseStatement env t
      clearLabels env.toEnv
      endLine env

/-! Files. -/

def lineStep : Assemble (Unit × Bool) := do
  let t ← scannerPeek env
  if t = .eof then pure ((), false)
  else
    modify fun s => { s with parseErrorOccurred := false }
    parseLine env
    pure ((), true)

/-- The part of parse_file that builds the tree. -/
def parseTree : Assemble Unit := do
  let s ← get
  repeatStep .endless (fun _ => lineStep env) (s.tokensLeft + 1) ()
  clearLabels env.toEnv

/-- The tree is emitted unless it is only printed. -/
def parseFile : Assemble Unit := do
  parseTree env
  let s ← get
  match s.currentFile with
  | some nodes => onlyIf (env.printAstOnly = false) (emitAst env.toEnv nodes)
  | none => pure ()

end

def parserInit (input : List Lexeme) (s : Asm) : Asm :=
  { s.scannerInit input with
    parseErrorsSeen := 0
    parseErrorOccurred := false
    dataDir := false
    textDir := true
    currentFile := some [] }

end Spimulator
