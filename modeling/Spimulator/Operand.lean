import Spimulator.Emit
import Spimulator.Scanner

/-! parser.c: appending nodes to the tree of a source file, and parsing operands. -/
namespace Spimulator
open Frame

/-! Nodes. -/

/-- ast_append to the file. Before the first parser_init there is no file, and the node is lost. -/
def Asm.appendNode (s : Asm) (n : AstNode) : Asm :=
  { s with
    nextNode := s.nextNode + 1
    currentFile := s.currentFile.map (fun ns => ns ++ [(s.nextNode, n)]) }

/-- ast_append of an instruction: to the pseudo-op that is being expanded, if there is one. -/
def Asm.appendInst (s : Asm) (i : InstNode) : Asm :=
  match s.currentPseudo with
  | some is => { s with currentPseudo := some (is ++ [i]) }
  | none => s.appendNode (.inst i)

def appendNode (n : AstNode) : Assemble Unit := modify fun s => s.appendNode n
def appendInst (i : InstNode) : Assemble Unit := modify fun s => s.appendInst i

def emitR (op : Opcode) (rd rs rt : Word) : Assemble Unit := appendInst (.r op rd rs rt)
def emitRShift (op : Opcode) (rd rt shamt : Word) : Assemble Unit :=
  appendInst (.rShift op rd rt shamt)
def emitI (op : Opcode) (rt rs : Word) (imm : ImmExpr) : Assemble Unit :=
  appendInst (.i op rt rs imm)
def emitJ (op : Opcode) (target : ImmExpr) : Assemble Unit := appendInst (.j op target)
def emitFpR (op : Opcode) (fd fs ft : Word) : Assemble Unit := appendInst (.fpR op fd fs ft)
def emitFpCompare (op : Opcode) (fs ft cc : Word) : Assemble Unit :=
  appendInst (.fpCompare op fs ft cc)

/-- emit_dir_seg also sets the flags by which the rest of the file is parsed. -/
def Asm.parseDirSeg (s : Asm) (kind : DirSegKind) (startAddr : Option Word) : Asm :=
  let s := match kind with
    | .text | .kText => { s with dataDir := false, textDir := true }
    | .data | .kData => { s with dataDir := true, textDir := false, autoAlign := true }
  s.appendNode (.dirSeg kind startAddr)

/-! Immediates. -/

/-- check_imm_range: only a message. -/
def checkImmRange (e : ImmExpr) (lo hi : ℤ) : Assemble Unit := do
  let s ← get
  onlyIf (s.symbolDefined e = true) (do
    let value ← evalImmExpr e
    onlyIf (value.toInt < lo ∨ hi < value.toInt) (report (.immediateRange value)))

def checkUimmRange (e : ImmExpr) (lo hi : ℕ) : Assemble Unit := do
  let s ← get
  onlyIf (s.symbolDefined e = true) (do
    let value ← evalImmExpr e
    onlyIf (value.toNat < lo ∨ hi < value.toNat) (report (.immediateRange value)))

/-- make_addr_expr: the expression and the register. -/
def makeAddrExpr (offs : Word) (sym : Option String) (regNo : Word) :
    Assemble (ImmExpr × Word) := do
  let plain : Assemble (ImmExpr × Word) := do
    let e ← makeImmExpr offs sym false
    pure (e, regNo &&& 0xff)
  match sym with
  | none => plain
  | some name =>
    if regNo = 0 then
      let l ← lookupLabel name
      let s ← get
      if (s.label l).gpFlag then
        let e ← makeImmExpr (offs + (s.label l).addr - s.gpMidpoint) none false
        pure (e, 28)
      else plain
    else plain

section

variable (env : AsmEnv)

/-- sync_to_nl: the rest of the line is skipped. -/
def syncToNl : Assemble Unit := do
  let s ← get
  repeatStep .endless (fun _ => do
    let t ← scannerPeek env
    if t.ends then pure ((), false)
    else
      let _ ← scannerAdvance env
      pure ((), true)) (s.tokensLeft + 1) ()

def expect (c : Char) (what : String) : Assemble Unit := do
  let found ← takePunct env c
  onlyIf (found = false) (parseErrorAt what)

/-! Operands. -/

def parseRegister : Assemble Word := do
  match ← takeToken env Token.asReg with
  | some n => pure n
  | none =>
    parseErrorAt "Expected register"
    pure 0

def parseFpRegister : Assemble Word := do
  match ← takeToken env Token.asFpReg with
  | some n => pure n
  | none =>
    parseErrorAt "Expected FP register"
    pure 0

/-- A coprocessor register, by either name. -/
def parseCopReg : Assemble Word := do
  match ← takeToken env Token.asFpReg with
  | some n => pure n
  | none => parseRegister env

def parseAbsAddr : Assemble Word := do
  match ← takeToken env Token.asInt with
  | none =>
    parseErrorAt "Expected integer"
    pure 0
  | some v =>
    if ← takePunct env '+' then
      match ← takeToken env Token.asInt with
      | none =>
        parseErrorAt "Expected integer after '+'"
        pure v
      | some w => pure (v + w)
    else
      -- a negative second integer is subtracted
      match ← takeToken env Token.asInt with
      | none => pure v
      | some w =>
        onlyIf (0 ≤ w.toInt) (parseErrorAt "Syntax error")
        pure (v - -w)

/-- A symbol without an address counts as 0; the first of an expression is kept for data. -/
def symbolFactor (name : String) : Assemble Word := do
  let l ← lookupLabel name
  let s ← get
  if (s.label l).addr = 0 then
    set { s with exprUnresolvedLabel := s.exprUnresolvedLabel.or (some l) }
    pure 0
  else pure (s.label l).addr

def parseFactor (expr : Assemble Word) : Assemble Word := do
  match ← takeToken env Token.asInt with
  | some v => pure v
  | none =>
    if ← takePunct env '(' then
      let v ← expr
      expect env ')' "Expected ')'"
      pure v
    else
      match ← takeToken env Token.asId with
      | some name => symbolFactor name
      | none =>
        parseErrorAt "Expected expression"
        pure 0

/-- Division of C ints, which traps on overflow; by 0 it gives 0. -/
def divide (v r : Word) : Assemble Word :=
  if r = 0 then pure 0
  else if v = BitVec.intMin 32 ∧ r = -1 then throw .divide
  else pure (v.sdiv r)

def termStep (factor : Assemble Word) (v : Word) : Assemble (Word × Bool) := do
  if ← takePunct env '*' then
    let r ← factor
    pure (v * r, true)
  else if ← takePunct env '/' then
    let r ← factor
    let q ← divide v r
    pure (q, true)
  else pure (v, false)

def parseTerm (n : ℕ) (factor : Assemble Word) : Assemble Word := do
  let v ← factor
  repeatStep .endless (termStep env factor) n v

def exprStep (term : Assemble Word) (v : Word) : Assemble (Word × Bool) := do
  if ← takePunct env '+' then
    let r ← term
    pure (v + r, true)
  else if ← takePunct env '-' then
    let r ← term
    pure (v - r, true)
  else pure (v, false)

def parseExpr : ℕ → Assemble Word
  | 0 => throw .endless
  | n+1 => do
    let term := parseTerm env (n+1) (parseFactor env (parseExpr n))
    let v ← term
    repeatStep .endless (exprStep env term) (n+1) v

def parseExpression : Assemble Word := do
  scannerForceIdentifier
  modify fun s => { s with exprUnresolvedLabel := none }
  let s ← get
  parseExpr env (s.tokensLeft + 1)

def parseImm32 : Assemble ImmExpr := do
  scannerForceIdentifier
  match ← takeToken env Token.asId with
  | some sym =>
    if ← takePunct env '+' then
      let off ← parseAbsAddr env
      makeImmExpr off (some sym) false
    else if ← takePunct env '-' then
      let off ← parseAbsAddr env
      makeImmExpr (-off) (some sym) false
    else makeImmExpr 0 (some sym) false
  | none =>
    if ← takePunct env '(' then
      let v ← parseAbsAddr env
      expect env ')' "Expected ')'"
      expect env '>' "Expected '>'"
      expect env '>' "Expected '>'"
      match ← takeToken env Token.asInt with
      | none =>
        parseErrorAt "Expected integer after '>>'"
        makeImmExpr 0 none false
      | some sh => makeImmExpr (v.sshiftRight (sh.toNat % 32)) none false
    else
      let v ← parseAbsAddr env
      makeImmExpr v none false

def parseImm16 : Assemble ImmExpr := do
  let e ← parseImm32 env
  checkImmRange e (-0x8000) 0x7fff
  pure e

def parseUimm16 : Assemble ImmExpr := do
  let e ← parseImm32 env
  checkUimmRange e 0 0xffff
  pure e

/-- The target of a branch or jump, as an offset from the instruction. -/
def parseLabel : Assemble ImmExpr := do
  match ← takeToken env Token.asId with
  | none =>
    parseErrorAt "Expected label"
    makeImmExpr 0 none true
  | some sym =>
    let s ← get
    makeImmExpr (0 - s.currentTextPc) (some sym) true

/-- An optional base register in parentheses. -/
def parseBase : Assemble Word := do
  if ← takePunct env '(' then
    let reg ← parseRegister env
    expect env ')' "Expected ')'"
    pure reg
  else pure 0

def parseSymbolOffset : Assemble Word := do
  if ← takePunct env '+' then parseAbsAddr env
  else if ← takePunct env '-' then
    let off ← parseAbsAddr env
    pure (-off)
  else pure 0

/-- An address that starts with an integer. -/
def parseIntAddress : Assemble (ImmExpr × Word) := do
  let imm ← parseAbsAddr env
  let t ← scannerPeek env
  let plus ← if t = .punct '+' then (do
      let t₂ ← scannerPeek2 env
      pure t₂.asId) else pure none
  match plus with
  | some sym =>
    let _ ← scannerAdvance env
    -- the name is scanned already, so the flag is left for the token after it
    scannerForceIdentifier
    let _ ← scannerAdvance env
    makeAddrExpr imm (some sym) 0
  | none =>
    let reg ← parseBase env
    makeAddrExpr imm none reg

def parseAddress : Assemble (ImmExpr × Word) := do
  scannerForceIdentifier
  if ← takePunct env '(' then
    let reg ← parseRegister env
    expect env ')' "Expected ')' after register"
    makeAddrExpr 0 none reg
  else
    let t ← scannerPeek env
    match t.asInt with
    | some _ => parseIntAddress env
    | none =>
      match ← takeToken env Token.asId with
      | some sym =>
        let off ← parseSymbolOffset env
        let reg ← parseBase env
        makeAddrExpr off (some sym) reg
      | none =>
        parseErrorAt "Expected address"
        makeAddrExpr 0 none 0

end
end Spimulator
