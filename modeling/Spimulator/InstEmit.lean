import Spimulator.Data
import Spimulator.Run

/-! instruction.c: building instructions, with the longer sequences that large or unknown
immediates need, and storing them at the text location counter. -/
namespace Spimulator
open Frame

/-- A new instruction record. -/
def newInst (i : Inst) : Assemble InstRef := do
  let s ← get
  let (r, m) := s.machine.allocInst i
  set (s.setMachine m)
  pure r

/-- An instruction without an encoding gets one when it is stored. -/
def Asm.setEncoding (s : Asm) (r : InstRef) : Asm :=
  let i := s.machine.insts r
  if i.encoding = 0 then s.setInst r { i with encoding := instEncode i } else s

/-- asm_fire_text_inst -/
def Asm.fireTextInst (s : Asm) (addr : Word) (r : InstRef) : Asm :=
  s.log (.fired (.textInst addr (s.machine.insts r).encoding))

def storeInText (env : Env) (r : InstRef) : Assemble Unit := do
  let s ← get
  let pc := s.currentTextPc
  onMachine (modify fun m => { m with exceptionOccurred := false })
  onMachine (memWriteInst env.tbl pc (some r))
  let s ← get
  (if s.machine.exceptionOccurred then report (.invalidInstAddress pc)
    else do
      logEvent (.instStored pc r)
      incrementTextPc 4 : Assemble Unit)
  modify fun s => (s.setEncoding r).fireTextInst pc r

/-- store_instruction: under a data directive the encoding is stored as a datum. -/
def storeInstruction (env : Env) (r : InstRef) : Assemble Unit := do
  let s ← get
  if s.dataDir then
    let w := instEncode (s.machine.insts r)
    Data.placing (Data.leBytes w 4) (Data.storeWord env.tbl 0 w)
  else if s.textDir then storeInText env r
  else pure ()

def storeNew (env : Env) (i : Inst) : Assemble Unit := do
  let r ← newInst i
  storeInstruction env r

def rTypeInst (env : Env) (op : Opcode) (rd rs rt : Word) : Assemble Unit :=
  storeNew env (makeRTypeInst op (rd.setWidth 8) (rs.setWidth 8) (rt.setWidth 8))

def rCoTypeInst (env : Env) (op : Opcode) (fd fs ft : Word) : Assemble Unit :=
  storeNew env (makeRCoTypeInst op (fd.setWidth 8) (fs.setWidth 8) (ft.setWidth 8))

def rShTypeInst (env : Env) (op : Opcode) (rd rt shamt : Word) : Assemble Unit :=
  storeNew env (makeRShTypeInst op (rd.setWidth 8) (rt.setWidth 8) (shamt.setWidth 8))

def rCondTypeInst (env : Env) (op : Opcode) (fs ft cc : Word) : Assemble Unit :=
  storeNew env (makeRCondTypeInst op (fs.setWidth 8) (ft.setWidth 8) (cc.setWidth 8))

/-- An instruction with an expression that is already known, or that a symbol leaves open. -/
def storeExprInst (env : Env) (r : InstRef) (e : ImmExpr) : Assemble Unit := do
  let s ← get
  match e.symbol with
  | none => resolveALabel env none r
  | some l =>
    if (s.label l).isDefined then resolveALabel env (some l) r else recordInstUsesSymbol r l
  storeInstruction env r

section

variable {env : Env} {r : InstRef} {e : ImmExpr} {l : LabelRef} {s : Asm}

lemma storeExprInst_none (he : e.symbol = none) : (storeExprInst env r e).run s = (do
    resolveALabel env none r
    storeInstruction env r : Assemble Unit).run s := by
  rw [storeExprInst, EStateM.run_bind, EStateM.run_get]
  simp only [he]

lemma storeExprInst_defined (he : e.symbol = some l) (hd : (s.label l).isDefined = true) :
    (storeExprInst env r e).run s = (do
      resolveALabel env (some l) r
      storeInstruction env r : Assemble Unit).run s := by
  rw [storeExprInst, EStateM.run_bind, EStateM.run_get]
  simp only [he]
  rw [if_pos hd]

lemma storeExprInst_undefined (he : e.symbol = some l) (hd : (s.label l).isDefined = false) :
    (storeExprInst env r e).run s = (do
      recordInstUsesSymbol r l
      storeInstruction env r : Assemble Unit).run s := by
  rw [storeExprInst, EStateM.run_bind, EStateM.run_get]
  simp only [he]
  rw [if_neg (by simp [hd])]

end

def jTypeInst (env : Env) (op : Opcode) (target : ImmExpr) : Assemble Unit := do
  let e := { target with offset := 0, pcRelative := false }
  let r ← newInst { opcode := some op, expr := some e }
  storeExprInst env r e

/-! Immediate instructions. -/

def immOpToOp : Opcode → Option Opcode
  | .addi => some .add
  | .addiu => some .addu
  | .andi => some .and
  | .ori => some .or
  | .xori => some .xor
  | .slti => some .slt
  | .sltiu => some .sltu
  | .j => some .jr
  | .lui => some .addu
  | .sll => some .sllv
  | .sra => some .srav
  | .srl => some .srlv
  | _ => none

/-- The opcodes whose 16-bit immediate is sign-extended. -/
def signExtendsImm : Opcode → Bool
  | .addi | .addiu | .slti | .sltiu | .teqi | .tgei | .tgeiu | .tlti | .tltiu | .tnei => true
  | _ => false

/-- The value does not fit the immediate field of one instruction. -/
def immTooLarge (op : Opcode) (e : ImmExpr) (value : Word) : Bool :=
  if signExtendsImm op ∨ (op.isLoadStore ∧ e.bits = 0) then
    value &&& 0xffff8000 ≠ 0 ∧ value &&& 0xffff8000 ≠ 0xffff8000
  else value &&& 0xffff0000 ≠ 0

/-- The offset from $gp's symbol that a small datum would be addressed by. -/
def gpOffset (s : Asm) (e : ImmExpr) (rs : Word) : Option Word := do
  let l ← e.symbol
  let offset := (s.label l).addr + e.offset
  if (s.label l).gpFlag ∧ rs = 0 ∧ -0x8000 ≤ offset.toInt ∧ offset.toInt ≤ 0x7fff then some offset
  else none

section

variable (env : Env) (emitI : Opcode → Word → Word → ImmExpr → Assemble Unit)

def produceImmediate (e : ImmExpr) (rt : Word) (value : Option Word) : Assemble Unit := do
  if value.any (fun v => v &&& 0xffff = 0) then emitI .lui rt 0 (upperBitsOfExpr e)
  else if value.any (fun v => v &&& 0xffff0000 = 0) then emitI .ori rt 0 (lowerBitsOfExpr e)
  else
    emitI .lui 1 0 (upperBitsOfExpr e)
    emitI .ori rt 1 (lowerBitsOfExpr e)

/-- A load or store of a known address. -/
def loadStoreKnown (op : Opcode) (rt rs value : Word) : Assemble Unit := do
  let high := (value.sshiftRight 16) &&& 0xffff
  let low := value &&& 0xffff
  if ¬ (high = 0 ∧ low &&& 0x8000 = 0) ∧ ¬ (high = 0xffff ∧ low &&& 0x8000 ≠ 0) then
    -- the load sign-extends the low half
    emitI .lui 1 0 (constImmExpr (if low &&& 0x8000 ≠ 0 then high + 1 else high))
    onlyIf (rs ≠ 0) (rTypeInst env .addu 1 1 rs)
    emitI op rt 1 (lowerBitsOfExpr (constImmExpr low))
  else emitI op rt rs (constImmExpr low)

/-- A load or store whose symbol is not yet known. -/
def loadStoreUnknown (op : Opcode) (rt rs : Word) (e : ImmExpr) : Assemble Unit := do
  emitI .lui 1 0 (upperBitsOfExpr e)
  onlyIf (rs ≠ 0) (rTypeInst env .addu 1 1 rs)
  emitI op rt 1 (lowerBitsOfExpr e)

/-- A computation with an immediate that does not fit. -/
def computeImm (op : Opcode) (rt rs : Word) (e : ImmExpr) (value : Option Word) :
    Assemble Unit := do
  if (op = .ori ∨ op = .addi ∨ op = .addiu ∨ op = .lui) ∧ rs = 0 then
    produceImmediate emitI e rt value
  else
    produceImmediate emitI e 1 value
    match immOpToOp op with
    | some op' => rTypeInst env op' rt rs 1
    | none => throw .noImmediateOp

def iTypeInstFullWord (op : Opcode) (rt rs : Word) (e : ImmExpr) (value : Option Word) :
    Assemble Unit := do
  let s ← get
  if op.isLoadStore then
    match gpOffset s e rs, value with
    | some offset, _ => emitI op rt 28 (constImmExpr offset)
    | none, some v => loadStoreKnown env emitI op rt rs v
    | none, none => loadStoreUnknown env emitI op rt rs e
  else if op.isBranch then emitI op rt rs (lowerBitsOfExpr e)
  else
    match gpOffset s e rs with
    | some offset => emitI (if op = .lui then .addiu else op) rt 28 (constImmExpr offset)
    | none => computeImm env emitI op rt rs e value

variable {env emitI} {op : Opcode} {rt rs : Word} {e : ImmExpr} {value : Option Word} {s : Asm}

lemma iTypeInstFullWord_compute (hl : op.isLoadStore = false) (hb : op.isBranch = false)
    (hg : gpOffset s e rs = none) : (iTypeInstFullWord env emitI op rt rs e value).run s =
      (computeImm env emitI op rt rs e value).run s := by
  rw [iTypeInstFullWord, EStateM.run_bind, EStateM.run_get]
  simp only [hl, hb, hg, Bool.false_eq_true, if_false]

lemma iTypeInstFullWord_offset (hl : op.isLoadStore = false) (hb : op.isBranch = false)
    {offset : Word} (hg : gpOffset s e rs = some offset) :
    (iTypeInstFullWord env emitI op rt rs e value).run s =
      (emitI (if op = .lui then .addiu else op) rt 28 (constImmExpr offset)).run s := by
  rw [iTypeInstFullWord, EStateM.run_bind, EStateM.run_get]
  simp only [hl, hb, hg, Bool.false_eq_true, if_false]

end

/-- i_type_inst calls itself for the parts of a full word; four levels are enough. -/
def iTypeInst (env : Env) : ℕ → Opcode → Word → Word → ImmExpr → Assemble Unit
  | 0, _, _, _, _ => throw (.machine .hostStack)
  | n+1, op, rt, rs, e => do
    let r ← newInst { opcode := some op, rs := rs.setWidth 8, rt := rt.setWidth 8, expr := some e }
    let s ← get
    if s.symbolDefined e then
      let value ← evalImmExpr e
      if ¬ env.bareMachine ∧ immTooLarge op e value then
        iTypeInstFullWord env (iTypeInst env n) op rt rs e (some value)
      else storeExprInst env r e
    else if env.bareMachine ∨ e.bits ≠ 0 then storeExprInst env r e
    else iTypeInstFullWord env (iTypeInst env n) op rt rs e none

/-- The instruction nodes of emit_one. -/
def emitInst (env : Env) : InstNode → Assemble Unit
  | .r op rd rs rt => rTypeInst env op rd rs rt
  | .rShift op rd rt shamt => rShTypeInst env op rd rt shamt
  | .i op rt rs imm => iTypeInst env 4 op rt rs imm
  | .j op target => jTypeInst env op target
  | .fpR op fd fs ft => rCoTypeInst env op fd fs ft
  | .fpCompare op fs ft cc => rCondTypeInst env op fs ft cc

end Spimulator
