import Spimulator.Breakpoint
import Spimulator.Location

/-! symbol-table.c: labels, the uses that wait for them, and immediate expressions. -/
namespace Spimulator
open Frame

/-! Kinds of opcodes. -/

namespace Opcode

def isBranch : Opcode → Bool
  | .bc1f | .bc1fl | .bc1t | .bc1tl | .bc2f | .bc2fl | .bc2t | .bc2tl | .beq | .beql | .bgez
  | .bgezal | .bgezall | .bgezl | .bgtz | .bgtzl | .blez | .blezl | .bltz | .bltzal | .bltzall
  | .bltzl | .bne | .bnel => true
  | _ => false

def isNullifiedBranch : Opcode → Bool
  | .bc1fl | .bc1tl | .bc2fl | .bc2tl | .beql | .bgezall | .bgezl | .bgtzl | .blezl | .bltzall
  | .bltzl | .bnel => true
  | _ => false

def isTrueBranch : Opcode → Bool
  | .bc1t | .bc1tl | .bc2t | .bc2tl => true
  | _ => false

def isJump : Opcode → Bool
  | .j | .jal => true
  | _ => false

def isLoadStore : Opcode → Bool
  | .lb | .lbu | .lh | .lhu | .ll | .ldc1 | .ldc2 | .lw | .lwc1 | .lwc2 | .lwl | .lwr | .sb | .sc
  | .sh | .sdc1 | .sdc2 | .sw | .swc1 | .swc2 | .swl | .swr => true
  | _ => false

end Opcode

/-! Labels. -/

namespace Asm

/-- label_is_defined: the entry of the table with this name. -/
def labelIsDefined (s : Asm) (name : String) : Option LabelRef :=
  s.table.find? (fun l => (s.label l).name = name)

/-- A new label at the head of its chain. -/
def newLabel (s : Asm) (name : String) : Asm :=
  { s.setLabel s.nextLabel { name := name } with
    nextLabel := s.nextLabel + 1
    table := s.nextLabel :: s.table }

/-- The value that the symbol of an expression has, if the expression can be evaluated. -/
def symbolDefined (s : Asm) (e : ImmExpr) : Bool :=
  match e.symbol with
  | none => true
  | some l => (s.label l).isDefined

end Asm

def lookupLabel (name : String) : Assemble LabelRef := do
  let s ← get
  match s.labelIsDefined name with
  | some l => pure l
  | none =>
    set (s.newLabel name)
    pure s.nextLabel

lemma lookupLabel_found {s : Asm} {name : String} {l : LabelRef}
    (h : s.labelIsDefined name = some l) : (lookupLabel name).run s = .ok l s := by
  rw [lookupLabel, EStateM.run_bind, EStateM.run_get]
  simp only [h]
  rfl

lemma lookupLabel_new {s : Asm} {name : String} (h : s.labelIsDefined name = none) :
    (lookupLabel name).run s = .ok s.nextLabel (s.newLabel name) := by
  rw [lookupLabel, EStateM.run_bind, EStateM.run_get]
  simp only [h]
  rfl

def makeLabelGlobal (name : String) : Assemble LabelRef := do
  let l ← lookupLabel name
  modify fun s => s.setLabel l { s.label l with globalFlag := true }
  pure l

/-- A use is put at the head of the list. -/
def addUse (l : LabelRef) (u : LabelUse) : Assemble Unit :=
  modify fun s => s.setLabel l { s.label l with uses := u :: (s.label l).uses }

/-- copy_inst -/
def copyInst (r : InstRef) : Assemble InstRef := do
  let s ← get
  let (r', m) := s.machine.allocInst (s.machine.insts r)
  set (s.setMachine m)
  pure r'

def recordInstUsesSymbol (r : InstRef) (l : LabelRef) : Assemble Unit := do
  let s ← get
  if s.dataDir then
    let r' ← copyInst r
    addUse l { instruction := some r', addr := s.currentDataPc }
  else addUse l { instruction := some r, addr := s.currentTextPc }

def recordDataUsesSymbol (location : Word) (l : LabelRef) : Assemble Unit :=
  addUse l { instruction := none, addr := location }

/-! Immediate expressions. -/

def makeImmExpr (offs : Word) (sym : Option String) (isPcRelative : Bool) : Assemble ImmExpr := do
  match sym with
  | none => pure { offset := offs, symbol := none, bits := 0, pcRelative := isPcRelative }
  | some name =>
    let l ← lookupLabel name
    pure { offset := offs, symbol := some l, bits := 0, pcRelative := isPcRelative }

def constImmExpr (value : Word) : ImmExpr :=
  { offset := value, symbol := none, bits := 0, pcRelative := false }

def upperBitsOfExpr (e : ImmExpr) : ImmExpr := { e with bits := 1 }
def lowerBitsOfExpr (e : ImmExpr) : ImmExpr := { e with bits := -1 }
def incrExprOffset (e : ImmExpr) (value : Word) : ImmExpr := { e with offset := e.offset + value }
def isZeroImm (e : ImmExpr) : Bool := e.offset = 0 ∧ e.symbol = none

/-- The part of a value that an expression asks for. -/
def ImmExpr.part (e : ImmExpr) (value : Word) : Word :=
  if 0 < e.bits then (value >>> 16) &&& 0xffff
  else if e.bits < 0 then value &&& 0xffff
  else value

/-- The value of an expression before its part is taken. -/
def symbolValue (e : ImmExpr) : Assemble Word := do
  match e.symbol with
  | none => pure e.offset
  | some l =>
    let s ← get
    if (s.label l).isDefined then
      logEvent (.used l (s.label l).addr)
      pure (e.offset + (s.label l).addr)
    else
      report (.evaluatedUndefined (s.label l).name)
      pure 0

def evalImmExpr (e : ImmExpr) : Assemble Word := do
  let value ← symbolValue e
  pure (e.part value)

/-! Resolving. -/

def signEx (v : Word) : Word := (v.setWidth 16).signExtend 32

/-- A lui of the symbol that is still without an immediate. -/
def Asm.waitingLui (s : Asm) (sym : Option LabelRef) (r : Option InstRef) :
    Option (InstRef × ImmExpr) := do
  let r ← r
  let e ← (s.machine.insts r).expr
  if (s.machine.insts r).opcode = some .lui ∧ sym = e.symbol ∧ (s.machine.insts r).imm = 0 then
    some (r, e)
  else none

/-- lw and sw sign-extend their offset; an earlier lui of the same symbol makes up for it. An adds
of an index register may stand between the two. -/
def compensateLui (tbl : AOpcodeTbl) (sym : Option LabelRef) (pc : Word) : Assemble Unit := do
  let prev ← onMachine (memReadInst tbl (pc - 4))
  let prevPrev ← onMachine (memReadInst tbl (pc - 8))
  let s ← get
  match (s.waitingLui sym prev).or (s.waitingLui sym prevPrev) with
  | some (r, e) =>
    set (s.setInst r { s.machine.insts r with expr := some (incrExprOffset e 0x10000) })
  | none => pure ()

/-- The value for the instruction's field, and the mask that it has to fit. -/
def fieldValue (env : Env) (op : Opcode) (e : ImmExpr) (pc : Word) : Assemble (Word × Word) := do
  let v ← evalImmExpr e
  if op.isBranch then
    let val := ((signEx v).sshiftRight 2) &&& 0xffff
    pure (if env.delayedBranches then val - 1 else val, 0xffff)
  else if op.isJump then
    onlyIf (v &&& 0xf0000000 ≠ pc &&& 0xf0000000) (report (.jumpRegion pc))
    pure ((v &&& 0x0fffffff) >>> 2, 0xffffffff)
  else if op.isLoadStore then
    onlyIf (v &&& 0x8000 ≠ 0) (compensateLui env.tbl e.symbol pc)
    pure (v, 0xffff)
  else pure (v, 0xffff)

def resolveInst (env : Env) (r : InstRef) (op : Opcode) (e : ImmExpr) (pc : Word) :
    Assemble Unit := do
  let (value, mask) ← fieldValue env op e pc
  onlyIf (value &&& ~~~mask ≠ 0 ∧ value &&& ~~~mask ≠ 0xffff0000) (do
    report .immediateTooLarge
    onMachine (printInst env.tbl pc))
  modify fun s =>
    let i := s.machine.insts r
    let i := if op.isJump then i.setTarget value else i.setImm (value.setWidth 16)
    s.setInst r { i with encoding := instEncode i }

/-- Resolving an instruction at `pc`, or the data word there. -/
def resolveALabelSub (env : Env) (sym : LabelRef) (instruction : Option InstRef) (pc : Word) :
    Assemble Unit := do
  let s ← get
  match instruction with
  | none =>
    onlyIf ((s.label sym).isDefined = true) (logEvent (.used sym (s.label sym).addr))
    onMachine (memWriteWord env.tbl pc (s.label sym).addr)
  | some r =>
    match (s.machine.insts r).opcode, (s.machine.insts r).expr with
    | some op, some e =>
      -- the instruction may have moved
      let e := if e.pcRelative then { e with offset := 0 - pc } else e
      set (s.setInst r { s.machine.insts r with expr := some e })
      if s.symbolDefined e then resolveInst env r op e pc
      else report (.resolvingUndefined (e.symbol.elim "" (fun l => (s.label l).name)))
    | _, _ => throw (.machine .nullInstruction)

def resolveUses (env : Env) (sym : LabelRef) : List LabelUse → Assemble Unit
  | [] => pure ()
  | u :: us => do
    resolveALabelSub env sym u.instruction u.addr
    let s ← get
    match u.instruction with
    | none => resolveUses env sym us
    | some r =>
      onlyIf (dataBot ≤ u.addr ∧ u.addr < s.machine.stackBot)
        (onMachine (memWriteWord env.tbl u.addr (instEncode (s.machine.insts r))))
      resolveUses env sym us

def resolveLabelUses (env : Env) (sym : LabelRef) : Assemble Unit := do
  let s ← get
  resolveUses env sym (s.label sym).uses
  modify fun s => s.setLabel sym { s.label sym with uses := [] }

/-- resolve_a_label, for an instruction that is about to be stored -/
def resolveALabel (env : Env) (sym : Option LabelRef) (r : InstRef) : Assemble Unit := do
  let s ← get
  resolveALabelSub env (sym.getD 0) (some r)
    (if s.dataDir then s.currentDataPc else s.currentTextPc)

/-! Definitions. -/

/-- A label becomes local to the file when it is defined before it is declared global. -/
def linkLocal (l : LabelRef) : Assemble Unit :=
  modify fun s =>
    if (s.label l).globalFlag then s else { s with localLabels := l :: s.localLabels }

def fireLabelDef (addr : Word) (l : LabelRef) : Assemble Unit :=
  modify fun s => s.log (.fired (.labelDef addr l (s.label l).globalFlag))

/-- record_label, for the label's entry. -/
def recordEntry (env : Env) (l : LabelRef) (name : String) (address : Word) (resolve : Bool) :
    Assemble Unit := do
  let s ← get
  if (s.label l).gpFlag = false ∧ (s.label l).addr ≠ 0 then parseErrorWith (.duplicateLabel name)
  else
    modify fun s =>
      if (s.label l).gpFlag then s else s.setLabel l { s.label l with addr := address }
    fireLabelDef address l
    onlyIf (resolve = true) (resolveLabelUses env l)
    linkLocal l

def recordLabel (env : Env) (name : String) (address : Word) (resolve : Bool) :
    Assemble LabelRef := do
  let l ← lookupLabel name
  recordEntry env l name address resolve
  pure l

/-! The end of a file. -/

/-- The entry with a label's name is taken out of its chain. -/
def flushLabel (issueUndefWarnings : Bool) (l : LabelRef) : Assemble Unit := do
  let s ← get
  match s.labelIsDefined (s.label l).name with
  | none => pure ()
  | some entry =>
    set { s with table := s.table.erase entry }
    onlyIf (issueUndefWarnings = true ∧ (s.label entry).addr = 0 ∧
        (s.label entry).constFlag = false)
      (report (.localUndefined (s.label entry).name))

def flushLabels (issueUndefWarnings : Bool) : List LabelRef → Assemble Unit
  | [] => pure ()
  | l :: ls => do
    flushLabel issueUndefWarnings l
    flushLabels issueUndefWarnings ls

/-- flush_local_labels. A label recorded twice makes the list of local labels a cycle. -/
def flushLocalLabels (issueUndefWarnings : Bool) : Assemble Unit := do
  let s ← get
  if s.localLabels.Nodup then
    flushLabels issueUndefWarnings s.localLabels
    modify fun s => { s with localLabels := [] }
  else throw .endless

/-- undefined_symbol_string: the names of the labels that have no address. -/
def Asm.undefinedSymbols (s : Asm) : List String :=
  (s.table.filter (fun l => (s.label l).addr = 0)).map (fun l => (s.label l).name)

/-- find_symbol_address -/
def findSymbolAddress (name : String) : Assemble Word := do
  let l ← lookupLabel name
  let s ← get
  pure (s.label l).addr

end Spimulator
