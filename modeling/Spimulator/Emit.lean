import Spimulator.InstEmit

/-! emit_ast of parser.c: committing the statements of a tree to memory and symbol table. -/
namespace Spimulator
open Frame

/-! Labels of the current line. -/

def consLabel (l : LabelRef) : Assemble Unit :=
  modify fun s => { s with thisLineLabels := l :: s.thisLineLabels }

def clearLabelList (env : Env) : List LabelRef → Assemble Unit
  | [] => pure ()
  | l :: ls => do
    resolveLabelUses env l
    modify fun s => { s with thisLineLabels := ls }
    clearLabelList env ls

def clearLabels (env : Env) : Assemble Unit := do
  let s ← get
  clearLabelList env s.thisLineLabels

/-- The labels of the line move to where the data location counter will be aligned to. -/
def Asm.alignLabelsTo (s : Asm) (alignment : Word) : Asm :=
  if s.dataDir = false ∨ s.autoAlign = false ∨ s.thisLineLabels = [] then s
  else s.fixCurrentLabelAddress (alignUp alignment s.currentDataPc)

/-- align_labels_to and set_data_alignment at the head of a data directive -/
def Asm.alignDirective (s : Asm) (alignment : Word) : Asm :=
  let s := s.alignLabelsTo alignment
  if s.dataDir then s.setDataAlignment alignment else s

/-! Data. -/

def DataIntKind.bytes : DataIntKind → ℕ
  | .byte => 1
  | .half => 2
  | .word => 4

def storeDataInt (tbl : AOpcodeTbl) (kind : DataIntKind) (value : Word) : Assemble Unit :=
  Data.placing (Data.leBytes value kind.bytes) (match kind with
    | .byte => Data.storeByte tbl 0 value
    | .half => Data.storeHalf tbl 0 value
    | .word => Data.storeWord tbl 0 value)

def storeDataFp (env : Env) (kind : DataFpKind) (value : BitVec 64) : Assemble Unit :=
  match kind with
  | .float =>
    let vp := env.fpu.toSingle value
    Data.placing (Data.leBytes vp 4) (Data.storeFloat env.tbl 0 vp)
  | .double => Data.placing (Data.leBytes value 8) (Data.storeDouble env.tbl 0 value)

/-- A value whose symbol is still open is stored as its offset, and its use recorded. -/
def emitDataExpr (tbl : AOpcodeTbl) (kind : DataIntKind) (e : ImmExpr) : Assemble Unit := do
  let s ← get
  match e.symbol with
  | none =>
    let v ← evalImmExpr e
    storeDataInt tbl kind v
  | some l =>
    if (s.label l).isDefined then
      let v ← evalImmExpr e
      storeDataInt tbl kind v
    else
      recordDataUsesSymbol s.currentDataPc l
      storeDataInt tbl kind e.offset

def emitDataIntNode (tbl : AOpcodeTbl) (kind : DataIntKind) : List ImmExpr → Assemble Unit
  | [] => pure ()
  | e :: es => do
    emitDataExpr tbl kind e
    emitDataIntNode tbl kind es

def emitDataFpNode (env : Env) (kind : DataFpKind) : List (BitVec 64) → Assemble Unit
  | [] => pure ()
  | v :: vs => do
    storeDataFp env kind v
    emitDataFpNode env kind vs

/-! Nodes. -/

/-- A change of segment, at its start address if it gives one. -/
def emitDirSeg (kind : DirSegKind) (startAddr : Option Word) (s : Asm) : Asm :=
  match kind with
  | .text =>
    let s := { s with textInKernel := false, dataDir := false, textDir := true }
    startAddr.elim s s.setTextPc
  | .kText =>
    let s := { s with textInKernel := true, dataDir := false, textDir := true }
    startAddr.elim s s.setTextPc
  | .data =>
    let s := { s with
      dataInKernel := false, dataDir := true, textDir := false
      enableDataAutoAlignment := true, autoAlign := true }
    startAddr.elim s s.setDataPc
  | .kData =>
    let s := { s with
      dataInKernel := true, dataDir := true, textDir := false
      enableDataAutoAlignment := true, autoAlign := true }
    startAddr.elim s s.setDataPc

def emitDirAlign (n : Word) (s : Asm) : Asm :=
  let s := if n = 0 then { s with autoAlign := false } else s
  if s.textDir then s.alignText n else s.alignData n

/-- The rest of .extern and .comm: a symbol without an address gets the next datum's. -/
def emitReserve (env : Env) (name : String) (size : Word) : Assemble Unit := do
  let l ← lookupLabel name
  let s ← get
  onlyIf ((s.label l).addr = 0) (do
    let _ ← recordLabel env name s.currentDataPc true
    pure ())
  incrementDataPc size

def emitLabelNormal (env : Env) (name : String) : Assemble Unit := do
  let s ← get
  let l ← recordLabel env name (if s.textDir then s.currentTextPc else s.currentDataPc) false
  consLabel l

def emitLabelConst (env : Env) (name : String) (value : Word) : Assemble Unit := do
  let l ← recordLabel env name value true
  modify fun s => s.setLabel l { s.label l with constFlag := true }

def emitChildren (env : Env) : List InstNode → Assemble Unit
  | [] => pure ()
  | c :: cs => do
    emitInst env c
    clearLabels env
    emitChildren env cs

def emitOne (env : Env) : AstNode → Assemble Unit
  | .inst i => emitInst env i
  | .pseudo children => emitChildren env children
  | .dataInt kind exprs => do
    onlyIf (kind = .half) (modify fun s => s.alignDirective 1)
    onlyIf (kind = .word) (modify fun s => s.alignDirective 2)
    emitDataIntNode env.tbl kind exprs
  | .dataFp kind values => do
    modify fun s => s.alignDirective (if kind = .float then 2 else 3)
    emitDataFpNode env kind values
  | .dataString bytes nullTerminate => do
    let s ← get
    onlyIf (s.textDir = false)
      (Data.placing (bytes ++ if nullTerminate then [0] else [])
        (Data.storeString env.tbl 0 bytes nullTerminate))
  | .dirSeg kind startAddr => modify (emitDirSeg kind startAddr)
  | .dirAlign n => modify (emitDirAlign n)
  | .dirSpace size => incrementDataPc size
  | .dirGlobl name => do
    let _ ← makeLabelGlobal name
    pure ()
  | .dirExtern name size => do
    let _ ← makeLabelGlobal name
    emitReserve env name size
  | .dirComm name size => do
    modify fun s => s.alignData 2
    emitReserve env name size
  | .labelNormal name => emitLabelNormal env name
  | .labelConst name value => emitLabelConst env name value

def emitNodes (env : Env) : List (NodeRef × AstNode) → Assemble Unit
  | [] => pure ()
  | n :: ns => do
    logEvent (.emitted n.1)
    emitOne env n.2
    onlyIf (n.2.keepsLabels = false) (clearLabels env)
    emitNodes env ns

/-- emit_ast -/
def emitAst (env : Env) (nodes : List (NodeRef × AstNode)) : Assemble Unit := do
  emitNodes env nodes
  clearLabels env

end Spimulator
