import Spimulator.Emission
import Spimulator.Parser

/-! Properties of computations that carry over from the pieces of the parser to the parse of a
line. -/
namespace Spimulator
open Frame

def AstNode.isSeg : AstNode → Bool
  | .dirSeg _ _ => true
  | _ => false

/-! Parts of the parsers of operands. -/

/-- parse_abs_addr after its first integer -/
def absAddrRest (env : AsmEnv) (v : Word) : Assemble Word := do
  if ← takePunct env '+' then
    match ← takeToken env Token.asInt with
    | none =>
      parseErrorAt "Expected integer after '+'"
      pure v
    | some w => pure (v + w)
  else
    match ← takeToken env Token.asInt with
    | none => pure v
    | some w =>
      onlyIf (0 ≤ w.toInt) (parseErrorAt "Syntax error")
      pure (v - -w)

/-- parse_imm32 after a name -/
def imm32Named (env : AsmEnv) (sym : String) : Assemble ImmExpr := do
  if ← takePunct env '+' then
    let off ← parseAbsAddr env
    makeImmExpr off (some sym) false
  else if ← takePunct env '-' then
    let off ← parseAbsAddr env
    makeImmExpr (-off) (some sym) false
  else makeImmExpr 0 (some sym) false

/-- parse_imm32 after an opening parenthesis -/
def imm32Shift (env : AsmEnv) : Assemble ImmExpr := do
  let v ← parseAbsAddr env
  expect env ')' "Expected ')'"
  expect env '>' "Expected '>'"
  expect env '>' "Expected '>'"
  match ← takeToken env Token.asInt with
  | none =>
    parseErrorAt "Expected integer after '>>'"
    makeImmExpr 0 none false
  | some sh => makeImmExpr (v.sshiftRight (sh.toNat % 32)) none false

/-- parse_imm32 after its request for an identifier -/
def imm32Rest (env : AsmEnv) : Assemble ImmExpr := do
  match ← takeToken env Token.asId with
  | some sym => imm32Named env sym
  | none =>
    if ← takePunct env '(' then imm32Shift env
    else
      let v ← parseAbsAddr env
      makeImmExpr v none false

/-- A property of computations that a sequence has when its parts do, and that looking up a name
has. -/
structure NameProperty (C : {α : Type} → Assemble α → Prop) : Prop where
  ret : ∀ {α : Type} (a : α), C (pure a)
  seq : ∀ {α β : Type} {x : Assemble α} {f : α → Assemble β}, C x → (∀ a, C (f a)) → C (x >>= f)
  read : C (get : Assemble Asm)
  lookup : ∀ name, C (lookupLabel name)
  immExpr : ∀ offs sym pc, C (makeImmExpr offs sym pc)

namespace NameProperty

variable {C : {α : Type} → Assemble α → Prop} (hC : NameProperty C)

include hC

omit hC in
lemma ite {α : Type} {p : Prop} [Decidable p] {x y : Assemble α} (hx : p → C x)
    (hy : ¬ p → C y) : C (if p then x else y) := by
  by_cases h : p
  · rw [if_pos h]
    exact hx h
  · rw [if_neg h]
    exact hy h

lemma onlyIf {c : Prop} [Decidable c] {x : Assemble Unit} (hx : C x) : C (onlyIf c x) :=
  ite (fun _ => hx) fun _ => hC.ret _

lemma getBind {β : Type} {f : Asm → Assemble β} (hf : ∀ s, C (f s)) : C (get >>= f) :=
  hC.seq hC.read hf

lemma makeAddrExpr (offs : Word) (sym : Option String) (regNo : Word) :
    C (makeAddrExpr offs sym regNo) := by
  have hplain (sym : Option String) : C (do
      let e ← Spimulator.makeImmExpr offs sym false
      pure (e, regNo &&& 0xff) : Assemble (ImmExpr × Word)) :=
    hC.seq (hC.immExpr _ _ _) fun _ => hC.ret _
  cases sym with
  | none => exact hplain none
  | some name =>
    refine ite (fun _ => ?_) fun _ => hplain _
    refine hC.seq (hC.lookup name) fun l => hC.getBind fun s => ?_
    refine ite (fun _ => ?_) fun _ => hplain _
    exact hC.seq (hC.immExpr _ _ _) fun _ => hC.ret _

end NameProperty

/-- The property holds of the steps by which an operand is read, apart from the request for an
identifier. -/
structure OperandProperty (env : AsmEnv) (C : {α : Type} → Assemble α → Prop) : Prop
    extends NameProperty C where
  peek : C (scannerPeek env)
  peek2 : C (scannerPeek2 env)
  advance : C (scannerAdvance env)
  take : ∀ {α : Type} (f : Token → Option α), C (takeToken env f)
  punct : ∀ c, C (takePunct env c)
  error : ∀ msg, C (parseErrorAt msg)

namespace OperandProperty

variable {env : AsmEnv} {C : {α : Type} → Assemble α → Prop} (hC : OperandProperty env C)

include hC

lemma expect (c : Char) (what : String) : C (expect env c what) :=
  hC.seq (hC.punct c) fun _ => hC.onlyIf (hC.error what)

lemma parseRegister : C (parseRegister env) := by
  refine hC.seq (hC.take _) fun o => ?_
  cases o with
  | some n => exact hC.ret _
  | none => exact hC.seq (hC.error _) fun _ => hC.ret _

lemma parseFpRegister : C (parseFpRegister env) := by
  refine hC.seq (hC.take _) fun o => ?_
  cases o with
  | some n => exact hC.ret _
  | none => exact hC.seq (hC.error _) fun _ => hC.ret _

lemma parseCopReg : C (parseCopReg env) := by
  refine hC.seq (hC.take _) fun o => ?_
  cases o with
  | some n => exact hC.ret _
  | none => exact hC.parseRegister

lemma absAddrRest (v : Word) : C (absAddrRest env v) := by
  refine hC.seq (hC.punct _) fun b => NameProperty.ite (fun _ => ?_) fun _ => ?_
  · refine hC.seq (hC.take _) fun o => ?_
    cases o with
    | none => exact hC.seq (hC.error _) fun _ => hC.ret _
    | some w => exact hC.ret _
  · refine hC.seq (hC.take _) fun o => ?_
    cases o with
    | none => exact hC.ret _
    | some w =>
      exact hC.seq (hC.onlyIf (hC.error _)) fun _ => hC.ret _

lemma parseAbsAddr : C (parseAbsAddr env) := by
  refine hC.seq (hC.take _) fun o => ?_
  cases o with
  | none => exact hC.seq (hC.error _) fun _ => hC.ret _
  | some v => exact hC.absAddrRest v

lemma parseLabel : C (parseLabel env) := by
  refine hC.seq (hC.take _) fun o => ?_
  cases o with
  | none => exact hC.seq (hC.error _) fun _ => hC.immExpr _ _ _
  | some sym => exact hC.getBind fun s => hC.immExpr _ _ _

lemma parseBase : C (parseBase env) := by
  refine hC.seq (hC.punct _) fun b => NameProperty.ite (fun _ => ?_) fun _ => hC.ret _
  refine hC.seq hC.parseRegister fun _ => ?_
  exact hC.seq (hC.expect _ _) fun _ => hC.ret _

lemma parseSymbolOffset : C (parseSymbolOffset env) := by
  refine hC.seq (hC.punct _) fun b => ?_
  refine NameProperty.ite (fun _ => hC.parseAbsAddr) fun _ => ?_
  refine hC.seq (hC.punct _) fun b => NameProperty.ite (fun _ => ?_) fun _ => hC.ret _
  exact hC.seq hC.parseAbsAddr fun _ => hC.ret _

lemma imm32Named (sym : String) : C (imm32Named env sym) := by
  refine hC.seq (hC.punct _) fun b => NameProperty.ite (fun _ => ?_) fun _ => ?_
  · exact hC.seq hC.parseAbsAddr fun _ => hC.immExpr _ _ _
  refine hC.seq (hC.punct _) fun b => NameProperty.ite (fun _ => ?_) fun _ => ?_
  · exact hC.seq hC.parseAbsAddr fun _ => hC.immExpr _ _ _
  · exact hC.immExpr _ _ _

lemma imm32Shift : C (imm32Shift env) := by
  refine hC.seq hC.parseAbsAddr fun v => ?_
  refine hC.seq (hC.expect _ _) fun _ => hC.seq (hC.expect _ _) fun _ => ?_
  refine hC.seq (hC.expect _ _) fun _ => hC.seq (hC.take _) fun o => ?_
  cases o with
  | none => exact hC.seq (hC.error _) fun _ => hC.immExpr _ _ _
  | some sh => exact hC.immExpr _ _ _

lemma imm32Rest : C (imm32Rest env) := by
  refine hC.seq (hC.take _) fun o => ?_
  cases o with
  | some sym => exact hC.imm32Named sym
  | none =>
    refine hC.seq (hC.punct _) fun b => NameProperty.ite (fun _ => hC.imm32Shift) fun _ => ?_
    exact hC.seq hC.parseAbsAddr fun _ => hC.immExpr _ _ _

end OperandProperty

/-- A property of computations that a sequence has when its parts do, and that the pieces of the
parser have: its steps through the tokens, what it notes, and its loops over a line. -/
structure ParseProperty (C : {α : Type} → Assemble α → Prop) : Prop where
  ret : ∀ {α : Type} (a : α), C (pure a)
  seq : ∀ {α β : Type} {x : Assemble α} {f : α → Assemble β}, C x → (∀ a, C (f a)) → C (x >>= f)
  read : C (get : Assemble Asm)
  noImmediateOp : C (throw .noImmediateOp : Assemble Unit)
  peek : ∀ env, C (scannerPeek env)
  peek2 : ∀ env, C (scannerPeek2 env)
  advance : ∀ env, C (scannerAdvance env)
  force : C scannerForceIdentifier
  take : ∀ env {α : Type} (f : Token → Option α), C (takeToken env f)
  punct : ∀ env c, C (takePunct env c)
  inst : ∀ i, C (appendInst i)
  node : ∀ {n}, n.isSeg = false → C (appendNode n)
  seg : ∀ kind a, C (modify fun s => s.parseDirSeg kind a)
  pseudo : ∀ p : Asm → Option (List InstNode), C (modify fun s => { s with currentPseudo := p s })
  noAlign : C (modify fun s => { s with autoAlign := false })
  newLine : C (modify fun s => { s with parseErrorOccurred := false })
  error : ∀ msg, C (parseErrorAt msg)
  message : ∀ {r}, r.isNote = true → C (report r)
  lookup : ∀ name, C (lookupLabel name)
  immExpr : ∀ offs sym pc, C (makeImmExpr offs sym pc)
  eval : ∀ e, C (evalImmExpr e)
  aligned : ∀ {k}, 0 < k → k < 4 → C (parseAligned k)
  clear : ∀ env, C (clearLabels env)
  sync : ∀ env, C (syncToNl env)
  expression : ∀ env, C (parseExpression env)
  exprList : ∀ env kind, C (parseExprList env kind)
  fpExprList : ∀ env kind, C (parseFpExprList env kind)
  string : ∀ env nul, C (parseDirString env nul)

namespace ParseProperty

variable {C : {α : Type} → Assemble α → Prop} (hC : ParseProperty C)

include hC

lemma getBind {β : Type} {f : Asm → Assemble β} (hf : ∀ s, C (f s)) : C (get >>= f) :=
  hC.seq hC.read hf

omit hC in
lemma ite {α : Type} {p : Prop} [Decidable p] {x y : Assemble α} (hx : p → C x)
    (hy : ¬ p → C y) : C (if p then x else y) := NameProperty.ite hx hy

lemma onlyIf {c : Prop} [Decidable c] {x : Assemble Unit} (hx : C x) : C (onlyIf c x) :=
  ite (fun _ => hx) fun _ => hC.ret _

lemma names : NameProperty C where
  ret := hC.ret
  seq := hC.seq
  read := hC.read
  lookup := hC.lookup
  immExpr := hC.immExpr

lemma operands (env : AsmEnv) : OperandProperty env C where
  toNameProperty := hC.names
  peek := hC.peek env
  peek2 := hC.peek2 env
  advance := hC.advance env
  take := hC.take env
  punct := hC.punct env
  error := hC.error

lemma makeAddrExpr (offs : Word) (sym : Option String) (regNo : Word) :
    C (makeAddrExpr offs sym regNo) := hC.names.makeAddrExpr offs sym regNo

lemma checkImmRange (e : ImmExpr) (lo hi : ℤ) : C (checkImmRange e lo hi) := by
  refine hC.getBind fun s => hC.onlyIf ?_
  exact hC.seq (hC.eval e) fun _ => hC.onlyIf (hC.message rfl)

lemma checkUimmRange (e : ImmExpr) (lo hi : ℕ) : C (checkUimmRange e lo hi) := by
  refine hC.getBind fun s => hC.onlyIf ?_
  exact hC.seq (hC.eval e) fun _ => hC.onlyIf (hC.message rfl)

section

variable (env : AsmEnv)

lemma expect (c : Char) (what : String) : C (expect env c what) :=
  (hC.operands env).expect c what

lemma parseRegister : C (parseRegister env) :=
  (hC.operands env).parseRegister

lemma parseFpRegister : C (parseFpRegister env) :=
  (hC.operands env).parseFpRegister

lemma parseCopReg : C (parseCopReg env) :=
  (hC.operands env).parseCopReg

lemma parseAbsAddr : C (parseAbsAddr env) :=
  (hC.operands env).parseAbsAddr

lemma parseLabel : C (parseLabel env) :=
  (hC.operands env).parseLabel

lemma parseBase : C (parseBase env) :=
  (hC.operands env).parseBase

lemma parseSymbolOffset : C (parseSymbolOffset env) :=
  (hC.operands env).parseSymbolOffset

lemma parseImm32 : C (parseImm32 env) :=
  hC.seq hC.force fun _ => (hC.operands env).imm32Rest

lemma parseImm16 : C (parseImm16 env) :=
  hC.seq (hC.parseImm32 env) fun e => hC.seq (hC.checkImmRange e _ _) fun _ => hC.ret _

lemma parseUimm16 : C (parseUimm16 env) :=
  hC.seq (hC.parseImm32 env) fun e => hC.seq (hC.checkUimmRange e _ _) fun _ => hC.ret _

lemma parseIntAddress : C (parseIntAddress env) := by
  refine hC.seq (hC.parseAbsAddr env) fun imm => hC.seq (hC.peek env) fun t => ?_
  have hplain : C (do
      let reg ← Spimulator.parseBase env
      Spimulator.makeAddrExpr imm none reg) :=
    hC.seq (hC.parseBase env) fun _ => hC.makeAddrExpr _ _ _
  have hrest (o : Option String) : C (match o with
      | some sym => do
        let _ ← Spimulator.scannerAdvance env
        Spimulator.scannerForceIdentifier
        let _ ← Spimulator.scannerAdvance env
        Spimulator.makeAddrExpr imm (some sym) 0
      | none => do
        let reg ← Spimulator.parseBase env
        Spimulator.makeAddrExpr imm none reg) := by
    cases o with
    | none => exact hplain
    | some sym =>
      refine hC.seq (hC.advance env) fun _ => ?_
      refine hC.seq hC.force fun _ => ?_
      exact hC.seq (hC.advance env) fun _ => hC.makeAddrExpr _ _ _
  refine ite (fun _ => ?_) fun _ => hplain
  exact hC.seq (hC.seq (hC.peek2 env) fun _ => hC.ret _) fun o => hrest o

lemma parseAddress : C (parseAddress env) := by
  refine hC.seq hC.force fun _ => ?_
  refine hC.seq (hC.punct env _) fun b => ite (fun _ => ?_) fun _ => ?_
  · refine hC.seq (hC.parseRegister env) fun _ => ?_
    exact hC.seq (hC.expect env _ _) fun _ => hC.makeAddrExpr _ _ _
  refine hC.seq (hC.peek env) fun t => ?_
  cases t.asInt with
  | some v => exact hC.parseIntAddress env
  | none =>
    refine hC.seq (hC.take env _) fun o => ?_
    cases o with
    | none => exact hC.seq (hC.error _) fun _ => hC.makeAddrExpr _ _ _
    | some sym =>
      refine hC.seq (hC.parseSymbolOffset env) fun _ => ?_
      exact hC.seq (hC.parseBase env) fun _ => hC.makeAddrExpr _ _ _

/-! Pseudo-ops. -/

omit env in
lemma nopInst : C nopInst := hC.inst _

omit env in
lemma divInst (op result : Opcode) (rd rs rt : Word) (c : Bool) :
    C (divInst op result rd rs rt c) := by
  refine hC.seq (hC.onlyIf ?_) fun _ => ?_
  · refine hC.seq (hC.inst _) fun _ => ?_
    exact hC.seq hC.nopInst fun _ => hC.inst _
  · exact hC.seq (hC.inst _) fun _ => hC.onlyIf (hC.inst _)

omit env in
lemma multInst (u : Bool) (rd rs rt : Word) : C (multInst u rd rs rt) := by
  refine hC.seq (hC.inst _) fun _ => hC.onlyIf ?_
  refine hC.seq (hC.inst _) fun _ => ?_
  refine hC.seq (ite (fun _ => hC.inst _) fun _ => ?_) fun _ => ?_
  · refine hC.seq (hC.inst _) fun _ => ?_
    exact hC.seq (hC.inst _) fun _ => hC.inst _
  · refine hC.seq hC.nopInst fun _ => ?_
    exact hC.seq (hC.inst _) fun _ => hC.inst _

omit env in
lemma setOrEqualInst (rd rs rt : Word) {compare : Assemble Unit} (h : C compare) :
    C (setOrEqualInst rd rs rt compare) := by
  refine hC.seq (hC.inst _) fun _ => hC.seq (hC.inst _) fun _ => ?_
  exact hC.seq (hC.inst _) fun _ => hC.seq hC.nopInst fun _ => h

omit env in
lemma setEqInst (ifEq ifNeq rd rs rt : Word) : C (setEqInst ifEq ifNeq rd rs rt) := by
  refine hC.seq (hC.inst _) fun _ => hC.seq (hC.inst _) fun _ => ?_
  exact hC.seq (hC.inst _) fun _ => hC.seq hC.nopInst fun _ => hC.inst _

lemma parseTwoRegs (f : Word → Word → InstNode) : C (parseTwoRegs env f) :=
  hC.seq (hC.parseRegister env) fun _ =>
    hC.seq (hC.parseRegister env) fun _ => hC.inst _

lemma parseRotate (a b c d : Opcode) : C (parseRotate env a b c d) := by
  refine hC.seq (hC.parseRegister env) fun rd => ?_
  refine hC.seq (hC.parseRegister env) fun rs => ?_
  refine hC.seq (hC.take env _) fun o => ?_
  cases o with
  | some rt =>
    refine hC.seq (hC.inst _) fun _ => hC.seq (hC.inst _) fun _ => ?_
    exact hC.seq (hC.inst _) fun _ => hC.inst _
  | none =>
    refine hC.seq (hC.parseImm32 env) fun imm => hC.seq (hC.eval imm) fun _ => ?_
    refine hC.seq (hC.checkImmRange imm _ _) fun _ => ?_
    exact hC.seq (hC.inst _) fun _ =>
      hC.seq (hC.inst _) fun _ => hC.inst _

lemma parseRegOrImm : C (parseRegOrImm env) := by
  refine hC.seq (hC.take env _) fun o => ?_
  cases o with
  | some rt => exact hC.ret _
  | none =>
    refine hC.seq (hC.parseImm32 env) fun imm => ite (fun _ => hC.ret _) fun _ => ?_
    exact hC.seq (hC.inst _) fun _ => hC.ret _

lemma parseSet {expand : Word → Word → Word → Assemble Unit}
    (h : ∀ rd rs rt, C (expand rd rs rt)) : C (parseSet env expand) :=
  hC.seq (hC.parseRegister env) fun _ => hC.seq (hC.parseRegister env) fun _ =>
    hC.seq (hC.parseRegOrImm env) fun _ => h _ _ _

lemma parseAbs : C (parseAbs env) := by
  refine hC.seq (hC.parseRegister env) fun rd => ?_
  refine hC.seq (hC.parseRegister env) fun rs => ?_
  refine hC.seq (hC.onlyIf (hC.inst _)) fun _ => ?_
  exact hC.seq (hC.inst _) fun _ => hC.seq hC.nopInst fun _ => hC.inst _

lemma parseDivisor (op result : Opcode) (rd rs : Word) :
    C (parseDivisor env op result rd rs) := by
  refine hC.seq (hC.take env _) fun o => ?_
  cases o with
  | some rt => exact hC.divInst _ _ _ _ _ _
  | none =>
    refine hC.seq (hC.parseImm32 env) fun imm => ?_
    refine ite (fun _ => hC.error _) fun _ => ?_
    exact hC.seq (hC.inst _) fun _ => hC.divInst _ _ _ _ _ _

lemma parseRem (op : Opcode) : C (parseRem env op) :=
  hC.seq (hC.parseRegister env) fun _ => hC.seq (hC.parseRegister env) fun _ =>
    hC.parseDivisor env _ _ _ _

lemma parseMulo (u : Bool) : C (parseMulo env u) := by
  refine hC.seq (hC.parseRegister env) fun rd => ?_
  refine hC.seq (hC.parseRegister env) fun rs => ?_
  refine hC.seq (hC.take env _) fun o => ?_
  cases o with
  | some rt => exact hC.multInst _ _ _ _
  | none =>
    refine hC.seq (hC.parseImm32 env) fun imm => ?_
    refine ite (fun _ => hC.inst _) fun _ => ?_
    exact hC.seq (hC.inst _) fun _ => hC.multInst _ _ _ _

lemma parseMoveD (op : Opcode) : C (parseMoveD env op) :=
  hC.seq (hC.parseRegister env) fun _ => hC.seq (hC.parseCopReg env) fun _ =>
    hC.seq (hC.inst _) fun _ => hC.inst _

lemma parseLiD : C (parseLiD env) := by
  refine hC.seq (hC.parseFpRegister env) fun fd => hC.seq (hC.take env _) fun o => ?_
  cases o with
  | none => exact hC.error _
  | some v =>
    refine hC.seq (hC.inst _) fun _ => hC.seq (hC.inst _) fun _ => ?_
    exact hC.seq (hC.inst _) fun _ => hC.inst _

lemma parseLiS : C (parseLiS env) := by
  refine hC.seq (hC.parseFpRegister env) fun fd => hC.seq (hC.take env _) fun o => ?_
  cases o with
  | none => exact hC.error _
  | some v => exact hC.seq (hC.inst _) fun _ => hC.inst _

lemma parseFpAddr (op : Opcode) : C (parseFpAddr env op) :=
  hC.seq (hC.parseFpRegister env) fun _ =>
    hC.seq (hC.parseAddress env) fun _ => hC.inst _

lemma parseRegAddr {expand : Word → Word → ImmExpr → Assemble Unit}
    (h : ∀ rt reg imm, C (expand rt reg imm)) : C (parseRegAddr env expand) :=
  hC.seq (hC.parseRegister env) fun _ =>
    hC.seq (hC.parseAddress env) fun _ => h _ _ _

omit env in
lemma expandUsh (rt reg : Word) (imm : ImmExpr) : C (expandUsh rt reg imm) := by
  refine hC.seq (hC.inst _) fun _ => hC.seq (hC.inst _) fun _ => ?_
  refine hC.seq (hC.inst _) fun _ => hC.seq (hC.inst _) fun _ => ?_
  refine hC.seq (hC.inst _) fun _ => hC.seq (hC.inst _) fun _ => ?_
  exact hC.seq (hC.inst _) fun _ => hC.inst _

omit env in
lemma expandUnalignedHalf (op : Opcode) (rt reg : Word) (imm : ImmExpr) :
    C (expandUnalignedHalf op rt reg imm) := by
  refine hC.seq (hC.inst _) fun _ => hC.seq (hC.inst _) fun _ => ?_
  exact hC.seq (hC.inst _) fun _ => hC.inst _

lemma parseUnaryBranch (op : Opcode) : C (parseUnaryBranch env op) :=
  hC.seq (hC.parseRegister env) fun _ => hC.seq (hC.parseLabel env) fun _ => hC.inst _

lemma parseB (op : Opcode) : C (parseB env op) :=
  hC.seq (hC.parseLabel env) fun _ => hC.inst _

lemma parseCompareBranch {compareReg : Word → Word → Assemble Unit} (op : Opcode)
    {compareImm : Word → ImmExpr → ImmExpr → Assemble Unit} (op' : Opcode)
    (hr : ∀ rs rt, C (compareReg rs rt))
    (hi : ∀ rs imm target, C (compareImm rs imm target)) :
    C (parseCompareBranch env compareReg op compareImm op') := by
  refine hC.seq (hC.parseRegister env) fun rs => hC.seq (hC.take env _) fun o => ?_
  cases o with
  | some rt =>
    refine hC.seq (hC.parseLabel env) fun target => ?_
    exact hC.seq (hr _ _) fun _ => hC.inst _
  | none =>
    refine hC.seq (hC.parseImm32 env) fun imm => hC.seq (hC.parseLabel env) fun target => ?_
    exact hC.seq (hi _ _ _) fun _ => hC.inst _

lemma parseBgeBlt (op immOp branch : Opcode) : C (parseBgeBlt env op immOp branch) :=
  hC.parseCompareBranch env _ _ (fun _ _ => hC.inst _) fun _ _ _ => hC.inst _

lemma doParsePseudo (p : PseudoOp) : C (doParsePseudo env p) := by
  have happend (i : InstNode) := hC.inst i
  cases p with
  | li =>
    exact hC.seq (hC.parseRegister env) fun _ =>
      hC.seq (hC.parseImm32 env) fun _ => happend _
  | move | neg | negu | not => exact hC.parseTwoRegs env _
  | ror | rol => exact hC.parseRotate env _ _ _ _
  | sle | sleu | sge | sgeu =>
    exact hC.parseSet env fun _ _ _ => hC.setOrEqualInst _ _ _ (happend _)
  | sgt | sgtu => exact hC.parseSet env fun _ _ _ => happend _
  | seq | sne => exact hC.parseSet env fun _ _ _ => hC.setEqInst _ _ _ _ _
  | abs => exact hC.parseAbs env
  | nop => exact hC.nopInst
  | rem | remu => exact hC.parseRem env _
  | mulo | mulou => exact hC.parseMulo env _
  | mfc1D | mtc1D => exact hC.parseMoveD env _
  | liD => exact hC.parseLiD env
  | liS => exact hC.parseLiS env
  | ld_ | ls_ | sd_ | ss_ => exact hC.parseFpAddr env _
  | ld | sd | ulw | usw =>
    exact hC.parseRegAddr env fun _ _ _ => hC.seq (happend _) fun _ => happend _
  | ulh | ulhu => exact hC.parseRegAddr env fun _ _ _ => hC.expandUnalignedHalf _ _ _ _
  | ush => exact hC.parseRegAddr env fun _ _ _ => hC.expandUsh _ _ _
  | la =>
    exact hC.parseRegAddr env fun _ _ _ => ite (fun _ => happend _) fun _ => happend _
  | beqz | bnez => exact hC.parseUnaryBranch env _
  | b | bal => exact hC.parseB env _
  | bge | bgeu | blt | bltu => exact hC.parseBgeBlt env _ _ _
  | bgt | ble =>
    exact hC.parseCompareBranch env _ _ (fun _ _ => happend _) fun _ _ _ => happend _
  | bgtu | bleu =>
    refine hC.parseCompareBranch env _ _ (fun _ _ => happend _) fun _ _ _ => ?_
    exact hC.seq (happend _) fun _ => hC.seq (happend _) fun _ => happend _

lemma parsePseudo (p : PseudoOp) : C (parsePseudo env p) := by
  refine hC.seq (hC.pseudo _) fun _ => ?_
  refine hC.seq (hC.doParsePseudo env p) fun _ => hC.getBind fun s => ?_
  exact hC.seq (hC.pseudo _) fun _ => hC.node rfl

/-! Instructions. -/

lemma parseUnsupported (msg : String) : C (parseUnsupported env msg) :=
  hC.seq (hC.error msg) fun _ => hC.sync env

lemma parseCc : C (parseCc env) :=
  hC.seq (hC.take env _) fun _ => hC.ret _

lemma parseSubImm (op : Opcode) (rd rs : Word) : C (parseSubImm env op rd rs) :=
  hC.seq (hC.parseImm32 env) fun _ => hC.seq (hC.eval _) fun _ =>
    hC.seq (hC.immExpr _ _ _) fun _ => hC.inst _

lemma parseRegImmForms (op : Opcode) (rd : Word) {immForm : Word → Assemble Unit}
    (h : ∀ rs, C (immForm rs)) : C (parseRegImmForms env op rd immForm) := by
  refine hC.seq (hC.take env _) fun o => ?_
  cases o with
  | none => exact h _
  | some rs =>
    refine hC.seq (hC.take env _) fun o => ?_
    cases o with
    | some rt => exact hC.inst _
    | none => exact h _

lemma parseR3 (op : Opcode) : C (parseR3 env op) := by
  refine hC.seq (hC.parseRegister env) fun rd => ite (fun _ => ?_) fun _ => ?_
  · exact hC.seq (hC.parseRegister env) fun _ => hC.inst _
  refine ite (fun _ => ?_) fun _ => ?_
  · refine hC.seq (hC.parseRegister env) fun rs => hC.seq (hC.take env _) fun o => ?_
    cases o with
    | some rt => exact hC.inst _
    | none =>
      refine hC.seq (hC.parseImm32 env) fun imm => ?_
      exact hC.seq (hC.inst _) fun _ => hC.inst _
  refine ite (fun _ => ?_) fun _ => ?_
  · exact hC.parseRegImmForms env _ _ fun _ => hC.parseSubImm env _ _ _
  · split
    · refine hC.parseRegImmForms env _ _ fun _ => ?_
      exact hC.seq (hC.parseImm32 env) fun _ => hC.inst _
    · refine hC.seq (hC.parseRegister env) fun rs => ?_
      exact hC.seq (hC.parseRegister env) fun _ => hC.inst _

lemma parseR2Sh (op : Opcode) : C (parseR2Sh env op) := by
  refine ite (fun _ => hC.inst _) fun _ => ?_
  refine hC.seq (hC.parseRegister env) fun rd => ?_
  refine hC.seq (hC.parseRegister env) fun rs => hC.seq (hC.take env _) fun o => ?_
  cases o with
  | some sh => exact hC.inst _
  | none => exact hC.error _

lemma parseR1s (op : Opcode) : C (parseR1s env op) :=
  hC.seq (hC.parseRegister env) fun _ => hC.inst _

lemma parseI2 (op : Opcode) : C (parseI2 env op) := by
  refine hC.seq (hC.parseRegister env) fun rt => hC.seq (hC.take env _) fun rs => ?_
  refine ite (fun _ => ?_) fun _ => ?_
  · exact hC.seq (hC.parseUimm16 env) fun _ => hC.inst _
  · exact hC.seq (hC.parseImm16 env) fun _ => hC.inst _

lemma parseI1t (op : Opcode) : C (parseI1t env op) :=
  hC.seq (hC.parseRegister env) fun _ => hC.seq (hC.parseUimm16 env) fun _ => hC.inst _

lemma parseB2 (op : Opcode) : C (parseB2 env op) := by
  refine hC.seq (hC.parseRegister env) fun src1 => hC.seq (hC.take env _) fun o => ?_
  cases o with
  | some src2 => exact hC.seq (hC.parseLabel env) fun _ => hC.inst _
  | none =>
    refine hC.seq (hC.parseImm32 env) fun imm => hC.seq (hC.parseLabel env) fun target => ?_
    refine ite (fun _ => hC.inst _) fun _ => ?_
    exact hC.seq (hC.inst _) fun _ => hC.inst _

omit env in
lemma jumpReg (op : Opcode) (rd rs : Word) : C (jumpReg op rd rs) :=
  ite (fun _ => hC.inst _) fun _ =>
    ite (fun _ => hC.inst _) fun _ => hC.ret _

lemma parseJ (op : Opcode) : C (parseJ env op) := by
  refine hC.seq (hC.take env _) fun o => ?_
  cases o with
  | some r1 =>
    refine hC.seq (hC.take env _) fun o => ?_
    cases o with
    | some r2 => exact hC.jumpReg _ _ _
    | none => exact hC.jumpReg _ _ _
  | none =>
    refine hC.seq (hC.parseLabel env) fun target => ?_
    exact ite (fun _ => hC.inst _) fun _ =>
      ite (fun _ => hC.inst _) fun _ => hC.ret _

lemma parseNoarg (op : Opcode) : C (parseNoarg env op) := by
  refine hC.seq (hC.take env _) fun o => ?_
  cases o with
  | some n => exact hC.seq (hC.onlyIf (hC.error _)) fun _ => hC.inst _
  | none => exact hC.inst _

lemma parseRtCopreg (op : Opcode) : C (parseRtCopreg env op) :=
  hC.seq (hC.parseRegister env) fun _ => hC.seq (hC.parseCopReg env) fun _ => hC.inst _

lemma parseRsRt (op : Opcode) : C (parseRsRt env op) := by
  refine hC.seq (hC.parseRegister env) fun r1 => hC.seq (hC.peek env) fun t => ?_
  refine ite (fun _ => hC.error _) fun _ => ?_
  refine hC.seq (hC.parseRegister env) fun r2 => hC.seq (hC.peek env) fun t => ?_
  exact ite (fun _ => hC.parseDivisor env _ _ _ _) fun _ => hC.inst _

lemma parseRd (op : Opcode) : C (parseRd env op) :=
  hC.seq (hC.parseRegister env) fun _ => hC.inst _

lemma parseRdRtRs (op : Opcode) : C (parseRdRtRs env op) := by
  refine hC.seq (hC.parseRegister env) fun rd => ?_
  refine hC.seq (hC.parseRegister env) fun rs => hC.seq (hC.take env _) fun o => ?_
  cases o with
  | some rt => exact hC.inst _
  | none =>
    refine hC.seq (hC.take env _) fun o => ?_
    cases o with
    | none => exact hC.error _
    | some shamt =>
      cases opToImmOp op with
      | none => exact hC.noImmediateOp
      | some o => exact hC.inst _

lemma parseRsImm (op : Opcode) : C (parseRsImm env op) :=
  hC.seq (hC.parseRegister env) fun _ => hC.seq (hC.parseImm16 env) fun _ => hC.inst _

lemma parseBranchCoproc (op : Opcode) : C (parseBranchCoproc env op) :=
  hC.seq (hC.parseCc env) fun _ => hC.seq (hC.parseLabel env) fun _ => hC.inst _

lemma parseMovc (op : Opcode) : C (parseMovc env op) :=
  hC.seq (hC.parseRegister env) fun _ => hC.seq (hC.parseRegister env) fun _ =>
    hC.seq (hC.parseCc env) fun _ => hC.inst _

lemma parseFpFdFs (op : Opcode) : C (parseFpFdFs env op) :=
  hC.seq (hC.parseFpRegister env) fun _ =>
    hC.seq (hC.parseFpRegister env) fun _ => hC.inst _

lemma parseFpFdFsFt (op : Opcode) : C (parseFpFdFsFt env op) :=
  hC.seq (hC.parseFpRegister env) fun _ => hC.seq (hC.parseFpRegister env) fun _ =>
    hC.seq (hC.parseFpRegister env) fun _ => hC.inst _

lemma parseFpCmp (op : Opcode) : C (parseFpCmp env op) :=
  hC.seq (hC.parseCc env) fun _ => hC.seq (hC.parseFpRegister env) fun _ =>
    hC.seq (hC.parseFpRegister env) fun _ => hC.inst _

lemma parseFpMovc (op : Opcode) : C (parseFpMovc env op) := by
  refine hC.seq (hC.parseFpRegister env) fun fd => ?_
  refine hC.seq (hC.parseFpRegister env) fun fs => hC.seq (hC.take env _) fun o => ?_
  cases o with
  | some rt => exact hC.inst _
  | none => exact hC.seq (hC.parseCc env) fun _ => hC.inst _

lemma parseOp (op : Opcode) : C (parseOp env op) := by
  unfold Spimulator.parseOp
  split
  · exact hC.parseNoarg env op
  · exact hC.parseR3 env op
  · exact hC.parseR2Sh env op
  · exact hC.parseR1s env op
  · exact hC.parseI2 env op
  · exact hC.parseI1t env op
  · exact hC.parseRegAddr env fun _ _ _ => hC.inst _
  · exact hC.parseB2 env op
  · exact hC.parseUnaryBranch env op
  · exact hC.parseJ env op
  · exact hC.parseJ env op
  · exact hC.parseRtCopreg env op
  · exact hC.parseRtCopreg env op
  · exact hC.parseRsRt env op
  · exact hC.parseRd env op
  · exact hC.parseRdRtRs env op
  · exact hC.parseRsImm env op
  · exact hC.parseBranchCoproc env op
  · exact hC.parseMovc env op
  · exact hC.parseFpFdFs env op
  · exact hC.parseFpFdFsFt env op
  · exact hC.parseFpCmp env op
  · exact hC.parseFpMovc env op
  · exact hC.parseFpAddr env op
  · exact hC.parseUnsupported env _

lemma parseAsmCode : C (parseAsmCode env) := by
  refine hC.seq (hC.advance env) fun t => ?_
  split
  · exact hC.parseOp env _
  · exact hC.parsePseudo env _
  · exact hC.parseUnsupported env _

/-! Directives. -/

lemma parseDirSeg (kind : DirSegKind) : C (parseDirSeg env kind) :=
  hC.seq (hC.take env _) fun a => hC.seg kind a

lemma parseDirGlobl : C (parseDirGlobl env) := by
  refine hC.seq hC.force fun _ => hC.seq (hC.take env _) fun o => ?_
  cases o with
  | some sym => exact hC.node rfl
  | none => exact hC.error _

lemma parseDirAlign : C (parseDirAlign env) := by
  refine hC.seq (hC.expression env) fun v => ?_
  exact hC.seq (hC.onlyIf hC.noAlign) fun _ => hC.node rfl

lemma parseDirNamedSize {node : String → Word → AstNode}
    (h : ∀ name v, (node name v).isSeg = false) : C (parseDirNamedSize env node) := by
  refine hC.seq hC.force fun _ => hC.seq (hC.take env _) fun o => ?_
  cases o with
  | some sym => exact hC.seq (hC.expression env) fun _ => hC.node (h _ _)
  | none => exact hC.error _

lemma parseDirSpace : C (parseDirSpace env) := by
  refine hC.seq (hC.expression env) fun v => hC.getBind fun s => ?_
  exact ite (fun _ => hC.error _) fun _ => hC.node rfl

lemma parseDirDataInt (kind : DataIntKind) : C (parseDirDataInt env kind) := by
  refine hC.seq (hC.onlyIf (hC.aligned (by omega) (by omega))) fun _ => ?_
  refine hC.seq (hC.onlyIf (hC.aligned (by omega) (by omega))) fun _ => ?_
  exact hC.exprList env kind

lemma parseDirDataFp (kind : DataFpKind) : C (parseDirDataFp env kind) := by
  refine hC.seq (hC.aligned ?_ ?_) fun _ => hC.fpExprList env kind
  · cases kind <;> decide
  · cases kind <;> decide

lemma parseDirective (d : Directive) : C (parseDirective env d) := by
  cases d with
  | data | kData | text | kText => exact hC.parseDirSeg env _
  | globl => exact hC.parseDirGlobl env
  | word | half | byte => exact hC.parseDirDataInt env _
  | ascii | asciiz => exact hC.string env _
  | float | double => exact hC.parseDirDataFp env _
  | space => exact hC.parseDirSpace env
  | align => exact hC.parseDirAlign env
  | comm | extern_ => exact hC.parseDirNamedSize env fun _ _ => rfl
  | err => exact hC.error _
  | metadata => exact hC.sync env
  | unsupported => exact hC.parseUnsupported env _

/-! Lines and files. -/

lemma parseOptLabel : C (parseOptLabel env) := by
  refine hC.seq (hC.peek env) fun t => ?_
  cases t.asId with
  | none => exact hC.ret _
  | some sym =>
    refine hC.seq (hC.peek2 env) fun sep => hC.onlyIf ?_
    refine hC.seq (hC.advance env) fun _ => hC.seq (hC.advance env) fun _ => ?_
    refine ite (fun _ => hC.node rfl) fun _ => ?_
    exact hC.seq (hC.expression env) fun _ => hC.node rfl

lemma unlessEnded {rest : Token → Assemble Unit} (h : ∀ t, C (rest t)) :
    C (unlessEnded env rest) := by
  refine hC.seq (hC.peek env) fun t => ?_
  split
  · exact hC.seq (hC.advance env) fun _ => hC.ret _
  · exact hC.ret _
  · exact h t

lemma parseStatement (t : Token) : C (parseStatement env t) := by
  unfold Spimulator.parseStatement
  split
  · exact hC.seq (hC.advance env) fun _ => hC.parseDirective env _
  · exact hC.parseAsmCode env

lemma endLine : C (endLine env) := by
  refine hC.getBind fun s => ite (fun _ => hC.sync env) fun _ => ?_
  exact hC.unlessEnded env fun _ => hC.parseUnsupported env _

lemma parseLine : C (parseLine env) := by
  refine hC.unlessEnded env fun _ => hC.seq (hC.parseOptLabel env) fun _ => ?_
  refine hC.unlessEnded env fun t => hC.seq (hC.parseStatement env t) fun _ => ?_
  exact hC.seq (hC.clear env.toEnv) fun _ => hC.endLine env

lemma lineStep : C (lineStep env) := by
  refine hC.seq (hC.peek env) fun t => ite (fun _ => hC.ret _) fun _ => ?_
  refine hC.seq hC.newLine fun _ => ?_
  exact hC.seq (hC.parseLine env) fun _ => hC.ret _

end

end ParseProperty

end Spimulator
