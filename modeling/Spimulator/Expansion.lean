import Spimulator.NodeRuns
import Spimulator.OperandReads
import Spimulator.Parser

/-! An operation as a whole: the instructions its operands are parsed into, the code that these
are emitted as, and what the code does. -/
namespace Spimulator
open Frame CodeBlock Relation

/-! Parsing. -/

/-- The instructions of a node of the tree. -/
def AstNode.insts : AstNode → List InstNode
  | .inst n => [n]
  | .pseudo ns => ns
  | _ => []

def instsOf (nodes : List (NodeRef × AstNode)) : List InstNode := nodes.flatMap fun n => n.2.insts

/-- With these tokens ahead and no pseudo-op open, the parser succeeds and appends nodes to the
file, of which the instructions are as `Q` has it. -/
def Parses (x : Assemble Unit) (ts : List Token) (Q : List InstNode → Prop) : Prop :=
  ∀ (s : Asm) nodes, s.Ahead ts → s.currentFile = some nodes → s.currentPseudo = none →
    ∃ t added, x.run s = .ok () t ∧ t.currentFile = some (nodes ++ added) ∧ Q (instsOf added)

lemma appendInsts_file {s : Asm} {nodes : List (NodeRef × AstNode)} (ns : List InstNode)
    (hf : s.currentFile = some nodes) (hp : s.currentPseudo = none) :
    ∃ added, (s.appendInsts ns).currentFile = some (nodes ++ added) ∧ instsOf added = ns := by
  induction ns generalizing s nodes with
  | nil => exact ⟨[], by simpa [Asm.appendInsts] using hf, rfl⟩
  | cons n ns ih =>
    have hn : s.appendInst n = s.appendNode (.inst n) := by
      unfold Asm.appendInst
      rw [hp]
    have hone : (s.appendNode (.inst n)).currentFile = some (nodes ++ [(s.nextNode, .inst n)]) := by
      simp [Asm.appendNode, hf]
    obtain ⟨added, hfile, hinsts⟩ := ih hone hp
    refine ⟨(s.nextNode, .inst n) :: added, ?_, ?_⟩
    · rw [List.append_assoc] at hfile
      rw [← hn] at hfile
      exact hfile
    · rw [instsOf, List.flatMap_cons, ← instsOf, hinsts]
      rfl

lemma appendInsts_pseudo {s : Asm} {is : List InstNode} (ns : List InstNode)
    (hp : s.currentPseudo = some is) :
    s.appendInsts ns = { s with currentPseudo := some (is ++ ns) } := by
  induction ns generalizing s is with
  | nil =>
    rw [List.append_nil, ← hp]
    rfl
  | cons n ns ih =>
    have hn : s.appendInst n = { s with currentPseudo := some (is ++ [n]) } := by
      unfold Asm.appendInst
      rw [hp]
    change (s.appendInst n).appendInsts ns = _
    rw [hn, ih rfl, List.append_assoc]
    rfl

namespace Parses

variable {x : Assemble Unit} {env : AsmEnv} {ts : List Token} {Q R : List InstNode → Prop}

theorem of_reads (h : Reads x ts fun _ ns _ => Q ns) : Parses x ts Q := by
  intro s nodes hahead hf hp
  obtain ⟨_, t, ns, _, hrun, -, htree, hq⟩ := h s hahead
  obtain ⟨added, hfile, hinsts⟩ := appendInsts_file ns hf hp
  exact ⟨t, added, hrun, htree.1.trans hfile, hinsts ▸ hq⟩

/-- An expansion goes into one node. -/
theorem pseudo {p : PseudoOp} (h : Reads (doParsePseudo env p) ts fun _ ns _ => Q ns) :
    Parses (parsePseudo env p) ts Q := by
  intro s nodes hahead hf hp
  obtain ⟨⟨⟩, t, ns, _, hrun, -, htree, hq⟩ := h { s with currentPseudo := some [] }
    (hahead.congr rfl rfl rfl)
  rw [appendInsts_pseudo ns rfl, List.nil_append] at htree
  obtain ⟨hfile, hnext, hopen⟩ := htree
  refine ⟨Asm.appendNode { t with currentPseudo := none } (.pseudo ns), [(t.nextNode, .pseudo ns)],
    ?_, ?_, ?_⟩
  · change (do
      doParsePseudo env p
      let s ← get
      modify fun s => { s with currentPseudo := none }
      appendNode (.pseudo (s.currentPseudo.getD [])) : Assemble Unit).run
        { s with currentPseudo := some [] } = _
    rw [run_bind_of_ok hrun]
    change EStateM.Result.ok () (Asm.appendNode { t with currentPseudo := none }
      (.pseudo (t.currentPseudo.getD []))) = _
    rw [hopen]
    rfl
  · change t.currentFile.map _ = _
    rw [hfile]
    change s.currentFile.map _ = _
    rw [hf]
    rfl
  · rw [instsOf, List.flatMap_singleton]
    exact hq

theorem mono (h : Parses x ts Q) (hqr : ∀ ns, Q ns → R ns) : Parses x ts R := by
  intro s nodes hahead hf hp
  obtain ⟨t, added, hrun, hfile, hq⟩ := h s nodes hahead hf hp
  exact ⟨t, added, hrun, hfile, hqr _ hq⟩

/-- The parser is a function: what it appends is one list. -/
theorem both (h : Parses x ts Q) (h' : Parses x ts R) : ∃ ns, Q ns ∧ R ns := by
  let s : Asm := { tokBuf := ts, currentFile := some [] }
  have hahead : s.Ahead ts := List.prefix_append ts _
  obtain ⟨t, added, hrun, hfile, hq⟩ := h s [] hahead rfl rfl
  obtain ⟨t', added', hrun', hfile', hr⟩ := h' s [] hahead rfl rfl
  rw [hrun] at hrun'
  cases hrun'
  rw [hfile] at hfile'
  cases hfile'
  exact ⟨_, hq, hr⟩

/-- The keyword of the operation is taken first. -/
theorem advance {f : Token → Assemble Unit} {t : Token} (h : Parses (f t) ts Q) :
    Parses (scannerAdvance env >>= f) (t :: ts) Q := by
  intro s nodes hahead hf hp
  have hrun : (scannerAdvance env).run s = .ok t (s.advanced env) := by
    rw [← (hahead.peek env).1]
    rfl
  obtain ⟨u, added, hu, hfile, hq⟩ := h (s.advanced env) nodes hahead.advance
    (by rw [Asm.advanced_eq]; exact hf) (by rw [Asm.advanced_eq]; exact hp)
  exact ⟨u, added, (run_bind_of_ok hrun).trans hu, hfile, hq⟩

/-- parse_asm_code, from the keyword on -/
def afterKeyword (env : AsmEnv) : Token → Assemble Unit
  | .keyword (.op op) => parseOp env op
  | .keyword (.pseudo p) => parsePseudo env p
  | _ => parseUnsupported env "Instruction not yet supported"

theorem ofOp {op : Opcode} (h : Parses (parseOp env op) ts Q) :
    Parses (parseAsmCode env) (.keyword (.op op) :: ts) Q :=
  advance (f := afterKeyword env) h

theorem ofPseudo {p : PseudoOp} (h : Reads (doParsePseudo env p) ts fun _ ns _ => Q ns) :
    Parses (parseAsmCode env) (.keyword (.pseudo p) :: ts) Q :=
  advance (f := afterKeyword env) (pseudo h)

end Parses

/-! Running. -/

/-- What the code of the instructions does, wherever it is placed. The effect relates the target of
its branches and the address after it to a state and the one that is reached. -/
structure Implements (env : Env) (ns : List InstNode)
    (effect : Word → Word → Machine → Machine → Prop) : Prop where
  emitted : ∀ n ∈ ns, ∀ s t, UserText s → (emitInst env n).run s = .ok () t →
    ∃ disp, Stores (n.code disp) s t
  runs : ∀ target (m : Machine) code, m.Ready → Placed target m.pc ns code →
    ∃ m', effect target (slot 4 m.pc code.length) m m' ∧ CodeRuns env m.pc code m m'

lemma Implements.mk_of_plain {env : Env} {ns : List InstNode}
    {effect : Word → Word → Machine → Machine → Prop} (hb : env.delayedBranches = false)
    (hbare : env.bareMachine = false) (hplain : ∀ n ∈ ns, n.plain = true)
    (h : ∀ target (m : Machine), m.Ready →
      ∃ m', effect target (slot 4 m.pc (sizeAll ns)) m m' ∧ NodesRun env target ns m m') :
    Implements env ns effect where
  emitted n hn _ _ hs hrun := emitInst_stores hs (hplain n hn) hb hbare hrun
  runs target m code hm hcode := by
    rw [hcode.length]
    obtain ⟨m', heffect, hrun⟩ := h target m hm
    exact ⟨m', heffect, hrun code hcode⟩

@[simp] lemma plain_r (op : Opcode) (rd rs rt : Word) : (InstNode.r op rd rs rt).plain = true := rfl
@[simp] lemma plain_rShift (op : Opcode) (rd rt sh : Word) :
    (InstNode.rShift op rd rt sh).plain = true := rfl
@[simp] lemma plain_beqSkip (rt rs : Word) :
    (InstNode.i .beq rt rs (branchOffset 3#32)).plain = true := rfl
@[simp] lemma plain_bneSkip (rt rs : Word) :
    (InstNode.i .bne rt rs (branchOffset 3#32)).plain = true := rfl

/-- An operation on a constant is no branch. -/
lemma plain_const {op : Opcode} (rt rs v : Word)
    (h : (¬ op.isJump ∧ ¬ op.isLoadStore ∧ ¬ op.isBranch : Bool) = true) :
    (InstNode.i op rt rs (constImmExpr v)).plain = true := by
  have hop := of_decide_eq_true h
  simp [InstNode.plain, constOperand, constImmExpr, hop]

@[simp] lemma plain_ori (rt rs v : Word) : (InstNode.i .ori rt rs (constImmExpr v)).plain = true :=
  plain_const rt rs v rfl

lemma plain_label {op : Opcode} (rt rs : Word) {e : ImmExpr} (hop : op.isBranch = true)
    (he : e.symbol.isSome = true) : (InstNode.i op rt rs e).plain = true := by
  have hne : e.symbol ≠ none := by
    rintro h
    simp [h] at he
  rw [InstNode.plain, if_neg hne, hop]

/-- The code of the node is known, and names no label. -/
def InstNode.fixed (n : InstNode) : Prop := n.plain = true ∧ n.isLabelBranch = false

@[simp] lemma fixed_r (op : Opcode) (rd rs rt : Word) : (InstNode.r op rd rs rt).fixed := ⟨rfl, rfl⟩
@[simp] lemma fixed_rShift (op : Opcode) (rd rt sh : Word) :
    (InstNode.rShift op rd rt sh).fixed := ⟨rfl, rfl⟩
@[simp] lemma fixed_beqSkip (rt rs : Word) :
    (InstNode.i .beq rt rs (branchOffset 3#32)).fixed := ⟨rfl, rfl⟩
@[simp] lemma fixed_bneSkip (rt rs : Word) :
    (InstNode.i .bne rt rs (branchOffset 3#32)).fixed := ⟨rfl, rfl⟩
@[simp] lemma fixed_ori (rt rs v : Word) : (InstNode.i .ori rt rs (constImmExpr v)).fixed :=
  ⟨plain_ori rt rs v, rfl⟩

/-! Traps. -/

/-- An exception is raised and delivered. -/
def Machine.faulted (m : Machine) (e : ExcCode) : Machine :=
  deliver ((m.raiseException e).goto ((m.raiseException e).pc + 4))

/-- break 0 -/
lemma brk_runs {env : Env} {m : Machine} (hm : m.Ready) :
    InstRuns env (makeRTypeInst .brk 0 0 0) m (m.faulted .bp) := .raise hm rfl

namespace NodesRun

variable {env : Env} {target : Word} {m : Machine} {c : Prop} [Decidable c] {test : InstNode}

/-- A branch over a trap, taken. -/
theorem pass (hsize : test.size = 1) (hc : c)
    (htest : NodeRuns env target test m (m.goto (if c then slot 4 m.pc 3 else m.pc + 4))) :
    NodesRun env target [test, .rShift .sll 0 0 0, .r .brk 0 0 0] m (m.goto (slot 4 m.pc 3)) := by
  rw [if_pos hc] at htest
  refine skip 2 htest ?_ .nil
  rw [hsize]
  rfl

/-- A branch over a trap, not taken. -/
theorem trap (hm : m.Ready) (hsize : test.size = 1) (hc : ¬ c)
    (htest : NodeRuns env target test m (m.goto (if c then slot 4 m.pc 3 else m.pc + 4))) :
    NodesRun env target [test, .rShift .sll 0 0 0, .r .brk 0 0 0] m
      ((m.goto (slot 4 m.pc 2)).faulted .bp) := by
  rw [if_neg hc] at htest
  have hnop : NodeRuns env target (.rShift .sll 0 0 0) (m.goto (m.pc + 4))
      (m.goto (slot 4 m.pc 2)) := by
    rw [slot_succ]
    exact .nop (hm.goto (m.pc + 4))
  have hbrk : NodeRuns env target (.r .brk 0 0 0) (m.goto (slot 4 m.pc 2)) _ :=
    .inst (fun _ => rfl) (brk_runs (hm.goto _))
  exact next htest (by rw [hsize]; rfl) (next hnop (slot_succ m.pc 1) (leave hbrk))

end NodesRun

/-! Effects. -/

/-- A value goes to a register. $at may change. -/
def Sets (rd : RegNo) (value : Machine → Word) (_ after : Word) (m m' : Machine) : Prop :=
  ∃ a, m' = ((m.setGpr 1 a).setGpr rd (value m)).goto after

/-- A branch is taken or not. $at may change. -/
def Branches (taken : Machine → Bool) (target after : Word) (m m' : Machine) : Prop :=
  ∃ a, m' = (m.setGpr 1 a).goto (if taken m then target else after)


/-! Operands. -/

instance regCount_ne_zero : NeZero 32 := ⟨by decide⟩

/-- A general register, as the scanner has it. -/
def regWord (r : Fin 32) : Word := BitVec.ofNat 32 r
def regNo (r : Fin 32) : RegNo := BitVec.ofNat 8 r

lemma setWidth_regWord (r : Fin 32) : (regWord r).setWidth 8 = regNo r := by
  revert r
  decide

lemma regNo_ne_zero {r : Fin 32} (h : r ≠ 0) : regNo r ≠ 0 := by
  revert r
  decide

lemma regNo_ne_at {r : Fin 32} (h : r ≠ 1) : regNo r ≠ 1 := by
  revert r
  decide

/-- The last operand of an operation: a register or a constant. -/
inductive Source
  | reg (r : Fin 32)
  | imm (v : Word)
  deriving DecidableEq, Repr

namespace Source

def token : Source → Token
  | reg r => .reg (regWord r)
  | imm v => .int v

def valueIn (g : RegNo → Word) : Source → Word
  | reg r => g (regNo r)
  | imm v => v

def value (m : Machine) (src : Source) : Word := src.valueIn m.gpr

def isConst : Source → Bool
  | reg _ => false
  | imm _ => true

/-- The register that an expansion finds the operand in. -/
def place : Source → Word
  | reg r => regWord r
  | imm v => if v = 0 then 0 else 1

/-- The instructions that put a constant other than 0 in $at. -/
def load : Source → List InstNode
  | reg _ => []
  | imm v => if v = 0 then [] else [.i .ori 1 0 (constImmExpr v)]

lemma load_fixed (src : Source) : ∀ n ∈ src.load, n.fixed := by
  cases src with
  | reg r => simp [load]
  | imm v =>
    rw [load]
    split
    · simp
    · simp

section

variable {env : Env} {target : Word} {m : Machine} (src : Source)

/-- The operand is in its place. $at may have changed. -/
theorem load_runs (hm : m.Ready) (hsrc : src ≠ .reg 1) :
    ∃ a, (m.setGpr 1 a).gpr (src.place.setWidth 8) = src.value m ∧
      NodesRun env target src.load m ((m.setGpr 1 a).goto (slot 4 m.pc (sizeAll src.load))) := by
  cases src with
  | reg r =>
    refine ⟨m.gpr 1, ?_, ?_⟩
    · rw [m.setGpr_gpr]
      exact congrArg m.gpr (setWidth_regWord r)
    · rw [m.setGpr_gpr]
      simpa [load] using NodesRun.nil
  | imm v =>
    by_cases hv : v = 0
    · refine ⟨m.gpr 1, ?_, ?_⟩
      · rw [m.setGpr_gpr, place, if_pos hv, value, valueIn, hv]
        exact hm.zero
      · rw [m.setGpr_gpr, load, if_pos hv]
        simpa using NodesRun.nil
    · refine ⟨v, ?_, ?_⟩
      · rw [place, if_neg hv]
        exact m.gpr_setGpr_self 1 v
      · rw [load, if_neg hv]
        exact .leave (.oriAt hm v)

end

lemma isZeroImm_const {v : Word} : isZeroImm (constImmExpr v) = true ↔ v = 0 := by
  simp [isZeroImm, constImmExpr]

variable (env : AsmEnv) (src : Source)

/-- parseRegOrImm, before a token that ends the operand -/
theorem reads {t : Token} {rest : List Token} (hplus : t ≠ .punct '+') (hint : t.asInt = none) :
    Reads (parseRegOrImm env) (src.token :: t :: rest)
      (Gives src.place src.load (t :: rest)) := by
  cases src with
  | reg r => exact (Reads.take (f := Token.asReg) rfl).then_ (.pure _)
  | imm v =>
    refine (Reads.leave (f := Token.asReg) rfl).then_ ((Reads.imm32 v hplus hint).then_ ?_)
    by_cases hv : v = 0
    · rw [if_pos (isZeroImm_const.mpr hv), place, load, if_pos hv, if_pos hv]
      exact .pure 0
    · rw [if_neg (isZeroImm_const.not.mpr hv), place, load, if_neg hv, if_neg hv]
      exact .emit (.pure 1)

end Source

lemma Token.ends_plus {t : Token} (h : t.ends) : t ≠ .punct '+' := by
  rintro rfl
  cases h

lemma Token.ends_asInt {t : Token} (h : t.ends) : t.asInt = none := by
  cases t with
  | int v => cases h
  | _ => rfl


/-- The bare machine has delayed branches. -/
lemma AsmEnv.not_bare (env : AsmEnv) (hb : env.delayedBranches = false)
    (hbare : env.bareMachine = true → env.delayedBranches = true) : env.bareMachine = false := by
  by_contra h
  rw [hbare (by simpa using h)] at hb
  cases hb

def AsmEnv.quiet : AsmEnv := { toEnv := .quiet }

end Spimulator
