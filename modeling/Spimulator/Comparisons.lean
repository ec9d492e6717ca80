import Spimulator.Expansion

/-! The pseudo-ops that set a register to a comparison or branch on one. -/
namespace Spimulator
open Frame CodeBlock

/-! Comparisons. -/

namespace Order

def le : Order → Word → Word → Bool
  | signed, a, b => a.sle b
  | unsigned, a, b => a.ule b

lemma le_eq_not_lt (o : Order) (a b : Word) : o.le a b = !o.lt b a := by
  cases o with
  | signed => exact BitVec.sle_eq_not_slt
  | unsigned => exact BitVec.ule_eq_not_ult _ _

lemma lt_irrefl (o : Order) (a : Word) : o.lt a a = false := by
  cases o with
  | signed => simp [lt, BitVec.slt]
  | unsigned => simp [lt, BitVec.ult]

lemma lt_asymm (o : Order) {a b : Word} (hne : a ≠ b) : o.lt a b = !o.lt b a := by
  cases o with
  | signed =>
    have h : a.toInt ≠ b.toInt := fun h => hne (BitVec.eq_of_toInt_eq h)
    simp only [lt, BitVec.slt]
    by_cases hlt : a.toInt < b.toInt
    · simp [hlt, Int.le_of_lt hlt]
    · simp [hlt]
      omega
  | unsigned =>
    have h : a.toNat ≠ b.toNat := fun h => hne (BitVec.eq_of_toNat_eq h)
    simp only [lt, BitVec.ult]
    by_cases hlt : a.toNat < b.toNat
    · simp [hlt, Nat.le_of_lt hlt]
    · simp [hlt]
      omega

lemma le_eq_or (o : Order) (a b : Word) : o.le a b = (o.lt a b || a = b) := by
  by_cases h : a = b
  · subst h
    simp [o.le_eq_not_lt, o.lt_irrefl]
  · rw [o.le_eq_not_lt, ← o.lt_asymm h]
    simp [h]

end Order

/-- The comparisons that pseudo-ops are named after. -/
inductive Comparison
  | lt (o : Order) | le (o : Order) | gt (o : Order) | ge (o : Order) | eq | ne
  deriving DecidableEq, Repr

namespace Comparison

def holds : Comparison → Word → Word → Bool
  | lt o, a, b => o.lt a b
  | le o, a, b => o.le a b
  | gt o, a, b => o.lt b a
  | ge o, a, b => o.le b a
  | eq, a, b => a = b
  | ne, a, b => a ≠ b

end Comparison

/-- A truth value in a register. -/
def flag (b : Bool) : Word := if b then 1 else 0

/-! Runs. -/

namespace NodesRun

variable {env : Env} {target : Word} {m : Machine}

section

variable (hb : env.delayedBranches = false)

include hb

/-- One of two values: a branch over the first of them, a branch over the other. -/
theorem select {c : Prop} [Decidable c] {rd v w : Word} {test other : InstNode} (hm : m.Ready)
    (hrd : rd.setWidth 8 ≠ (0 : Byte)) (hv : v &&& 0xffff0000 = 0)
    (hsize : test.size = 1) (hsmall : (InstNode.i .ori rd 0 (constImmExpr v)).size = 1)
    (htest : NodeRuns env target test m (m.goto (if c then slot 4 m.pc 3 else m.pc + 4)))
    (hother : ∀ a, NodeRuns env target other (m.goto a) ((m.setGpr (rd.setWidth 8) w).goto (a + 4))) :
    NodesRun env target [test, .i .ori rd 0 (constImmExpr v), .i .beq 0 0 (branchOffset 3),
      .rShift .sll 0 0 0, other] m
      ((m.setGpr (rd.setWidth 8) (if c then w else v)).goto (slot 4 m.pc 5)) := by
  by_cases hc : c
  · rw [if_pos hc] at htest ⊢
    refine skip 2 htest ?_ ?_
    · rw [hsize]
      change _ = slot 4 m.pc (1 + ((InstNode.i .ori rd 0 (constImmExpr v)).size + (1 + 0)))
      rw [hsmall]
      rfl
    · refine next (NodeRuns.nop (hm.goto (slot 4 m.pc 3))) rfl ?_
      have h := hother (slot 4 m.pc 3 + 4)
      have hend : slot 4 m.pc 3 + 4 + 4 = slot 4 m.pc 5 := by
        rw [← slot_one, ← slot_one, slot_add, slot_add]
      rw [hend] at h
      exact leave h
  · rw [if_neg hc] at htest ⊢
    refine next htest (by rw [hsize]; rfl) ?_
    have hori : NodeRuns env target _ _ _ := .oriSmall rd (hm.goto (m.pc + 4)) hv
    refine next hori ?_ ?_
    · rw [hsmall]
      rfl
    · have hskip : NodeRuns env target _ _ _ :=
        .skipTwo (((hm.goto (m.pc + 4)).setGpr hrd v).goto (m.pc + 4 + 4)) hb
      refine leave ?_
      have hend : slot 4 (m.pc + 4 + 4) 3 = slot 4 m.pc 5 := by
        rw [← slot_succ, ← slot_succ]
      rw [← hend]
      exact hskip

end
end NodesRun

/-! Setting a register. -/

/-- The comparison is made where the operands differ; where they are equal it holds. -/
def orEqualNodes (rd rs rt : Word) (other : InstNode) : List InstNode :=
  [.i .bne rs rt (branchOffset 3), .i .ori rd 0 (constImmExpr 1), .i .beq 0 0 (branchOffset 3),
    .rShift .sll 0 0 0, other]

def setEqNodes (ifEq ifNeq rd rs rt : Word) : List InstNode :=
  [.i .beq rs rt (branchOffset 3), .i .ori rd 0 (constImmExpr ifNeq),
    .i .beq 0 0 (branchOffset 3), .rShift .sll 0 0 0, .i .ori rd 0 (constImmExpr ifEq)]

/-- What a comparison is expanded to. -/
def Comparison.setNodes (rd rs rt : Word) : Comparison → List InstNode
  | lt o => [.r o.opcode rd rs rt]
  | le o => orEqualNodes rd rs rt (.r o.opcode rd rs rt)
  | gt o => [.r o.opcode rd rt rs]
  | ge o => orEqualNodes rd rs rt (.r o.opcode rd rt rs)
  | eq => setEqNodes 1 0 rd rs rt
  | ne => setEqNodes 0 1 rd rs rt

section

variable {env : Env} {target : Word} {m : Machine} {rd : Word} (rs rt : Word) (hm : m.Ready)
  (hb : env.delayedBranches = false) (hrd : rd.setWidth 8 ≠ (0 : Byte))

include hm hb hrd

lemma orEqual_run {other : InstNode} {b : Bool}
    (hother : ∀ a, NodeRuns env target other (m.goto a)
      ((m.setGpr (rd.setWidth 8) (flag b)).goto (a + 4))) :
    NodesRun env target (orEqualNodes rd rs rt other) m
      ((m.setGpr (rd.setWidth 8)
        (flag (b || m.gpr (rs.setWidth 8) = m.gpr (rt.setWidth 8)))).goto (slot 4 m.pc 5)) := by
  have htest : NodeRuns env target (.i .bne rs rt (branchOffset 3)) m _ := .bneSkip rt rs hm hb
  have hrun := NodesRun.select hb hm hrd (v := 1) (w := flag b) rfl rfl rfl htest hother
  have hvalue : flag (b || m.gpr (rs.setWidth 8) = m.gpr (rt.setWidth 8)) =
      if m.gpr (rt.setWidth 8) ≠ m.gpr (rs.setWidth 8) then flag b else 1 := by
    by_cases h : m.gpr (rt.setWidth 8) = m.gpr (rs.setWidth 8)
    · rw [if_neg (not_not.mpr h), h]
      simp [flag]
    · rw [if_pos h]
      simp [Ne.symm h]
  rw [hvalue]
  exact hrun

lemma setEq_run {ifEq ifNeq : Word} (heq : ifEq &&& 0xffff0000 = 0) (hneq : ifNeq &&& 0xffff0000 = 0)
    (hsmall : (InstNode.i .ori rd 0 (constImmExpr ifNeq)).size = 1) :
    NodesRun env target (setEqNodes ifEq ifNeq rd rs rt) m
      ((m.setGpr (rd.setWidth 8)
        (if m.gpr (rs.setWidth 8) = m.gpr (rt.setWidth 8) then ifEq else ifNeq)).goto
          (slot 4 m.pc 5)) := by
  have hother (a : Word) : NodeRuns env target (.i .ori rd 0 (constImmExpr ifEq)) (m.goto a)
      ((m.setGpr (rd.setWidth 8) ifEq).goto (a + 4)) := .oriSmall rd (hm.goto a) heq
  have htest : NodeRuns env target (.i .beq rs rt (branchOffset 3)) m _ := .beqSkip rt rs hm hb
  have hrun := NodesRun.select hb hm hrd (v := ifNeq) hneq rfl hsmall htest hother
  have hvalue : (if m.gpr (rs.setWidth 8) = m.gpr (rt.setWidth 8) then ifEq else ifNeq) =
      if m.gpr (rt.setWidth 8) = m.gpr (rs.setWidth 8) then ifEq else ifNeq :=
    if_congr eq_comm rfl rfl
  rw [hvalue]
  exact hrun

/-- The nodes of a comparison set the register to it. -/
theorem setNodes_run (c : Comparison) :
    NodesRun env target (c.setNodes rd rs rt) m
      ((m.setGpr (rd.setWidth 8)
        (flag (c.holds (m.gpr (rs.setWidth 8)) (m.gpr (rt.setWidth 8))))).goto
          (slot 4 m.pc (sizeAll (c.setNodes rd rs rt)))) := by
  cases c with
  | lt o => exact .leave (.compare rd rs rt hm o)
  | gt o => exact .leave (.compare rd rt rs hm o)
  | le o =>
    rw [Comparison.holds, o.le_eq_or]
    exact orEqual_run rs rt hm hb hrd fun a => .compare rd rs rt (hm.goto a) o
  | ge o =>
    have hsymm : decide (m.gpr (rt.setWidth 8) = m.gpr (rs.setWidth 8)) =
        decide (m.gpr (rs.setWidth 8) = m.gpr (rt.setWidth 8)) := decide_eq_decide.mpr eq_comm
    rw [Comparison.holds, o.le_eq_or, hsymm]
    have hother (a : Word) : NodeRuns env target (.r o.opcode rd rt rs) (m.goto a)
        ((m.setGpr (rd.setWidth 8)
          (flag (o.lt (m.gpr (rt.setWidth 8)) (m.gpr (rs.setWidth 8))))).goto (a + 4)) :=
      .compare rd rt rs (hm.goto a) o
    exact orEqual_run rs rt hm hb hrd hother
  | eq =>
    have hrun : NodesRun env target (setEqNodes 1 0 rd rs rt) m _ :=
      setEq_run rs rt hm hb hrd rfl rfl rfl
    simp only [Comparison.holds, flag, decide_eq_true_eq]
    exact hrun
  | ne =>
    have hrun : NodesRun env target (setEqNodes 0 1 rd rs rt) m _ :=
      setEq_run rs rt hm hb hrd rfl rfl rfl
    simp only [Comparison.holds, flag, decide_eq_true_eq, ite_not]
    exact hrun

end

/-! Branching. -/

/-- The branch on a truth value in $at. -/
def branchOn (b : Bool) : Opcode := if b then .bne else .beq

/-- What a branch on a comparison with a register is expanded to. -/
def Comparison.branchNodes (rs rt : Word) (e : ImmExpr) : Comparison → List InstNode
  | lt o => [.r o.opcode 1 rs rt, .i .bne 0 1 e]
  | le o => [.r o.opcode 1 rt rs, .i .beq 0 1 e]
  | gt o => [.r o.opcode 1 rt rs, .i .bne 0 1 e]
  | ge o => [.r o.opcode 1 rs rt, .i .beq 0 1 e]
  | eq => [.i .beq rt rs e]
  | ne => [.i .bne rt rs e]

/-- What a branch on a comparison with a constant is expanded to. -/
def Comparison.branchImmNodes (rs v : Word) (e : ImmExpr) : Comparison → List InstNode
  | lt o => [.i o.immOpcode 1 rs (constImmExpr v), .i .bne 0 1 e]
  | le .signed => [.i .slti 1 rs (constImmExpr (v + 1)), .i .bne 0 1 e]
  | le .unsigned => [.i .ori 1 0 (constImmExpr v), .i .beq rs 1 e, .r .sltu 1 rs 1, .i .bne 0 1 e]
  | gt .signed => [.i .slti 1 rs (constImmExpr (v + 1)), .i .beq 0 1 e]
  | gt .unsigned => [.i .ori 1 0 (constImmExpr v), .i .beq rs 1 (branchOffset 3), .r .sltu 1 rs 1,
      .i .beq 0 1 e]
  | ge o => [.i o.immOpcode 1 rs (constImmExpr v), .i .beq 0 1 e]
  | eq => (Source.imm v).load ++ [.i .beq rs (Source.imm v).place e]
  | ne => (Source.imm v).load ++ [.i .bne rs (Source.imm v).place e]

/-- A comparison with a constant, as its branch decides it: a signed order that is not an
instruction compares with the next constant. -/
def Comparison.decides (v a : Word) : Comparison → Bool
  | le .signed => a.slt (v + 1)
  | gt .signed => !a.slt (v + 1)
  | c => c.holds a v

lemma size_label (op : Opcode) (rt rs : Word) {e : ImmExpr} (he : e.symbol.isSome = true) :
    (InstNode.i op rt rs e).size = 1 := by
  rw [InstNode.size, NodeRuns.code_label rs rt he]
  rfl

section

variable {env : Env} {target : Word} {m : Machine} (hm : m.Ready)
  (hb : env.delayedBranches = false) {e : ImmExpr} (he : e.symbol.isSome = true)

include hm hb he

/-- A test that goes to $at, and the branch on it. -/
lemma testBranch_run {test : InstNode} {b d : Bool} (w : Bool) (hd : d = (b == w))
    (htest : NodeRuns env target test m ((m.setGpr 1 (flag b)).goto (slot 4 m.pc test.size))) :
    NodesRun env target [test, .i (branchOn w) 0 1 e] m
      ((m.setGpr 1 (flag b)).goto
        (if d then target else slot 4 m.pc (sizeAll [test, .i (branchOn w) 0 1 e]))) := by
  have hready := (hm.setGpr (show (1 : Byte) ≠ 0 by decide) (flag b)).goto (slot 4 m.pc test.size)
  have hzero : (m.setGpr 1 (flag b)).gpr ((0 : Word).setWidth 8) = 0 := hready.zero
  have hat : (m.setGpr 1 (flag b)).gpr ((1 : Word).setWidth 8) = flag b := m.gpr_setGpr_self _ _
  have hend : slot 4 m.pc (sizeAll [test, .i (branchOn w) 0 1 e]) = slot 4 m.pc test.size + 4 := by
    rw [sizeAll_cons, sizeAll_cons, sizeAll_nil, size_label _ _ _ he, ← slot_one, slot_add]
  refine .next htest rfl (.leave ?_)
  rw [hend, hd]
  cases w with
  | true =>
    have h : NodeRuns env target (.i .bne 0 1 e) _ _ := .bneLabel 1 0 hready hb he
    rw [Machine.toRegs_goto, hat, hzero] at h
    have hflag : flag b ≠ 0 ↔ (b == true) = true := by cases b <;> simp [flag]
    rw [if_congr hflag rfl rfl] at h
    exact h
  | false =>
    have h : NodeRuns env target (.i .beq 0 1 e) _ _ := .beqLabel 1 0 hready hb he
    rw [Machine.toRegs_goto, hat, hzero] at h
    have hflag : flag b = 0 ↔ (b == false) = true := by cases b <;> simp [flag]
    rw [if_congr hflag rfl rfl] at h
    exact h

/-- A branch on a comparison of registers. -/
theorem branchNodes_run (c : Comparison) (rs rt : Word) :
    ∃ a, NodesRun env target (c.branchNodes rs rt e) m ((m.setGpr 1 a).goto
      (if c.holds (m.gpr (rs.setWidth 8)) (m.gpr (rt.setWidth 8)) then target
        else slot 4 m.pc (sizeAll (c.branchNodes rs rt e)))) := by
  have htest (o : Order) (rs rt : Word) : NodeRuns env target (.r o.opcode 1 rs rt) m
      ((m.setGpr 1 (flag (o.lt (m.gpr (rs.setWidth 8)) (m.gpr (rt.setWidth 8))))).goto
        (slot 4 m.pc 1)) := .compare 1 rs rt hm o
  cases c with
  | lt o => exact ⟨_, testBranch_run hm hb he true (by simp [Comparison.holds]) (htest o rs rt)⟩
  | gt o => exact ⟨_, testBranch_run hm hb he true (by simp [Comparison.holds]) (htest o rt rs)⟩
  | le o =>
    exact ⟨_, testBranch_run hm hb he false (by simp [Comparison.holds, o.le_eq_not_lt])
      (htest o rt rs)⟩
  | ge o =>
    exact ⟨_, testBranch_run hm hb he false (by simp [Comparison.holds, o.le_eq_not_lt])
      (htest o rs rt)⟩
  | eq =>
    refine ⟨m.gpr 1, .leave ?_⟩
    rw [m.setGpr_gpr, Comparison.branchNodes, sizeAll_cons, size_label _ _ _ he]
    simp only [Comparison.holds, decide_eq_true_eq]
    exact NodeRuns.beqLabel rs rt hm hb he
  | ne =>
    refine ⟨m.gpr 1, .leave ?_⟩
    rw [m.setGpr_gpr, Comparison.branchNodes, sizeAll_cons, size_label _ _ _ he]
    simp only [Comparison.holds, decide_eq_true_eq]
    exact NodeRuns.bneLabel rs rt hm hb he

/-- A constant is loaded for the test of equality. -/
lemma equalImm_run {c : Comparison} (hc : c = .eq ∨ c = .ne) (rs v : Word)
    (hrs : rs.setWidth 8 ≠ (1 : Byte)) :
    ∃ a, NodesRun env target
      ((Source.imm v).load ++ c.branchNodes (Source.imm v).place rs e) m
      ((m.setGpr 1 a).goto (if c.holds (m.gpr (rs.setWidth 8)) v then target
        else slot 4 m.pc
          (sizeAll ((Source.imm v).load ++ c.branchNodes (Source.imm v).place rs e)))) := by
  obtain ⟨a, hvalue, hload⟩ : ∃ a, _ ∧ NodesRun env target _ m _ :=
    Source.load_runs (.imm v) hm (by simp)
  have hready := (hm.setGpr (show (1 : Byte) ≠ 0 by decide) a).goto
    (slot 4 m.pc (sizeAll (Source.imm v).load))
  obtain ⟨b, hbranch⟩ : ∃ b, NodesRun env target _ _ _ :=
    branchNodes_run hready hb he c (Source.imm v).place rs
  rw [Machine.toRegs_goto, hvalue, Machine.gpr_setGpr_of_ne _ hrs, Machine.setGpr_goto,
    Machine.goto_goto, Machine.setGpr_setGpr, Machine.pc_goto, slot_add, ← sizeAll_append] at hbranch
  have hsymm : c.holds (Source.value m (.imm v)) (m.gpr (rs.setWidth 8)) =
      c.holds (m.gpr (rs.setWidth 8)) v := by
    rcases hc with rfl | rfl
    · exact decide_eq_decide.mpr eq_comm
    · exact decide_eq_decide.mpr (not_congr eq_comm)
  rw [hsymm] at hbranch
  exact ⟨b, hload.append rfl hbranch⟩

/-- The unsigned orders that are no instructions: a constant equal to the register is found by a
branch of its own. -/
lemma unsignedImm_run {first : InstNode} {w d : Bool} (rs v : Word)
    (hrs : rs.setWidth 8 ≠ (1 : Byte)) (hsize : first.size = 1)
    (hd : m.gpr (rs.setWidth 8) ≠ v → d = ((m.gpr (rs.setWidth 8)).ult v == w))
    (hfirst : ∀ m' : Machine, m'.Ready → m'.gpr 1 = v → m'.gpr (rs.setWidth 8) = m.gpr (rs.setWidth 8) →
      NodeRuns env target first m' (m'.goto (if v = m.gpr (rs.setWidth 8) then
        (if d then target else slot 4 m'.pc 3) else m'.pc + 4))) :
    ∃ a, NodesRun env target
      [.i .ori 1 0 (constImmExpr v), first, .r .sltu 1 rs 1, .i (branchOn w) 0 1 e] m
      ((m.setGpr 1 a).goto (if d then target else slot 4 m.pc (sizeAll
        [.i .ori 1 0 (constImmExpr v), first, .r .sltu 1 rs 1, .i (branchOn w) 0 1 e]))) := by
  let p := slot 4 m.pc (InstNode.i .ori 1 0 (constImmExpr v)).size
  have hload : NodeRuns env target _ m ((m.setGpr 1 v).goto p) := .oriAt hm v
  have hready := (hm.setGpr (show (1 : Byte) ≠ 0 by decide) v).goto p
  have hend : slot 4 m.pc (sizeAll
      [.i .ori 1 0 (constImmExpr v), first, .r .sltu 1 rs 1, .i (branchOn w) 0 1 e]) =
      slot 4 p 3 := by
    rw [sizeAll_cons, ← slot_add, sizeAll_cons, sizeAll_cons, sizeAll_cons, sizeAll_nil,
      size_label _ _ _ he, hsize]
    rfl
  have htest := hfirst _ hready (m.gpr_setGpr_self 1 v) (m.gpr_setGpr_of_ne hrs v)
  rw [Machine.pc_goto, Machine.goto_goto] at htest
  rw [hend]
  by_cases heq : v = m.gpr (rs.setWidth 8)
  · rw [if_pos heq] at htest
    exact ⟨v, .next hload rfl (.leave htest)⟩
  · rw [if_neg heq] at htest
    have hnext := (hm.setGpr (show (1 : Byte) ≠ 0 by decide) v).goto (p + 4)
    have hcompare : NodeRuns env target (.r .sltu 1 rs 1) ((m.setGpr 1 v).goto (p + 4))
        ((((m.setGpr 1 v).goto (p + 4)).setGpr 1 (flag ((m.gpr (rs.setWidth 8)).ult v))).goto
          (p + 4 + 4)) := by
      have h : NodeRuns env target _ _ _ := .compare 1 rs 1 hnext .unsigned
      simp only [register_at, Machine.toRegs_goto, Machine.gpr_setGpr_self,
        Machine.gpr_setGpr_of_ne _ hrs] at h
      exact h
    have hbranch := testBranch_run hnext hb he w (hd (Ne.symm heq)) hcompare
    rw [Machine.setGpr_goto, Machine.setGpr_setGpr, Machine.goto_goto] at hbranch
    have hlast : slot 4 p 3 = slot 4 (p + 4) (sizeAll [.r .sltu 1 rs 1, .i (branchOn w) 0 1 e]) := by
      rw [sizeAll_cons, sizeAll_cons, size_label _ _ _ he, slot_succ]
      rfl
    rw [hlast]
    exact ⟨_, .next hload rfl (.next htest (by rw [hsize]; rfl) hbranch)⟩

/-- A branch on a comparison with a constant, as the code decides it. -/
theorem branchImmNodes_run (c : Comparison) (rs v : Word) (hrs : rs.setWidth 8 ≠ (1 : Byte)) :
    ∃ a, NodesRun env target (c.branchImmNodes rs v e) m ((m.setGpr 1 a).goto
      (if c.decides v (m.gpr (rs.setWidth 8)) then target
        else slot 4 m.pc (sizeAll (c.branchImmNodes rs v e)))) := by
  have htest (o : Order) (v : Word) : NodeRuns env target (.i o.immOpcode 1 rs (constImmExpr v)) m
      ((m.setGpr 1 (flag (o.lt (m.gpr (rs.setWidth 8)) v))).goto
        (slot 4 m.pc (InstNode.i o.immOpcode 1 rs (constImmExpr v)).size)) :=
    .compareConst rs hm o hrs v
  cases c with
  | lt o =>
    exact ⟨_, testBranch_run hm hb he true (by simp [Comparison.decides, Comparison.holds])
      (htest o v)⟩
  | ge o =>
    exact ⟨_, testBranch_run hm hb he false
      (by simp [Comparison.decides, Comparison.holds, o.le_eq_not_lt]) (htest o v)⟩
  | le o =>
    cases o with
    | signed =>
      exact ⟨_, testBranch_run hm hb he true (by simp [Comparison.decides, Order.lt])
        (htest .signed (v + 1))⟩
    | unsigned =>
      refine unsignedImm_run (w := true) hm hb he rs v hrs (size_label _ _ _ he) (fun hne => ?_) ?_
      · simp [Comparison.decides, Comparison.holds, Order.le_eq_or, Order.lt, hne]
      · intro m' hm' hat hsame
        have h : NodeRuns env target (.i .beq rs 1 e) m' _ := .beqLabel 1 rs hm' hb he
        rw [register_at, hat, hsame] at h
        by_cases heq : v = m.gpr (rs.setWidth 8)
        · rw [if_pos heq] at h ⊢
          rw [if_pos (by simp [Comparison.decides, Comparison.holds, Order.le_eq_or, heq])]
          exact h
        · rw [if_neg heq] at h ⊢
          exact h
  | gt o =>
    cases o with
    | signed =>
      exact ⟨_, testBranch_run hm hb he false (by simp [Comparison.decides, Order.lt])
        (htest .signed (v + 1))⟩
    | unsigned =>
      refine unsignedImm_run (w := false) hm hb he rs v hrs rfl (fun hne => ?_) ?_
      · have hflip := Order.unsigned.lt_asymm (Ne.symm hne)
        simpa [Comparison.decides, Comparison.holds, Order.lt] using hflip
      · intro m' hm' hat hsame
        have h : NodeRuns env target (.i .beq rs 1 (branchOffset 3)) m' _ := .beqSkip 1 rs hm' hb
        rw [register_at, hat, hsame] at h
        by_cases heq : v = m.gpr (rs.setWidth 8)
        · rw [if_pos heq] at h ⊢
          rw [if_neg (by simp [Comparison.decides, Comparison.holds, Order.lt_irrefl, heq])]
          exact h
        · rw [if_neg heq] at h ⊢
          exact h
  | eq => exact equalImm_run hm hb he (Or.inl rfl) rs v hrs
  | ne => exact equalImm_run hm hb he (Or.inr rfl) rs v hrs

end

/-- Comparing with the next constant, unless that wraps around. -/
lemma slt_next {a v : Word} (hv : v ≠ 0x7fffffff) : a.slt (v + 1) = a.sle v := by
  have hmin := BitVec.le_toInt v
  have hmax := v.toInt_lt
  have hne : v.toInt ≠ 2^31 - 1 := fun h => hv (BitVec.eq_of_toInt_eq h)
  have hnext : (v + 1).toInt = v.toInt + 1 := by
    rw [BitVec.toInt_add]
    exact Int.bmod_eq_of_le (by change _ ≤ v.toInt + 1; omega) (by change v.toInt + 1 < _; omega)
  rw [BitVec.slt, BitVec.sle, hnext]
  exact decide_eq_decide.mpr Int.lt_add_one_iff

lemma sle_limit (a : Word) : a.sle 0x7fffffff = true := by
  have h := a.toInt_lt
  rw [BitVec.sle, decide_eq_true_eq]
  exact Int.le_of_lt_add_one h

lemma slt_limit (a : Word) : a.slt (0x7fffffff + 1) = false := by
  have h := BitVec.le_toInt a
  rw [BitVec.slt, decide_eq_false_iff_not, Int.not_lt]
  exact h

/-- The constant whose successor is not greater. -/
def Comparison.pastLimit (v : Word) (c : Comparison) : Prop :=
  (c = .gt .signed ∨ c = .le .signed) ∧ v = 0x7fffffff

/-- The branches decide the comparison they are named after, but for one constant. -/
lemma decides_eq_holds {c : Comparison} {v : Word} (h : ¬ c.pastLimit v) (a : Word) :
    c.decides v a = c.holds a v := by
  have hv (hc : c = .gt .signed ∨ c = .le .signed) : v ≠ 0x7fffffff := fun hv => h ⟨hc, hv⟩
  cases c with
  | le o =>
    cases o with
    | signed => exact slt_next (hv (Or.inr rfl))
    | unsigned => rfl
  | gt o =>
    cases o with
    | signed =>
      change (!a.slt (v + 1)) = v.slt a
      rw [slt_next (hv (Or.inl rfl)), BitVec.sle_eq_not_slt, Bool.not_not]
    | unsigned => rfl
  | _ => rfl

lemma decides_limit {c : Comparison} {v : Word} (h : c.pastLimit v) (a : Word) :
    c.decides v a = !c.holds a v := by
  obtain ⟨rfl | rfl, rfl⟩ := h
  · change (!a.slt (0x7fffffff + 1)) = !(BitVec.slt 0x7fffffff a)
    rw [slt_limit, ← BitVec.sle_eq_not_slt, sle_limit]
    rfl
  · change a.slt (0x7fffffff + 1) = !a.sle 0x7fffffff
    rw [slt_limit, sle_limit]
    rfl

/-! Statements. -/

/-- The comparison that an operation sets a register to. -/
def PseudoOp.setComparison : PseudoOp → Option Comparison
  | .sle => some (.le .signed)
  | .sleu => some (.le .unsigned)
  | .sgt => some (.gt .signed)
  | .sgtu => some (.gt .unsigned)
  | .sge => some (.ge .signed)
  | .sgeu => some (.ge .unsigned)
  | .seq => some .eq
  | .sne => some .ne
  | _ => none

/-- The comparison that an operation branches on. -/
def Keyword.branchComparison : Keyword → Option Comparison
  | .pseudo .bgt => some (.gt .signed)
  | .pseudo .bgtu => some (.gt .unsigned)
  | .pseudo .bge => some (.ge .signed)
  | .pseudo .bgeu => some (.ge .unsigned)
  | .pseudo .blt => some (.lt .signed)
  | .pseudo .bltu => some (.lt .unsigned)
  | .pseudo .ble => some (.le .signed)
  | .pseudo .bleu => some (.le .unsigned)
  | .op .beq => some .eq
  | .op .bne => some .ne
  | _ => none

/-- A statement that compares. -/
inductive CompareLine
  | set (p : PseudoOp) (rd rs : Fin 32) (src : Source)
  | branch (k : Keyword) (rs : Fin 32) (src : Source) (label : String)
  deriving DecidableEq, Repr

namespace CompareLine

def tokens : CompareLine → List Token
  | set p rd rs src => [.keyword (.pseudo p), .reg (regWord rd), .reg (regWord rs), src.token]
  | branch k rs src label => [.keyword k, .reg (regWord rs), src.token, .id label]

def comparison : CompareLine → Option Comparison
  | set p _ _ _ => p.setComparison
  | branch k _ _ _ => k.branchComparison

/-- No operand is $at, and the destination is not $0. -/
def operandsFree : CompareLine → Prop
  | set _ rd rs src => rd ≠ 0 ∧ rd ≠ 1 ∧ rs ≠ 1 ∧ src ≠ .reg 1
  | branch _ rs src _ => rs ≠ 1 ∧ src ≠ .reg 1

/-- What a statement is to do when it names the comparison `c`. -/
def effect (c : Comparison) : CompareLine → Word → Word → Machine → Machine → Prop
  | set _ rd rs src => Sets (regNo rd) fun m => flag (c.holds (m.gpr (regNo rs)) (src.value m))
  | branch _ rs src _ => Branches fun m => c.holds (m.gpr (regNo rs)) (src.value m)

/-- The statement, up to its end, is parsed into instructions that do what it is to do. -/
def Correct (env : AsmEnv) (line : CompareLine) (c : Comparison) : Prop :=
  ∀ t : Token, t.ends → Parses (parseAsmCode env) (line.tokens ++ [t]) fun ns =>
    Implements env.toEnv ns (line.effect c)

/-- A branch on a signed comparison with the greatest constant, whose successor is the least. -/
def pastLimit (c : Comparison) : CompareLine → Prop
  | branch _ _ (.imm v) _ => c.pastLimit v
  | _ => False

end CompareLine

section

variable {env : AsmEnv}

lemma reads_parseSet {expand : Word → Word → Word → Assemble Unit} {ns : List InstNode}
    (rd rs : Word) (src : Source) {t : Token} (ht : t.ends)
    (hexpand : Appends (expand rd rs src.place) ns) :
    Reads (parseSet env expand) [.reg rd, .reg rs, src.token, t]
      fun _ ns' _ => ns' = src.load ++ ns := by
  refine (Reads.register rd).then_ ((Reads.register rs).then_ ?_)
  refine (src.reads env (Token.ends_plus ht) (Token.ends_asInt ht)).then_ ((hexpand _).mono ?_)
  rintro _ _ _ ⟨rfl, rfl, rfl⟩
  rfl

lemma orEqual_appends (rd rs rt : Word) (n : InstNode) :
    Appends (setOrEqualInst rd rs rt (appendInst n)) (orEqualNodes rd rs rt n) :=
  .seq (.inst _) (.seq (.inst _) (.seq (.inst _) (.seq (.inst _) (.inst n))))

lemma setEq_appends (ifEq ifNeq rd rs rt : Word) :
    Appends (setEqInst ifEq ifNeq rd rs rt) (setEqNodes ifEq ifNeq rd rs rt) :=
  .seq (.inst _) (.seq (.inst _) (.seq (.inst _) (.seq (.inst _) (.inst _))))

/-- What a set pseudo-op is parsed into. -/
lemma set_parses {p : PseudoOp} {c : Comparison} (hc : p.setComparison = some c) (rd rs : Fin 32)
    (src : Source) {t : Token} (ht : t.ends) :
    Parses (parseAsmCode env) ((CompareLine.set p rd rs src).tokens ++ [t]) fun ns =>
      ns = src.load ++ c.setNodes (regWord rd) (regWord rs) src.place := by
  have hparse {expand : Word → Word → Word → Assemble Unit}
      (hp : doParsePseudo env p = parseSet env expand)
      (hexpand : Appends (expand (regWord rd) (regWord rs) src.place)
        (c.setNodes (regWord rd) (regWord rs) src.place)) :
      Parses (parseAsmCode env) ((CompareLine.set p rd rs src).tokens ++ [t]) fun ns =>
        ns = src.load ++ c.setNodes (regWord rd) (regWord rs) src.place :=
    .ofPseudo (hp ▸ reads_parseSet (regWord rd) (regWord rs) src ht hexpand)
  unfold PseudoOp.setComparison at hc
  split at hc <;> cases hc
  · exact hparse rfl (orEqual_appends _ _ _ _)
  · exact hparse rfl (orEqual_appends _ _ _ _)
  · exact hparse rfl (.inst _)
  · exact hparse rfl (.inst _)
  · exact hparse rfl (orEqual_appends _ _ _ _)
  · exact hparse rfl (orEqual_appends _ _ _ _)
  · exact hparse rfl (setEq_appends _ _ _ _ _)
  · exact hparse rfl (setEq_appends _ _ _ _ _)

/-- What a branch on a comparison is expanded to. -/
def Comparison.sourceNodes (c : Comparison) (rs : Word) (e : ImmExpr) : Source → List InstNode
  | .reg r => c.branchNodes rs (regWord r) e
  | .imm v => c.branchImmNodes rs v e

lemma reads_compareBranch {compareReg : Word → Word → Assemble Unit}
    {compareImm : Word → ImmExpr → ImmExpr → Assemble Unit} {branchReg branchImm : Opcode}
    {c : Comparison} (rs : Word) (src : Source) (label : String) (rest : List Token)
    (hreg : ∀ rt e, Appends (do
      compareReg rs rt
      emitI branchReg 0 1 e) (c.branchNodes rs rt e))
    (himm : ∀ v e, Appends (do
      compareImm rs (constImmExpr v) e
      emitI branchImm 0 1 e) (c.branchImmNodes rs v e)) :
    Reads (parseCompareBranch env compareReg branchReg compareImm branchImm)
      (.reg rs :: src.token :: .id label :: rest)
      fun _ ns _ => ∃ e : ImmExpr, e.symbol.isSome = true ∧ ns = c.sourceNodes rs e src := by
  refine (Reads.register rs).then_ ?_
  cases src with
  | reg r =>
    refine (Reads.take (f := Token.asReg) rfl).then_ ((Reads.label label).bind ?_)
    rintro e _ ts ⟨⟨he, -, -⟩, rfl⟩
    refine (hreg (regWord r) e ts).mono ?_
    rintro _ _ _ ⟨rfl, rfl, rfl⟩
    exact ⟨e, he, rfl⟩
  | imm v =>
    refine (Reads.leave (f := Token.asReg) rfl).then_ ((Reads.imm32 v (by simp) rfl).then_
      ((Reads.label label).bind ?_))
    rintro e _ ts ⟨⟨he, -, -⟩, rfl⟩
    refine (himm v e ts).mono ?_
    rintro _ _ _ ⟨rfl, rfl, rfl⟩
    exact ⟨e, he, rfl⟩

lemma reads_parseB2 {op : Opcode} {c : Comparison} (rs : Word) (src : Source) (label : String)
    (rest : List Token) (hreg : ∀ rt e, c.branchNodes rs rt e = [.i op rt rs e])
    (himm : ∀ v e, c.branchImmNodes rs v e =
      (Source.imm v).load ++ [.i op rs (Source.imm v).place e]) :
    Reads (parseB2 env op) (.reg rs :: src.token :: .id label :: rest)
      fun _ ns _ => ∃ e : ImmExpr, e.symbol.isSome = true ∧ ns = c.sourceNodes rs e src := by
  refine (Reads.register rs).then_ ?_
  cases src with
  | reg r =>
    refine (Reads.take (f := Token.asReg) rfl).then_ ((Reads.label label).bind ?_)
    rintro e _ ts ⟨⟨he, -, -⟩, rfl⟩
    refine (Reads.append _).mono ?_
    rintro _ _ _ ⟨rfl, rfl, rfl⟩
    exact ⟨e, he, (hreg (regWord r) e).symm⟩
  | imm v =>
    refine (Reads.leave (f := Token.asReg) rfl).then_ ((Reads.imm32 v (by simp) rfl).then_
      ((Reads.label label).bind ?_))
    rintro e _ ts ⟨⟨he, -, -⟩, rfl⟩
    have hnodes : c.sourceNodes rs e (.imm v) = _ := himm v e
    by_cases hv : v = 0
    · rw [if_pos (Source.isZeroImm_const.mpr hv)]
      refine (Reads.append _).mono ?_
      rintro _ _ _ ⟨rfl, rfl, rfl⟩
      refine ⟨e, he, ?_⟩
      rw [hnodes, Source.load, Source.place, if_pos hv, if_pos hv]
      rfl
    · rw [if_neg (Source.isZeroImm_const.not.mpr hv)]
      refine (Reads.emit (.append _)).mono ?_
      rintro _ _ _ ⟨rfl, rfl, rfl⟩
      refine ⟨e, he, ?_⟩
      rw [hnodes, Source.load, Source.place, if_neg hv, if_neg hv]
      rfl

/-- What a branch is parsed into. -/
lemma branch_parses {k : Keyword} {c : Comparison} (hc : k.branchComparison = some c) (rs : Fin 32)
    (src : Source) (label : String) (t : Token) :
    Parses (parseAsmCode env) ((CompareLine.branch k rs src label).tokens ++ [t]) fun ns =>
      ∃ e : ImmExpr, e.symbol.isSome = true ∧ ns = c.sourceNodes (regWord rs) e src := by
  have htwo (n n' : InstNode) : Appends (do
      appendInst n
      appendInst n') [n, n'] := .seq (.inst n) (.inst n')
  have hthree (n₁ n₂ n₃ : InstNode) : Appends (do
      appendInst n₁
      appendInst n₂
      appendInst n₃) [n₁, n₂, n₃] := .seq (.inst n₁) (.seq (.inst n₂) (.inst n₃))
  have hfour (n₁ n₂ n₃ n₄ : InstNode) : Appends (do
      (do
        appendInst n₁
        appendInst n₂
        appendInst n₃)
      appendInst n₄) [n₁, n₂, n₃, n₄] := (hthree n₁ n₂ n₃).seq (.inst n₄)
  unfold Keyword.branchComparison at hc
  split at hc <;> cases hc
  · exact .ofPseudo (reads_compareBranch _ src label _ (fun _ _ => htwo _ _) fun _ _ => htwo _ _)
  · exact .ofPseudo (reads_compareBranch _ src label _ (fun _ _ => htwo _ _) fun _ _ => hfour _ _ _ _)
  · exact .ofPseudo (reads_compareBranch _ src label _ (fun _ _ => htwo _ _) fun _ _ => htwo _ _)
  · exact .ofPseudo (reads_compareBranch _ src label _ (fun _ _ => htwo _ _) fun _ _ => htwo _ _)
  · exact .ofPseudo (reads_compareBranch _ src label _ (fun _ _ => htwo _ _) fun _ _ => htwo _ _)
  · exact .ofPseudo (reads_compareBranch _ src label _ (fun _ _ => htwo _ _) fun _ _ => htwo _ _)
  · exact .ofPseudo (reads_compareBranch _ src label _ (fun _ _ => htwo _ _) fun _ _ => htwo _ _)
  · exact .ofPseudo (reads_compareBranch _ src label _ (fun _ _ => htwo _ _) fun _ _ => hfour _ _ _ _)
  · exact .ofOp (.of_reads (reads_parseB2 _ src label _ (fun _ _ => rfl) fun _ _ => rfl))
  · exact .ofOp (.of_reads (reads_parseB2 _ src label _ (fun _ _ => rfl) fun _ _ => rfl))

lemma setNodes_plain (rd rs rt : Word) (c : Comparison) :
    ∀ n ∈ c.setNodes rd rs rt, n.plain = true := by
  cases c <;> simp [Comparison.setNodes, orEqualNodes, setEqNodes]

/-- The instructions of a set pseudo-op do what it is to do. -/
lemma set_implements {env : Env} (hb : env.delayedBranches = false) (hbare : env.bareMachine = false)
    (c : Comparison) {rd rs : Fin 32} {src : Source} (hrd : rd ≠ 0) (hrs : rs ≠ 1)
    (hsrc : src ≠ .reg 1) :
    Implements env (src.load ++ c.setNodes (regWord rd) (regWord rs) src.place)
      (Sets (regNo rd) fun m => flag (c.holds (m.gpr (regNo rs)) (src.value m))) := by
  refine .mk_of_plain hb hbare (fun n hn => ?_) fun target m hm => ?_
  · rcases List.mem_append.mp hn with hn | hn
    · exact (src.load_fixed n hn).1
    · exact setNodes_plain _ _ _ c n hn
  · obtain ⟨a, hvalue, hload⟩ : ∃ a, _ ∧ NodesRun env target _ m _ := src.load_runs hm hsrc
    have hready := (hm.setGpr (show (1 : Byte) ≠ 0 by decide) a).goto (slot 4 m.pc (sizeAll src.load))
    have hset : NodesRun env target (c.setNodes (regWord rd) (regWord rs) src.place) _ _ :=
      setNodes_run (regWord rs) src.place hready hb
        (by rw [setWidth_regWord]; exact regNo_ne_zero hrd) c
    rw [setWidth_regWord, setWidth_regWord, Machine.toRegs_goto, hvalue,
      Machine.gpr_setGpr_of_ne _ (regNo_ne_at hrs), Machine.setGpr_goto, Machine.goto_goto,
      Machine.pc_goto, slot_add, ← sizeAll_append] at hset
    exact ⟨_, ⟨a, rfl⟩, hload.append rfl hset⟩

lemma plain_slti (o : Order) (rt rs v : Word) :
    (InstNode.i o.immOpcode rt rs (constImmExpr v)).plain = true := by
  cases o
  · exact plain_const rt rs v rfl
  · exact plain_const rt rs v rfl

lemma sourceNodes_plain (c : Comparison) (rs : Word) {e : ImmExpr} (he : e.symbol.isSome = true)
    (src : Source) : ∀ n ∈ c.sourceNodes rs e src, n.plain = true := by
  have hbeq (rt rs : Word) : (InstNode.i .beq rt rs e).plain = true := plain_label rt rs rfl he
  have hbne (rt rs : Word) : (InstNode.i .bne rt rs e).plain = true := plain_label rt rs rfl he
  cases src with
  | reg r => cases c <;> simp [Comparison.sourceNodes, Comparison.branchNodes, hbeq, hbne]
  | imm v =>
    have hload := (Source.imm v).load_fixed
    cases c with
    | lt o => simp [Comparison.sourceNodes, Comparison.branchImmNodes, plain_slti, hbne]
    | ge o => simp [Comparison.sourceNodes, Comparison.branchImmNodes, plain_slti, hbeq]
    | le o =>
      have h := plain_slti .signed 1 rs (v + 1)
      cases o
      · simp [Comparison.sourceNodes, Comparison.branchImmNodes, hbne]
        exact h
      · simp [Comparison.sourceNodes, Comparison.branchImmNodes, hbeq, hbne]
    | gt o =>
      have h := plain_slti .signed 1 rs (v + 1)
      cases o
      · simp [Comparison.sourceNodes, Comparison.branchImmNodes, hbeq]
        exact h
      · simp [Comparison.sourceNodes, Comparison.branchImmNodes, hbeq]
    | _ =>
      intro n hn
      rcases List.mem_append.mp hn with hn | hn
      · exact (hload n hn).1
      · rw [List.mem_singleton.mp hn]
        first | exact hbeq _ _ | exact hbne _ _

/-- The outcome that the instructions of a branch really have. -/
def Comparison.outcome (c : Comparison) (rs : Fin 32) (src : Source) (m : Machine) : Bool :=
  match src with
  | .reg r => c.holds (m.gpr (regNo rs)) (m.gpr (regNo r))
  | .imm v => c.decides v (m.gpr (regNo rs))

/-- The instructions of a branch decide as they do. -/
lemma branch_implements {env : Env} (hb : env.delayedBranches = false)
    (hbare : env.bareMachine = false) (c : Comparison) {rs : Fin 32} {src : Source} (hrs : rs ≠ 1)
    {e : ImmExpr} (he : e.symbol.isSome = true) :
    Implements env (c.sourceNodes (regWord rs) e src) (Branches (c.outcome rs src)) := by
  refine .mk_of_plain hb hbare (sourceNodes_plain c _ he src) fun target m hm => ?_
  cases src with
  | reg r =>
    obtain ⟨a, hrun⟩ : ∃ a, NodesRun env target _ m _ :=
      branchNodes_run hm hb he c (regWord rs) (regWord r)
    rw [setWidth_regWord, setWidth_regWord] at hrun
    exact ⟨_, ⟨a, rfl⟩, hrun⟩
  | imm v =>
    obtain ⟨a, hrun⟩ : ∃ a, NodesRun env target _ m _ := branchImmNodes_run hm hb he c (regWord rs) v
      (by rw [setWidth_regWord]; exact regNo_ne_at hrs)
    rw [setWidth_regWord] at hrun
    exact ⟨_, ⟨a, rfl⟩, hrun⟩

lemma outcome_eq_holds {c : Comparison} {rs : Fin 32} {src : Source}
    (h : ∀ v, src = .imm v → ¬ c.pastLimit v) :
    c.outcome rs src = fun m => c.holds (m.gpr (regNo rs)) (src.value m) := by
  funext m
  cases src with
  | reg r => rfl
  | imm v => exact decides_eq_holds (h v rfl) _

end

/-! A branch on a comparison with the greatest constant. -/

/-- The instructions of such a branch, placed at 0 with their label far behind them. -/
lemma placed_far {c : Comparison} {v : Word} (hc : c.pastLimit v) (rs : Word) {e : ImmExpr}
    (he : e.symbol.isSome = true) :
    ∃ code, Placed 408 0 (c.branchImmNodes rs v e) code ∧ code.length = 3 := by
  have hplaced (op : Opcode) :
      ∃ code, Placed 408 0 [.i .slti 1 rs (constImmExpr 0x80000000), .i op 0 1 e] code := by
    refine ⟨_, 0, _, rfl, fun h => ?_, 100, _, rfl, fun _ => rfl, rfl⟩
    cases h
  have hlength {op : Opcode} {code : List Inst}
      (h : Placed 408 0 [.i .slti 1 rs (constImmExpr 0x80000000), .i op 0 1 e] code) :
      code.length = 3 := by
    rw [h.length, sizeAll_cons, sizeAll_cons, size_label _ _ _ he]
    rfl
  obtain ⟨rfl | rfl, rfl⟩ := hc
  · obtain ⟨code, h⟩ := hplaced .beq
    exact ⟨code, h, hlength h⟩
  · obtain ⟨code, h⟩ := hplaced .bne
    exact ⟨code, h, hlength h⟩

/-- The effect of a branch is one. -/
lemma Implements.taken_unique {env : Env} {ns : List InstNode} {code : List Inst} {target : Word}
    {taken taken' : Machine → Bool} (h : Implements env ns (Branches taken))
    (h' : Implements env ns (Branches taken')) {m : Machine} (hm : m.Ready)
    (hcode : Placed target m.pc ns code) (hshort : 4*code.length < 2^32)
    (hfar : ∀ k ≤ code.length, target ≠ slot 4 m.pc k) : taken m = taken' m := by
  have hout (b : Bool) : ∀ k < code.length,
      (if b then target else slot 4 m.pc code.length) ≠ slot 4 m.pc k := by
    intro k hk
    cases b with
    | true => exact hfar k (Nat.le_of_lt hk)
    | false => exact CodeRuns.end_ne hshort k hk
  obtain ⟨_, ⟨a, rfl⟩, hrun⟩ := h.runs target m code hm hcode
  obtain ⟨_, ⟨a', rfl⟩, hrun'⟩ := h'.runs target m code hm hcode
  have hsame := CodeRuns.end_unique hrun hrun' (hout _) (hout _) hshort
  have hpc : (if taken m then target else slot 4 m.pc code.length) =
      if taken' m then target else slot 4 m.pc code.length := congrArg (fun m => m.pc) hsame
  have hne := hfar code.length (Nat.le_refl _)
  revert hpc
  cases taken m <;> cases taken' m <;> simp [hne, hne.symm]

/-- Such a branch decides the other way. -/
lemma not_correct_of_pastLimit {env : AsmEnv} (hb : env.delayedBranches = false)
    (hbare : env.bareMachine = false) {k : Keyword} {c : Comparison} {v : Word}
    (hk : k.branchComparison = some c) (hc : c.pastLimit v) {rs : Fin 32} (hrs : rs ≠ 1)
    (label : String) : ¬ (CompareLine.branch k rs (.imm v) label).Correct env c := by
  intro hcorrect
  obtain ⟨_, ⟨e, he, rfl⟩, himpl⟩ := (branch_parses hk rs (.imm v) label .nl).both (hcorrect .nl rfl)
  have hready : ({} : Machine).Ready := ⟨rfl, rfl⟩
  obtain ⟨code, hcode, hlen⟩ := placed_far hc (regWord rs) he
  have hfar : ∀ k ≤ code.length, (408 : Word) ≠ slot 4 0 k := by
    rw [hlen]
    decide
  have h := (branch_implements hb hbare c hrs he).taken_unique himpl hready hcode (by omega) hfar
  have hd : c.decides v 0 = c.holds 0 v := h
  rw [decides_limit hc] at hd
  simp at hd

/-- The statements are right but for the branches that compare with the successor of the greatest
constant. -/
theorem comparisons_correct_iff {env : AsmEnv} (hb : env.delayedBranches = false)
    (hbare : env.bareMachine = true → env.delayedBranches = true) {line : CompareLine}
    {c : Comparison} (hc : line.comparison = some c) (hfree : line.operandsFree) :
    line.Correct env c ↔ ¬ line.pastLimit c := by
  have hbare' := env.not_bare hb hbare
  cases line with
  | set p rd rs src =>
    obtain ⟨hrd, -, hrs, hsrc⟩ := hfree
    refine iff_of_true (fun t ht => ?_) not_false
    refine (set_parses hc rd rs src ht).mono ?_
    rintro _ rfl
    exact set_implements hb hbare' c hrd hrs hsrc
  | branch k rs src label =>
    constructor
    · intro hcorrect hlimit
      cases src with
      | reg r => exact hlimit
      | imm v => exact not_correct_of_pastLimit hb hbare' hc hlimit hfree.1 label hcorrect
    · intro hlimit t ht
      refine (branch_parses hc rs src label t).mono ?_
      rintro _ ⟨e, he, rfl⟩
      rw [CompareLine.effect, ← outcome_eq_holds (c := c) (fun v hv => by subst hv; exact hlimit)]
      exact branch_implements hb hbare' c hfree.1 he

/-- sle $8, $8, $9 -/
theorem comparison_sle : (CompareLine.set .sle 8 8 (.reg 9)).Correct .quiet (.le .signed) :=
  have hfree : (CompareLine.set .sle 8 8 (.reg 9)).operandsFree :=
    ⟨by decide, by decide, by decide, by decide⟩
  (comparisons_correct_iff rfl (by decide) rfl hfree).mpr not_false

/-- bgt $8, 2147483647, over -/
theorem bgt_past_limit :
    ¬ (CompareLine.branch (.pseudo .bgt) 8 (.imm 0x7fffffff) "over").Correct .quiet (.gt .signed) :=
  not_correct_of_pastLimit rfl rfl rfl ⟨Or.inl rfl, rfl⟩ (by decide) "over"

end Spimulator
