import Spimulator.BlockRuns
import Spimulator.PseudoOp

/-! Runs of the code of instruction nodes, where branches to labels go to one target. -/
namespace Spimulator
open Frame CodeBlock

namespace InstNode

/-- The number of instructions of a node. -/
def size (n : InstNode) : ℕ := (n.code 0).length

lemma length_code (n : InstNode) (disp : Half) : (n.code disp).length = n.size := by
  cases n with
  | i op rt rs imm =>
    simp only [size, code]
    split <;> rfl
  | _ => rfl

end InstNode

def sizeAll (ns : List InstNode) : ℕ := (ns.map InstNode.size).sum

@[simp] lemma sizeAll_nil : sizeAll [] = 0 := rfl
@[simp] lemma sizeAll_cons (n : InstNode) (ns : List InstNode) :
    sizeAll (n :: ns) = n.size + sizeAll ns := rfl
@[simp] lemma sizeAll_append (ns ns' : List InstNode) :
    sizeAll (ns ++ ns') = sizeAll ns + sizeAll ns' := by
  simp [sizeAll]

/-- The code of the nodes, one after the other from an address on, with the displacement of every
branch to a label standing for the target. -/
def Placed (target : Word) : Word → List InstNode → List Inst → Prop
  | _, [], code => code = []
  | pc, n :: ns, code => ∃ disp rest, code = n.code disp ++ rest ∧
    (n.isLabelBranch = true → pc + displacement disp = target) ∧
    Placed target (slot 4 pc n.size) ns rest

lemma Placed.split {target pc : Word} {ns : List InstNode} {code : List Inst}
    (h : Placed target pc ns code) (k : ℕ) :
    ∃ c c', code = c ++ c' ∧ c.length = sizeAll (ns.take k) ∧ Placed target pc (ns.take k) c ∧
      Placed target (slot 4 pc c.length) (ns.drop k) c' := by
  induction ns generalizing pc code k with
  | nil => exact ⟨[], code, rfl, by simp, by simp [Placed], by simpa using h⟩
  | cons n ns ih =>
    cases k with
    | zero => exact ⟨[], code, rfl, rfl, rfl, by simpa using h⟩
    | succ k =>
      obtain ⟨disp, rest, rfl, hlabel, hrest⟩ := h
      obtain ⟨c, c', rfl, hlen, hc, hc'⟩ := ih hrest k
      refine ⟨n.code disp ++ c, c', (List.append_assoc ..).symm, ?_, ⟨disp, c, rfl, hlabel, hc⟩, ?_⟩
      · simp [hlen, n.length_code]
      · rw [List.length_append, n.length_code, ← slot_add]
        exact hc'

lemma Placed.length {target pc : Word} {ns : List InstNode} {code : List Inst}
    (h : Placed target pc ns code) : code.length = sizeAll ns := by
  induction ns generalizing pc code with
  | nil =>
    rw [show code = [] from h]
    rfl
  | cons n ns ih =>
    obtain ⟨disp, rest, rfl, -, hrest⟩ := h
    rw [List.length_append, n.length_code, ih hrest, sizeAll_cons]

lemma produceCode_length (rt v : Word) : (produceCode rt v).length ≤ 2 := by
  unfold produceCode
  split
  · exact Nat.le_succ 1
  · split
    · exact Nat.le_succ 1
    · exact Nat.le_refl 2

/-- No node is more than three instructions. -/
lemma InstNode.size_le (n : InstNode) : n.size ≤ 3 := by
  cases n with
  | i op rt rs imm =>
    simp only [size, code]
    split
    · unfold constCode
      split
      · split
        · exact Nat.le_trans (produceCode_length rt _) (Nat.le_succ 2)
        · have hload := produceCode_length 1 imm.offset
          have hop : ((immOpToOp op).map fun o =>
              makeRTypeInst o (rt.setWidth 8) (rs.setWidth 8) 1).toList.length ≤ 1 := by
            cases immOpToOp op <;> simp
          rw [List.length_append]
          omega
      · exact Nat.le_add_left 1 2
    · exact Nat.le_add_left 1 2
  | _ => exact Nat.le_add_left 1 2

lemma sizeAll_le (ns : List InstNode) : sizeAll ns ≤ 3*ns.length := by
  induction ns with
  | nil => exact Nat.le_refl 0
  | cons n ns ih =>
    have hn := n.size_le
    rw [sizeAll_cons, List.length_cons]
    omega

/-- Nodes that name no label can be placed anywhere. -/
lemma exists_placed {ns : List InstNode} (h : ∀ n ∈ ns, n.isLabelBranch = false) (target pc : Word) :
    ∃ code, Placed target pc ns code := by
  induction ns generalizing pc with
  | nil => exact ⟨[], rfl⟩
  | cons n ns ih =>
    obtain ⟨code, hcode⟩ := ih (fun n hn => h n (List.mem_cons_of_mem _ hn)) (slot 4 pc n.size)
    refine ⟨_, 0, code, rfl, fun hlabel => ?_, hcode⟩
    rw [h n List.mem_cons_self] at hlabel
    cases hlabel

section

variable (env : Env) (target : Word)

/-- The code of one node takes one state to the other. -/
def NodeRuns (n : InstNode) (m m' : Machine) : Prop :=
  ∀ disp, (n.isLabelBranch = true → m.pc + displacement disp = target) →
    CodeRuns env m.pc (n.code disp) m m'

/-- The code of the nodes, wherever it is placed, takes one state to the other. -/
def NodesRun (ns : List InstNode) (m m' : Machine) : Prop :=
  ∀ code, Placed target m.pc ns code → CodeRuns env m.pc code m m'

end

variable {env : Env} {target : Word} {n : InstNode} {ns ns' : List InstNode} {m m₁ m' : Machine}

namespace NodesRun

theorem nil : NodesRun env target [] m m := fun _ _ => .refl

/-- The run leaves the block after the first node. -/
theorem leave (h : NodeRuns env target n m m') : NodesRun env target (n :: ns) m m' := by
  rintro code ⟨disp, rest, rfl, hlabel, -⟩
  exact Runs.before (h disp hlabel)

/-- The run goes on after `k` more nodes. -/
theorem skip (k : ℕ) (h : NodeRuns env target n m m₁)
    (hpc : m₁.pc = slot 4 m.pc (n.size + sizeAll (ns.take k)))
    (hrest : NodesRun env target (ns.drop k) m₁ m') : NodesRun env target (n :: ns) m m' := by
  rintro code ⟨disp, rest, rfl, hlabel, hplaced⟩
  obtain ⟨c, c', rfl, hlen, -, hc'⟩ := hplaced.split k
  rw [← hlen, ← slot_add] at hpc
  rw [← hpc] at hc'
  have hrun := hrest c' hc'
  rw [hpc, slot_add, ← n.length_code disp, ← List.length_append] at hrun
  rw [← List.append_assoc]
  exact (Runs.before (Runs.before (h disp hlabel))).trans (Runs.after hrun)

theorem next (h : NodeRuns env target n m m₁) (hpc : m₁.pc = slot 4 m.pc n.size)
    (hrest : NodesRun env target ns m₁ m') : NodesRun env target (n :: ns) m m' :=
  skip 0 h hpc hrest

theorem append (h : NodesRun env target ns m m₁) (hpc : m₁.pc = slot 4 m.pc (sizeAll ns))
    (h' : NodesRun env target ns' m₁ m') : NodesRun env target (ns ++ ns') m m' := by
  intro code hcode
  obtain ⟨c, c', rfl, hlen, hc, hc'⟩ := hcode.split ns.length
  rw [List.take_left] at hlen hc
  rw [List.drop_left] at hc'
  rw [← hlen] at hpc
  rw [← hpc] at hc'
  have hrun := h' c' hc'
  rw [hpc] at hrun
  exact Runs.append (h c hc) hrun

/-- The run leaves the block before the rest. -/
theorem stop (h : NodesRun env target ns m m') : NodesRun env target (ns ++ ns') m m' := by
  intro code hcode
  obtain ⟨c, c', rfl, -, hc, -⟩ := hcode.split ns.length
  rw [List.take_left] at hc
  exact Runs.before (h c hc)

end NodesRun

/-! Single nodes. -/

lemma slot_one (pc : Word) : slot 4 pc 1 = pc + 4 := rfl

lemma slot_succ (pc : Word) (k : ℕ) : slot 4 pc (k+1) = slot 4 (pc + 4) k := by
  rw [← slot_one, slot_add, Nat.add_comm]

namespace NodeRuns

theorem inst {i : Inst} (hn : ∀ disp, n.code disp = [i]) (h : InstRuns env i m m₁) :
    NodeRuns env target n m m₁ := by
  intro disp _
  rw [hn disp]
  exact .last h

section

variable (rd rs rt : Word) (hm : m.Ready)

include hm

theorem compare (o : Order) : NodeRuns env target (.r o.opcode rd rs rt) m
    ((m.setGpr (rd.setWidth 8) (if o.lt (m.gpr (rs.setWidth 8)) (m.gpr (rt.setWidth 8)) then 1 else 0)).goto
      (m.pc + 4)) :=
  inst (fun _ => rfl) (slt_runs _ _ _ o hm)

theorem nop : NodeRuns env target (.rShift .sll 0 0 0) m (m.goto (m.pc + 4)) :=
  inst (fun _ => rfl) (nop_runs hm)

/-- A small constant. -/
theorem oriSmall {v : Word} (hv : v &&& 0xffff0000 = 0) :
    NodeRuns env target (.i .ori rd 0 (constImmExpr v)) m
      ((m.setGpr (rd.setWidth 8) v).goto (m.pc + 4)) := by
  have hlow : v &&& 0xffff = v := by
    have h := halves v
    rwa [hv, zero_or_word] at h
  have hsmall : immTooLarge .ori (constImmExpr v) v = false := by
    simpa [immTooLarge, signExtendsImm, Opcode.isLoadStore] using hv
  have h : InstRuns env _ m _ := ori_runs 0 (rd.setWidth 8) (v.setWidth 16) hm
  rw [hm.zero, zero_or_word, low_half, hlow] at h
  refine inst (fun disp => ?_) h
  rw [InstNode.code, if_pos (show (constImmExpr v).symbol = none from rfl)]
  change (if immTooLarge .ori (constImmExpr v) v then _ else _) = _
  rw [hsmall]
  rfl

/-- A constant in $at. -/
theorem oriAt (v : Word) : NodeRuns env target (.i .ori 1 0 (constImmExpr v)) m
    ((m.setGpr 1 v).goto (slot 4 m.pc (InstNode.i .ori 1 0 (constImmExpr v)).size)) := by
  intro disp _
  obtain ⟨a, h⟩ : ∃ a, CodeRuns env m.pc (constCode .ori 1 0 v) m _ := constOri_runs 1 v hm
  rw [register_at, Machine.setGpr_setGpr] at h
  exact h

/-- Comparing with a constant, in $at. -/
theorem compareConst (o : Order) (hrs : rs.setWidth 8 ≠ (1 : Byte)) (v : Word) :
    NodeRuns env target (.i o.immOpcode 1 rs (constImmExpr v)) m
      ((m.setGpr 1 (if o.lt (m.gpr (rs.setWidth 8)) v then 1 else 0)).goto
        (slot 4 m.pc (InstNode.i o.immOpcode 1 rs (constImmExpr v)).size)) :=
  fun _ _ => constSlti_runs o rs v hrs hm

variable (hb : env.delayedBranches = false)

include hb

theorem beqSkip : NodeRuns env target (.i .beq rt rs (branchOffset 3)) m
    (m.goto (if m.gpr (rs.setWidth 8) = m.gpr (rt.setWidth 8) then slot 4 m.pc 3 else m.pc + 4)) :=
  inst (fun _ => rfl) (beq_runs (rs.setWidth 8) (rt.setWidth 8) 3 hm hb)

theorem bneSkip : NodeRuns env target (.i .bne rt rs (branchOffset 3)) m
    (m.goto (if m.gpr (rs.setWidth 8) ≠ m.gpr (rt.setWidth 8) then slot 4 m.pc 3 else m.pc + 4)) :=
  inst (fun _ => rfl) (bne_runs (rs.setWidth 8) (rt.setWidth 8) 3 hm hb)

/-- b over the next two nodes -/
theorem skipTwo : NodeRuns env target (.i .beq 0 0 (branchOffset 3)) m (m.goto (slot 4 m.pc 3)) := by
  have h : NodeRuns env target _ m _ := beqSkip 0 0 hm hb
  rw [if_pos rfl] at h
  exact h

variable {e : ImmExpr} (he : e.symbol.isSome = true)

include he

omit hm hb in
lemma code_label (op : Opcode) (disp : Half) : (InstNode.i op rt rs e).code disp =
    [makeITypeInst op (rt.setWidth 8) (rs.setWidth 8) disp] := by
  rw [InstNode.code, if_neg (by rintro h; simp [h] at he)]

theorem beqLabel : NodeRuns env target (.i .beq rt rs e) m
    (m.goto (if m.gpr (rs.setWidth 8) = m.gpr (rt.setWidth 8) then target else m.pc + 4)) := by
  intro disp hlabel
  rw [code_label _ _ he, ← hlabel (by simp [InstNode.isLabelBranch, Opcode.isBranch, he])]
  exact .last (beq_runs _ _ disp hm hb)

theorem bneLabel : NodeRuns env target (.i .bne rt rs e) m
    (m.goto (if m.gpr (rs.setWidth 8) ≠ m.gpr (rt.setWidth 8) then target else m.pc + 4)) := by
  intro disp hlabel
  rw [code_label _ _ he, ← hlabel (by simp [InstNode.isLabelBranch, Opcode.isBranch, he])]
  exact .last (bne_runs _ _ disp hm hb)

end
end NodeRuns
end Spimulator
