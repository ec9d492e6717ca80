import Spimulator.Run
import Spimulator.Library.CodeBlock

/-! Runs of a block of instructions, with delayed branches off. -/
namespace Spimulator
open Frame CodeBlock

namespace Machine

def goto (m : Machine) (a : Word) : Machine := { m with pc := a }

@[simp] theorem pc_goto (m : Machine) (a : Word) : (m.goto a).pc = a := rfl
@[simp] theorem toRegs_goto (m : Machine) (a : Word) : (m.goto a).toRegs = m.toRegs := rfl
@[simp] theorem exceptionOccurred_goto (m : Machine) (a : Word) :
    (m.goto a).exceptionOccurred = m.exceptionOccurred := rfl
@[simp] theorem goto_goto (m : Machine) (a b : Word) : (m.goto a).goto b = m.goto b := rfl
@[simp] theorem goto_pc (m : Machine) : m.goto m.pc = m := rfl
@[simp] theorem setRegs_goto (m : Machine) (g : Regs) (a : Word) :
    (m.goto a).setRegs g = (m.setRegs g).goto a := rfl
@[simp] theorem setGpr_goto (m : Machine) (r : RegNo) (v a : Word) :
    (m.goto a).setGpr r v = (m.setGpr r v).goto a := rfl
@[simp] theorem pc_setGpr (m : Machine) (r : RegNo) (v : Word) : (m.setGpr r v).pc = m.pc := rfl
@[simp] theorem exceptionOccurred_setGpr (m : Machine) (r : RegNo) (v : Word) :
    (m.setGpr r v).exceptionOccurred = m.exceptionOccurred := rfl

theorem gpr_setGpr (m : Machine) (r s : RegNo) (v : Word) :
    (m.setGpr r v).gpr s = if s = r then v else m.gpr s := by
  simp only [setGpr, setRegs, Regs.setGpr, Function.update_apply]

@[simp] theorem gpr_setGpr_self (m : Machine) (r : RegNo) (v : Word) :
    (m.setGpr r v).gpr r = v := by
  rw [gpr_setGpr, if_pos rfl]

theorem gpr_setGpr_of_ne (m : Machine) {r s : RegNo} (h : s ≠ r) (v : Word) :
    (m.setGpr r v).gpr s = m.gpr s := by
  rw [gpr_setGpr, if_neg h]

@[simp] theorem setGpr_setGpr (m : Machine) (r : RegNo) (v w : Word) :
    (m.setGpr r v).setGpr r w = m.setGpr r w := by
  simp only [setGpr, setRegs, Regs.setGpr, Function.update_idem]

@[simp] theorem setGpr_gpr (m : Machine) (r : RegNo) : m.setGpr r (m.gpr r) = m := by
  simp only [setGpr, setRegs, Regs.setGpr, Function.update_eq_self]

/-- $0 reads as zero and no exception is pending. -/
structure Ready (m : Machine) : Prop where
  zero : m.gpr 0 = 0
  noException : m.exceptionOccurred = false

theorem Ready.goto {m : Machine} (h : m.Ready) (a : Word) : (m.goto a).Ready := ⟨h.zero, h.noException⟩

theorem Ready.setGpr {m : Machine} (h : m.Ready) {r : RegNo} (hr : r ≠ 0) (v : Word) :
    (m.setGpr r v).Ready :=
  ⟨(m.gpr_setGpr_of_ne hr.symm v).trans h.zero, h.noException⟩

end Machine

/-! One instruction. -/

section

variable (env : Env)

/-- An instruction of run_spim from the switch on. $0 and the exception flag are cleared before it;
after it PC goes on, and an exception is delivered. -/
def executeInst {ν : Type} (slot : ν → Exec ν) (s : ν) (i : Inst) : Exec (Flow × ν) := do
  modify fun m => { m.setGpr 0 0 with exceptionOccurred := false }
  let m ← get
  let r ← perform env slot s (dispatch env i m)
  modify fun m => deliver (m.goto (m.pc + 4))
  pure r

/-- Whatever runs delay slots, the instruction takes one state to the other and the run goes on. -/
def InstRuns (i : Inst) (m m' : Machine) : Prop :=
  ∀ (ν : Type) (slot : ν → Exec ν) (s : ν), (executeInst env slot s i).run m = .ok (.next, s) m'

/-- A run of a block of instructions in text. -/
abbrev CodeRuns (start : Word) (code : List Inst) : Machine → Machine → Prop :=
  Runs 4 (fun m : Machine => m.pc) (InstRuns env) start code

end

variable {env : Env} {i j : Inst} {m m₁ m₂ : Machine}

theorem InstRuns.unique (h₁ : InstRuns env i m m₁) (h₂ : InstRuns env i m m₂) : m₁ = m₂ := by
  have h := (h₁ Unit Pure.pure ()).symm.trans (h₂ Unit Pure.pure ())
  cases h
  rfl

/-- The switch reads the fields of an instruction only. -/
theorem dispatch_congr (env : Env) (h : i.SameFields j) (m : Machine) :
    dispatch env i m = dispatch env j m := by
  obtain ⟨op, rs, rt, rd, sh, _, _⟩ := i
  obtain ⟨op', rs', rt', rd', sh', _, _⟩ := j
  obtain ⟨rfl, rfl, rfl, rfl, rfl⟩ := h
  rfl

theorem InstRuns.congr (h : i.SameFields j) (he : InstRuns env i m m₁) : InstRuns env j m m₁ := by
  intro ν slot s
  have hi := he ν slot s
  simp only [executeInst, dispatch_congr env h] at hi
  exact hi

lemma prepare_eq (hm : m.Ready) :
    ({ m.setGpr 0 0 with exceptionOccurred := false } : Machine) = m := by
  have hz : m.setGpr 0 0 = m := by
    nth_rewrite 2 [← m.setGpr_gpr 0]
    rw [hm.zero]
  rw [hz, ← hm.noException]

/-- The switch and what follows it, from a state in which nothing is left to clear. -/
lemma executeInst_run {ν : Type} (slot : ν → Exec ν) (s : ν) (hm : m.Ready) :
    (executeInst env slot s i).run m = (do
      let r ← perform env slot s (dispatch env i m)
      modify fun m => deliver (m.goto (m.pc + 4))
      pure r : Exec (Flow × ν)).run m := by
  change (do
    let r ← perform env slot s (dispatch env i
      ({ m.setGpr 0 0 with exceptionOccurred := false } : Machine))
    modify fun m => deliver (m.goto (m.pc + 4))
    pure r : Exec (Flow × ν)).run { m.setGpr 0 0 with exceptionOccurred := false } = _
  rw [prepare_eq hm]

lemma deliver_goto (h : m.exceptionOccurred = false) (a : Word) :
    deliver (m.goto a) = m.goto a := by
  rw [deliver, if_neg (by simp [h])]

/-- An instruction that only changes registers. -/
theorem InstRuns.regs {g : Regs} (hm : m.Ready) (h : dispatch env i m = .regs g) :
    InstRuns env i m ((m.setRegs g).goto (m.pc + 4)) := by
  intro ν slot s
  rw [executeInst_run slot s hm, h]
  change EStateM.Result.ok (Flow.next, s) (deliver ((m.setRegs g).goto (m.pc + 4))) = _
  rw [deliver_goto (m := m.setRegs g) hm.noException]

/-- A branch. -/
theorem InstRuns.branch {c : Bool} {target : Word} (hm : m.Ready)
    (hb : env.delayedBranches = false) (h : dispatch env i m = .branch m.toRegs c target false) :
    InstRuns env i m (m.goto (if c then target else m.pc + 4)) := by
  intro ν slot s
  rw [executeInst_run slot s hm, h]
  cases c with
  | false =>
    change EStateM.Result.ok (Flow.next, s) (deliver (m.goto (m.pc + 4))) = _
    rw [deliver_goto hm.noException]
    rfl
  | true =>
    have hjump (t : Word) : (jumpInst env slot s (.addr t)).run m = .ok s (m.goto (t - 4)) := by
      simp only [jumpInst, hb]
      rfl
    have hperform : (perform env slot s (.branch m.toRegs true target false)).run m =
        .ok (.next, s) (m.goto (target - 4)) := by
      change (do
        let s ← jumpInst env slot s (.addr (if env.delayedBranches then target + 4 else target))
        pure (Flow.next, s) : Exec (Flow × ν)).run m = _
      rw [run_bind_of_ok (hjump _), hb]
      rfl
    rw [run_bind_of_ok hperform]
    change EStateM.Result.ok (Flow.next, s) (deliver (m.goto (target - 4 + 4))) = _
    rw [deliver_goto hm.noException, BitVec.sub_add_cancel]
    rfl

/-- An exception is delivered. -/
theorem InstRuns.raise {e : ExcCode} (hm : m.Ready) (h : dispatch env i m = .raise e) :
    InstRuns env i m (deliver ((m.raiseException e).goto ((m.raiseException e).pc + 4))) := by
  intro ν slot s
  rw [executeInst_run slot s hm, h]
  rfl

end Spimulator
