import Spimulator.CodeRun

/-! Likely branches, with delayed branches off. -/
namespace Spimulator
open Frame

/-- The branch that a likely branch is a variant of. -/
def Opcode.unlikely : Opcode → Option Opcode
  | .beql => some .beq
  | .bnel => some .bne
  | .bgezl => some .bgez
  | .bgtzl => some .bgtz
  | .blezl => some .blez
  | .bltzl => some .bltz
  | .bgezall => some .bgezal
  | .bltzall => some .bltzal
  | .bc1fl => some .bc1f
  | .bc1tl => some .bc1t
  | _ => none

def Opcode.isBc1Likely (op : Opcode) : Bool := op = .bc1fl ∨ op = .bc1tl

namespace Inst

/-- A likely branch as it is assembled: that of coprocessor 1 has its nullify bit set. -/
structure Likely (i : Inst) (op plain : Opcode) : Prop where
  opcode : i.opcode = some op
  plain : op.unlikely = some plain
  nullify : op.isBc1Likely = true → i.nd ≠ 0

/-- The same instruction with another opcode, and for coprocessor 1 without the nullify bit. -/
def unlikely (i : Inst) (op plain : Opcode) : Inst :=
  { i with opcode := some plain, rt := if op.isBc1Likely then i.rt &&& 0xfd else i.rt }

/-- The register that a likely branch tests, $0 being 0 and $31 being the link when it links. -/
def tested (i : Inst) (m : Machine) (links : Bool) : ℤ :=
  (if links ∧ i.rs = 31 then m.pc + 4 else if i.rs = 0 then 0 else m.gpr i.rs).toInt

/-- What the branch is taken on. -/
def taken (i : Inst) (m : Machine) : Opcode → Prop
  | .beql => (if i.rs = 0 then 0 else m.gpr i.rs) = if i.rt = 0 then 0 else m.gpr i.rt
  | .bnel => (if i.rs = 0 then 0 else m.gpr i.rs) ≠ if i.rt = 0 then 0 else m.gpr i.rt
  | .bgezl => 0 ≤ i.tested m false
  | .bgtzl => 0 < i.tested m false
  | .blezl => i.tested m false ≤ 0
  | .bltzl => i.tested m false < 0
  | .bgezall => 0 ≤ i.tested m true
  | .bltzall => i.tested m true < 0
  | .bc1fl | .bc1tl => m.fcc i.cc = i.tf
  | _ => False

end Inst

/-- The machine at the switch of an instruction: $0 and the exception flag are cleared. -/
def Machine.prepared (m : Machine) : Machine := { m.setGpr 0 0 with exceptionOccurred := false }

section

variable {env : Env} {i : Inst} {m : Machine}

lemma gpr_prepared (m : Machine) (r : RegNo) :
    m.prepared.gpr r = if r = 0 then 0 else m.gpr r := m.gpr_setGpr 0 r 0

/-- A branch of any kind. -/
lemma executeInst_branch (hb : env.delayedBranches = false) {g : Regs} {test : Bool} {target : Word}
    {nullify : Bool} (h : dispatch env i m.prepared = .branch g test target nullify)
    {ν : Type} (slot : ν → Exec ν) (s : ν) :
    (executeInst env slot s i).run m = .ok (.next, s) ((m.prepared.setRegs g).goto
      (if test then target else if nullify then m.pc + 8 else m.pc + 4)) := by
  change (do
    let r ← perform env slot s (dispatch env i m.prepared)
    modify fun m => deliver (m.goto (m.pc + 4))
    pure r : Exec (Flow × ν)).run m.prepared = _
  rw [h]
  have hflag : (m.prepared.setRegs g).exceptionOccurred = false := rfl
  cases test with
  | false =>
    change EStateM.Result.ok (Flow.next, s) (deliver ((m.prepared.setRegs g).goto
      ((if nullify then m.pc + 4 else m.pc) + 4))) = _
    rw [deliver_goto hflag]
    cases nullify with
    | false => rfl
    | true =>
      have hpc : m.pc + 4 + 4 = m.pc + 8 := by bv_omega
      simp only [if_true, Bool.false_eq_true, if_false, hpc]
  | true =>
    have hperform : (perform env slot s (.branch g true target nullify)).run m.prepared =
        .ok (.next, s) ((m.prepared.setRegs g).goto (target - 4)) := by
      change (do
        let s ← jumpInst env slot s (.addr (if env.delayedBranches then target + 4 else target))
        pure (Flow.next, s) : Exec (Flow × ν)).run (m.prepared.setRegs g) = _
      simp only [jumpInst, hb]
      rfl
    rw [run_bind_of_ok hperform]
    change EStateM.Result.ok (Flow.next, s)
      (deliver ((m.prepared.setRegs g).goto (target - 4 + 4))) = _
    rw [deliver_goto hflag, BitVec.sub_add_cancel]
    rfl

/-- Both branches test the same and have the same target. -/
def SameBranch (env : Env) (i j : Inst) (m : Machine) (c : Prop) : Prop :=
  ∃ g test target, dispatch env i m = .branch g test target true ∧
    dispatch env j m = .branch g test target false ∧ (test = true ↔ c)

lemma same_branchIf {j : Inst} {c d : Prop} [Decidable c] (hc : c ↔ d)
    (hi : dispatch env i m = m.branchIf i c true) (hj : dispatch env j m = m.branchIf i c false) :
    SameBranch env i j m d :=
  ⟨m.toRegs, decide c, m.pc + i.branchOffset, hi, hj, by rw [decide_eq_true_iff, hc]⟩

lemma signBit_iff (v : Word) : signBit v = true ↔ v.toInt < 0 := by
  rw [signBit, BitVec.msb_eq_toInt, decide_eq_true_iff]

lemma not_signBit_iff (v : Word) : signBit v = false ↔ 0 ≤ v.toInt := by
  rw [← Bool.not_eq_true, signBit_iff, not_lt]

lemma toInt_tested (i : Inst) (m : Machine) :
    (m.prepared.gpr i.rs).toInt = i.tested m false := by
  rw [gpr_prepared]
  simp [Inst.tested]

/-- The register of a branch that links, which it does before its test. -/
lemma toInt_tested_link (hb : env.delayedBranches = false) (i : Inst) (m : Machine) :
    ((m.prepared.toRegs.setGpr 31 (m.prepared.linkAddr env)).gpr i.rs).toInt = i.tested m true := by
  have hgpr : (m.prepared.toRegs.setGpr 31 (m.prepared.linkAddr env)).gpr i.rs =
      if i.rs = 31 then m.pc + 4 else m.prepared.gpr i.rs := by
    simp only [Regs.setGpr, Function.update_apply, Machine.linkAddr, hb]
    rfl
  rw [hgpr, gpr_prepared]
  simp [Inst.tested]

lemma signed_ne_zero (v : Word) : v ≠ 0 ∧ signBit v = false ↔ 0 < v.toInt := by
  rw [not_signBit_iff]
  have h : v = 0 ↔ v.toInt = 0 := by rw [← BitVec.toInt_inj]; rfl
  rw [Ne, h]
  omega

lemma signed_eq_zero (v : Word) : v = 0 ∨ signBit v = true ↔ v.toInt ≤ 0 := by
  rw [signBit_iff]
  have h : v = 0 ↔ v.toInt = 0 := by rw [← BitVec.toInt_inj]; rfl
  rw [h]
  omega

lemma cc_unlikely (v : Byte) : (v &&& 0xfd) >>> 2 = v >>> 2 ∧ (v &&& 0xfd) &&& 1 = v &&& 1 ∧
    ((v &&& 0xfd) &&& 2) >>> 1 = 0 := by
  revert v
  decide

/-- A branch on a condition code, with its nullify bit and without it. -/
lemma same_bc1 {op plain : Opcode} (hplain : ∀ j m, dispatch env { j with opcode := some plain } m =
      m.branchIf j (m.fcc j.cc = j.tf) (j.nd ≠ 0))
    (hop : op.isBc1Likely = true)
    (hi : dispatch env i m.prepared =
      m.prepared.branchIf i (m.prepared.fcc i.cc = i.tf) (i.nd ≠ 0)) (hnull : i.nd ≠ 0) :
    SameBranch env i (i.unlikely op plain) m.prepared (m.fcc i.cc = i.tf) := by
  obtain ⟨hcc, htf, hnd⟩ := cc_unlikely i.rt
  refine ⟨m.prepared.toRegs, decide (m.fcc i.cc = i.tf), m.pc + i.branchOffset, ?_, ?_,
    decide_eq_true_iff⟩
  · rw [hi, Machine.branchIf, decide_eq_true hnull]
    rfl
  · have hj : i.unlikely op plain =
        { ({ i with rt := i.rt &&& 0xfd } : Inst) with opcode := some plain } := by
      rw [Inst.unlikely, if_pos hop]
    rw [hj, hplain]
    have hcc' : ({ i with rt := i.rt &&& 0xfd } : Inst).cc = i.cc := hcc
    have htf' : ({ i with rt := i.rt &&& 0xfd } : Inst).tf = i.tf := htf
    have hnd' : ({ i with rt := i.rt &&& 0xfd } : Inst).nd = 0 := hnd
    rw [Machine.branchIf, hcc', htf', hnd']
    rfl

/-- A likely branch and its plain one differ in the bit that skips an instruction. -/
lemma sameBranch (hb : env.delayedBranches = false) {op plain : Opcode} (h : i.Likely op plain)
    (m : Machine) : SameBranch env i (i.unlikely op plain) m.prepared (i.taken m op) := by
  obtain ⟨hop, hplain, hnull⟩ := h
  have hi : dispatch env i m.prepared = dispatch env { i with opcode := some op } m.prepared := by
    rw [← hop]
  have hs := toInt_tested i m
  have hl := toInt_tested_link hb i m
  cases op <;> cases hplain
  case beql => exact same_branchIf (by rw [gpr_prepared, gpr_prepared]; rfl) hi rfl
  case bnel => exact same_branchIf (by rw [gpr_prepared, gpr_prepared]; rfl) hi rfl
  case bgezl => exact same_branchIf (by rw [not_signBit_iff, hs]; rfl) hi rfl
  case bgtzl => exact same_branchIf (by rw [signed_ne_zero, hs]; rfl) hi rfl
  case blezl => exact same_branchIf (by rw [signed_eq_zero, hs]; rfl) hi rfl
  case bltzl => exact same_branchIf (by rw [signBit_iff, hs]; rfl) hi rfl
  case bgezall =>
    refine ⟨_, _, _, hi, rfl, ?_⟩
    rw [Bool.not_eq_true', not_signBit_iff, hl]
    rfl
  case bltzall =>
    refine ⟨_, _, _, hi, rfl, ?_⟩
    rw [signBit_iff, hl]
    rfl
  case bc1fl => exact same_bc1 (fun _ _ => rfl) rfl hi (hnull rfl)
  case bc1tl => exact same_bc1 (fun _ _ => rfl) rfl hi (hnull rfl)

/-- With delayed branches off, a likely branch does what its plain branch does where it is taken,
and not where it is not. -/
theorem likely_iff_taken (hb : env.delayedBranches = false) {op plain : Opcode}
    (h : i.Likely op plain) (m : Machine) :
    (∀ (ν : Type) (slot : ν → Exec ν) (s : ν), (executeInst env slot s i).run m =
      (executeInst env slot s (i.unlikely op plain)).run m) ↔ i.taken m op := by
  obtain ⟨g, test, target, hi, hj, htest⟩ := sameBranch hb h m
  rw [← htest]
  constructor
  · intro hsame
    have hrun := hsame Unit pure ()
    rw [executeInst_branch hb hi, executeInst_branch hb hj] at hrun
    cases test with
    | true => rfl
    | false =>
      injection hrun with _ hm
      have hpc := congrArg (fun m : Machine => m.pc) hm
      change m.pc + 8 = m.pc + 4 at hpc
      bv_omega
  · rintro rfl ν slot s
    rw [executeInst_branch hb hi, executeInst_branch hb hj]
    rfl

end

/-- beql $8, $8, 12 -/
theorem likely_beql :
    (executeInst .quiet pure () (makeITypeInst .beql 8 8 3)).run {} =
      (executeInst .quiet pure () ((makeITypeInst .beql 8 8 3).unlikely .beql .beq)).run {} := by
  have h : (makeITypeInst .beql 8 8 3).Likely .beql .beq := ⟨rfl, rfl, by decide⟩
  have hsame : ∀ (ν : Type) (slot : ν → Exec ν) (s : ν),
      (executeInst .quiet slot s (makeITypeInst .beql 8 8 3)).run {} =
        (executeInst .quiet slot s ((makeITypeInst .beql 8 8 3).unlikely .beql .beq)).run {} :=
    (likely_iff_taken rfl h {}).mpr rfl
  exact hsame Unit pure ()

/-- bgtzl $0, 12 skips the instruction after it. -/
theorem likely_bgtzl : ¬ ∀ (ν : Type) (slot : ν → Exec ν) (s : ν),
    (executeInst .quiet slot s (makeITypeInst .bgtzl 0 0 3)).run {} =
      (executeInst .quiet slot s ((makeITypeInst .bgtzl 0 0 3).unlikely .bgtzl .bgtz)).run {} := by
  intro h
  have hpc := congrArg (fun r : EStateM.Result Halt Machine (Flow × Unit) =>
    match r with
    | .ok _ m => m.pc
    | .error _ m => m.pc) (h Unit pure ())
  exact absurd hpc (by decide)

end Spimulator
