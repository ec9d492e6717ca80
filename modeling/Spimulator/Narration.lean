import Spimulator.DelayedLoads
import Spimulator.Likely

/-! What the narrator of explain.c says of a branch, and what run_spim did. -/
namespace Spimulator
open Frame

/-- The comparison that a branch template makes on the registers of the snapshot; the other
branches have no template. -/
def Inst.verdict (i : Inst) (g : RegNo → Word) : Option Bool :=
  match i.opcode with
  | some .beq => some (decide (g i.rs = g i.rt))
  | some .bne => some (decide (g i.rs ≠ g i.rt))
  | some .bgez => some (decide (0 ≤ (g i.rs).toInt))
  | some .bgtz => some (decide (0 < (g i.rs).toInt))
  | some .blez => some (decide ((g i.rs).toInt ≤ 0))
  | some .bltz => some (decide ((g i.rs).toInt < 0))
  | _ => none

/-- The target and the verdict that explain_after prints, from level 2 on. -/
def Narrator.announced (s : Narrator) (level : ℕ) (i : Inst) : Option (Word × Bool) :=
  if 2 ≤ level then (i.verdict s.snapGpr).map fun v => (s.snapPc + 4 + i.branchOffset, v) else none

/-- The target and the decision of BRANCH_INST. -/
def usedBranch (env : Env) (i : Inst) (m : Machine) : Option (Word × Bool) :=
  match dispatch env i m with
  | .branch _ test target _ => some (if env.delayedBranches then target + 4 else target, test)
  | _ => none

/-- The narration of a branch agrees with what was done, wherever a branch on these registers is
executed in this mode. -/
def Inst.NarratedRight (i : Inst) (g : RegNo → Word) (delayed : Bool) : Prop :=
  ∀ (env : Env) (display : Bool) (depth : ℕ) (s s' : Narrator) (m t : Machine) (f : Flow),
    env.delayedBranches = delayed → (m.doDelayedUpdate env).gpr = g →
    (execInst env (runSlot env display depth) s i).run m = .ok (f, s') t →
    ∀ a, s'.announced env.explainLevel i = some a →
      usedBranch env i (m.doDelayedUpdate env) = some a

section

variable {env : Env} {i : Inst} {m : Machine} {v : Bool}

/-- The branches with a template change no register. -/
lemma dispatch_verdict (h : i.verdict m.gpr = some v) :
    dispatch env i m = .branch m.toRegs v (m.pc + i.branchOffset) false := by
  unfold Inst.verdict at h
  split at h
  case h_7 => cases h
  all_goals
    rename_i hop
    obtain rfl := Option.some.inj h
    simp only [dispatch, hop, Machine.branchIf]
  case h_3 => simp only [not_signBit_iff]
  case h_4 => simp only [signed_ne_zero]
  case h_5 => simp only [signed_eq_zero]
  case h_6 => simp only [signBit_iff]

/-! Before the switch. -/

/-- The registers and the program counter. -/
def Machine.switchState (m : Machine) := (m.gpr, m.pc)

def sameSwitch : Rel Machine := Rel.same Machine.switchState

lemma switchState_raise (m : Machine) (e : ExcCode) :
    (m.raiseException e).switchState = m.switchState := by
  obtain ⟨c, b, f, h⟩ := m.raiseException_eq e
  rw [h]
  rfl

lemma deviceRel_sameSwitch : DeviceRel sameSwitch where
  device _ _ _ _ _ _ _ _ := rfl
  raiseInt _ _ := rfl
  clearInt _ _ := rfl
  host _ _ _ := rfl

lemma accessRel_sameSwitch : AccessRel sameSwitch where
  data _ _ _ _ _ := rfl
  alloc _ _ := rfl
  patch _ _ _ := rfl
  ioRead := deviceRel_sameSwitch.ioRead
  ioWrite := deviceRel_sameSwitch.ioWrite
  raise m e _ _ := switchState_raise m e

lemma lookRel_sameSwitch : LookRel sameSwitch where
  toAccessRel := accessRel_sameSwitch
  flag _ := rfl
  peek := accessRel_sameSwitch.peek (fun _ _ => rfl) fun _ _ => rfl
  text _ _ _ := rfl
  kText _ _ _ := rfl
  bkpts _ _ := rfl

/-- The snapshot is of the state at the switch. -/
lemma explainBefore_run {s s' : Narrator} {t : Machine} {addr : Word} (hlevel : env.explainLevel ≠ 0)
    (h : (explainBefore env s i addr).run m = .ok s' t) :
    s'.snapPc = addr ∧ s'.snapGpr = m.gpr ∧ t.gpr = m.gpr ∧ t.pc = m.pc := by
  rw [explainBefore, if_neg hlevel] at h
  obtain ⟨_, u, hu, h⟩ := ok_of_bind h
  have hlist : sameSwitch.rel m u := (Keeps.onlyIf (Keeps.get_bind fun m =>
    lookRel_sameSwitch.formatInsts _ _ _ m)).ok hu
  have hgpr : u.gpr = m.gpr := congrArg Prod.fst hlist
  have hpc : u.pc = m.pc := congrArg Prod.snd hlist
  obtain ⟨_, _, ⟨⟩, h⟩ := ok_of_bind h
  cases hs : storeAddr i u with
  | none =>
    rw [hs] at h
    cases h
    exact ⟨rfl, hgpr, hgpr, hpc⟩
  | some a =>
    rw [hs] at h
    obtain ⟨_, w, hw, h⟩ := ok_of_bind h
    have hpeek : sameSwitch.rel u w := (lookRel_sameSwitch.peek _ _).ok hw
    cases h
    exact ⟨rfl, hgpr, (congrArg Prod.fst hpeek).trans hgpr, (congrArg Prod.snd hpeek).trans hpc⟩

/-- A branch that is not taken is narrated from its own snapshot. -/
lemma execInst_notTaken {s s' : Narrator} {t : Machine} {f : Flow}
    {slot : Narrator → Exec Narrator} (hlevel : env.explainLevel ≠ 0)
    (hv : i.verdict (m.doDelayedUpdate env).gpr = some false)
    (h : (execInst env slot s i).run m = .ok (f, s') t) :
    s'.snapPc = (m.doDelayedUpdate env).pc ∧ s'.snapGpr = (m.doDelayedUpdate env).gpr := by
  obtain ⟨_, _, ⟨⟩, h⟩ := ok_of_bind h
  obtain ⟨_, _, ⟨⟩, h⟩ := ok_of_bind h
  obtain ⟨s₁, u, hu, h⟩ := ok_of_bind h
  obtain ⟨hsnap, hregs, hgpr, hpc⟩ := explainBefore_run hlevel hu
  change (perform env slot s₁ (dispatch env i (logInst i u))).run (logInst i u) = _ at h
  have hv' : i.verdict (logInst i u).gpr = some false := by
    change i.verdict u.gpr = _
    rw [hgpr]
    exact hv
  rw [dispatch_verdict hv'] at h
  cases h
  exact ⟨hsnap, hregs⟩

/-! Runs in which the narration is wrong. -/

lemma storeAddr_of_verdict {g : RegNo → Word} (h : i.verdict g = some v) : storeAddr i m = none := by
  unfold Inst.verdict at h
  split at h
  case h_7 => cases h
  all_goals
    rename_i hop
    simp only [storeAddr, hop]

def Env.narrating (delayed : Bool) : Env :=
  { Env.quiet with explainLevel := 2, delayedBranches := delayed }

lemma explainBefore_shown (delayed : Bool) {s : Narrator} (addr : Word)
    (hs : s.listingShown = true) (hstore : storeAddr i m = none) :
    (explainBefore (.narrating delayed) s i addr).run m =
      .ok { listingShown := true, snapGpr := m.gpr, snapPc := addr } m := by
  have hlevel : (Env.narrating delayed).explainLevel ≠ 0 := Nat.succ_ne_zero 1
  rw [explainBefore, if_neg hlevel, onlyIf_neg (by simp [hs]), pure_bind, EStateM.run_bind,
    EStateM.run_get]
  simp only [hstore]
  rfl

/-- The switch, when the listing was shown before. -/
lemma execInst_shown {delayed : Bool} (slot : Narrator → Exec Narrator) {s : Narrator}
    (hs : s.listingShown = true) (hstore : storeAddr i m = none) :
    (execInst (.narrating delayed) slot s i).run m =
      (perform (.narrating delayed) slot { listingShown := true, snapGpr := m.gpr, snapPc := m.pc }
        (dispatch (.narrating delayed) i (logInst i m))).run (logInst i m) := by
  have hbefore := explainBefore_shown delayed m.pc hs hstore
  have hload : (modify (Machine.doDelayedUpdate (.narrating delayed)) : Exec Unit).run m
      = .ok () m := rfl
  rw [execInst, run_bind_of_ok hload, EStateM.run_bind, EStateM.run_get]
  simp only
  rw [run_bind_of_ok hbefore]
  rfl

/-- A delay slot with the breakpoint in it is narrated. -/
lemma runSlot_brk {s : Narrator} (hs : s.listingShown = true) {a : Word} {r : InstRef}
    (hpc : m.pc + 4 = a) (htext : m.inText a) (halign : a &&& 3 = 0)
    (hseg : m.textSeg (Machine.textIndex a) = some r) (hinst : m.insts r = makeRTypeInst .brk 1 0 0)
    (hint : ¬ interruptPending m) :
    ∃ s' t, (runSlot (.narrating true) false 1 s).run m = .ok s' t ∧ s'.snapPc = a := by
  let env := Env.narrating true
  let slot : Narrator → Exec Narrator := runSlot env false 0
  let m₁ : Machine := { m with pc := a }
  let m₂ : Machine := { m₁.setGpr 0 0 with hostCalls := m.hostCalls + 1 }
  let m₃ : Machine := { m₂ with exceptionOccurred := false }
  have hpoll : (poll env).run m₁ = .ok () m₁ := by
    have hquiet : takeInterrupt m₁ = m₁ := if_neg hint
    change EStateM.Result.ok () (takeInterrupt m₁) = _
    rw [hquiet]
  have hhead : (stepHead env).run m₁ = .ok () m₂ := rfl
  have hread : (memReadInst env.tbl m₃.pc).run m₃ = .ok (some r) m₃ := by
    rw [memReadInst, EStateM.run_bind, EStateM.run_get]
    change (if m₃.inText a ∧ a &&& 3 = 0 then pure (m₃.textSeg (Machine.textIndex a)) else _
      : Exec (Option InstRef)).run m₃ = _
    rw [if_pos ⟨htext, halign⟩]
    exact congrArg (fun x => EStateM.Result.ok x m₃) hseg
  have hfetch : (fetch env).run m₂ = .ok (some (makeRTypeInst .brk 1 0 0)) m₃ := by
    change (do
      let r ← memReadInst env.tbl m₃.pc
      _ : Exec (Option Inst)).run m₃ = _
    rw [run_bind_of_ok hread]
    have hexpr : (m₃.insts r).expr.bind ImmExpr.symbol = none := by
      change (m.insts r).expr.bind ImmExpr.symbol = none
      rw [hinst]
      rfl
    rw [EStateM.run_bind, EStateM.run_get]
    dsimp only
    rw [if_neg (show ¬ m₃.exceptionOccurred = true from Bool.false_ne_true), hexpr]
    exact congrArg (fun i => EStateM.Result.ok (some i) m₃) hinst
  have hexec : ∃ s' t, (execInst env slot s (makeRTypeInst .brk 1 0 0)).run m₃
      = .ok (.pause, s') t ∧ s'.snapPc = a := by
    rw [execInst_shown slot hs rfl]
    exact ⟨_, _, rfl, rfl⟩
  obtain ⟨s', t, hexec, hsnap⟩ := hexec
  have hstep : (step env false slot s).run m₁ = .ok (.pause, s') t := by
    rw [step, run_bind_of_ok hhead, run_bind_of_ok hfetch]
    simp only
    rw [run_bind_of_ok hexec]
    rfl
  have hspim : (runSpim env false 1 a 1 s).run m = .ok (true, s') t := by
    change (runLoop env false slot s 0 1).run m₁ = _
    rw [runLoop, onlyIf_pos rfl, run_bind_of_ok hpoll, run_bind_of_ok hstep]
    rfl
  refine ⟨s', t, ?_, hsnap⟩
  change (do
    let r ← runSpim env false 1 (m.pc + 4) 1 s
    pure r.2 : Exec Narrator).run m = _
  rw [hpc, run_bind_of_ok hspim]
  rfl

lemma exists_verdict {g : RegNo → Word} (h : i.verdict g = some v) (g' : RegNo → Word) :
    ∃ v', i.verdict g' = some v' := by
  unfold Inst.verdict at h ⊢
  split at h
  case h_7 => cases h
  all_goals
    simp only [Option.some.injEq, exists_eq']

/-- With delayed branches off the target that is announced is four too far. -/
lemma not_narratedRight_off {g : RegNo → Word} (hv : i.verdict g = some v) :
    ¬ i.NarratedRight g false := by
  intro h
  let m : Machine := { gpr := g }
  have hv' : i.verdict (logInst i m).gpr = some v := hv
  have hrun : ∃ t, (execInst (.narrating false) (runSlot (.narrating false) false 0)
      { listingShown := true } i).run m =
        .ok (.next, { listingShown := true, snapGpr := g, snapPc := 0 }) t := by
    rw [execInst_shown _ rfl (storeAddr_of_verdict hv), dispatch_verdict hv']
    cases v <;> exact ⟨_, rfl⟩
  obtain ⟨t, hrun⟩ := hrun
  have hsaid := h (.narrating false) false 0 _ _ m t .next rfl rfl hrun
  have hused : usedBranch (.narrating false) i m = some (0 + i.branchOffset, v) := by
    rw [usedBranch, dispatch_verdict (m := m) hv]
    rfl
  have hannounced : (Narrator.announced { listingShown := true, snapGpr := g, snapPc := 0 } 2 i) =
      some (0 + 4 + i.branchOffset, v) := by
    rw [Narrator.announced, if_pos (Nat.le_refl 2), hv]
    rfl
  have heq := hsaid _ hannounced
  rw [show m.doDelayedUpdate (.narrating false) = m from rfl, hused] at heq
  have htarget := congrArg Prod.fst (Option.some.inj heq)
  dsimp only at htarget
  bv_omega

/-- A machine with these registers, a branch at the start of its text and a breakpoint after it. -/
def beforeBrk (i : Inst) (g : RegNo → Word) : Machine :=
  { Machine.ofText [i, makeRTypeInst .brk 1 0 0] with gpr := g, pc := 0x400000 }

/-- With delayed branches on, the instruction in the slot takes the place of a branch that is
taken. -/
lemma not_narratedRight_taken {g : RegNo → Word} (hv : i.verdict g = some true) :
    ¬ i.NarratedRight g true := by
  intro h
  let m := beforeBrk i g
  have hv' : i.verdict (logInst i m).gpr = some true := hv
  let snap : Narrator := { listingShown := true, snapGpr := g, snapPc := 0x400000 }
  let m₁ : Machine := { (logInst i m).setRegs m.toRegs with runningInDelaySlot := true, place := .slot }
  obtain ⟨s', t, hslot, hpc⟩ := runSlot_brk (m := m₁) (s := snap) (r := 2) rfl (a := 0x400004) rfl
    ⟨by decide, (by decide : (0x400004 : Word) < 0x400008)⟩ (by decide) rfl rfl
    (fun hint => hint.1 (by decide : (0 : Word) &&& statusIE = 0))
  have hrun : ∃ t, (execInst (.narrating true) (runSlot (.narrating true) false 1)
      { listingShown := true } i).run m = .ok (.next, s') t := by
    rw [execInst_shown _ rfl (storeAddr_of_verdict hv), dispatch_verdict hv']
    have hjump : ∃ t, (jumpInst (.narrating true) (runSlot (.narrating true) false 1) snap
        (.addr (m.pc + i.branchOffset + 4))).run ((logInst i m).setRegs m.toRegs) = .ok s' t := by
      change ∃ t, (do
        let s ← runSlot (.narrating true) false 1 snap
        _ : Exec Narrator).run m₁ = _
      rw [run_bind_of_ok hslot]
      exact ⟨_, rfl⟩
    obtain ⟨t, hjump⟩ := hjump
    change ∃ t, (do
      let s ← jumpInst (.narrating true) (runSlot (.narrating true) false 1) snap
        (.addr (m.pc + i.branchOffset + 4))
      _ : Exec (Flow × Narrator)).run ((logInst i m).setRegs m.toRegs) = _
    rw [run_bind_of_ok hjump]
    exact ⟨_, rfl⟩
  obtain ⟨t, hrun⟩ := hrun
  have hsaid := h (.narrating true) false 1 _ _ m t .next rfl rfl hrun
  have hused : usedBranch (.narrating true) i m = some (0x400000 + i.branchOffset + 4, true) := by
    rw [usedBranch, dispatch_verdict (m := m) hv]
    rfl
  obtain ⟨v', hv'⟩ := exists_verdict hv s'.snapGpr
  have hannounced : s'.announced 2 i = some (0x400004 + 4 + i.branchOffset, v') := by
    rw [Narrator.announced, if_pos (Nat.le_refl 2), hv', hpc]
    rfl
  have heq := hsaid _ hannounced
  rw [show m.doDelayedUpdate (.narrating true) = m from rfl, hused] at heq
  have htarget := congrArg Prod.fst (Option.some.inj heq)
  dsimp only at htarget
  bv_omega

/-- The narrator announces the target and the decision of a branch, whatever the run it is executed
in, exactly when delayed branches are on and the branch is not taken, or it has no template. -/
theorem narrator_iff (i : Inst) (g : RegNo → Word) (delayed : Bool) :
    i.NarratedRight g delayed ↔
      i.verdict g = none ∨ delayed = true ∧ i.verdict g = some false := by
  constructor
  · intro h
    cases hv : i.verdict g with
    | none => exact Or.inl rfl
    | some v =>
      cases delayed with
      | false => exact absurd h (not_narratedRight_off hv)
      | true =>
        cases v with
        | false => exact Or.inr ⟨rfl, rfl⟩
        | true => exact absurd h (not_narratedRight_taken hv)
  · intro h env display depth s s' m t f hmode hg hrun a ha
    unfold Narrator.announced at ha
    split at ha
    · rename_i hlevel
      have hsome : ∃ v', i.verdict s'.snapGpr = some v' := by
        cases hv' : i.verdict s'.snapGpr with
        | none =>
          rw [hv'] at ha
          cases ha
        | some v' => exact ⟨v', rfl⟩
      obtain ⟨v', hv'⟩ := hsome
      obtain ⟨v, hv⟩ := exists_verdict hv' g
      rcases h with hnone | ⟨rfl, hfalse⟩
      · rw [hv] at hnone
        cases hnone
      · rw [← hg] at hfalse
        obtain ⟨hpc, hgpr⟩ := execInst_notTaken (by omega) hfalse hrun
        rw [hpc, hgpr, hfalse] at ha
        obtain rfl := Option.some.inj ha
        rw [usedBranch, dispatch_verdict hfalse]
        simp only [hmode, if_true]
        have htarget : (m.doDelayedUpdate env).pc + i.branchOffset + 4
            = (m.doDelayedUpdate env).pc + 4 + i.branchOffset := by bv_omega
        rw [htarget]
    · cases ha

end

/-- `beq $0, $0, 3` with delayed branches off. -/
theorem narrator_beq :
    ¬ (makeITypeInst .beq 0 0 3).NarratedRight (fun _ => 0) false ∧
    Narrator.announced { snapPc := 0x400000 } 2 (makeITypeInst .beq 0 0 3) = some (0x400010, true) ∧
    usedBranch (.narrating false) (makeITypeInst .beq 0 0 3) { pc := 0x400000 }
      = some (0x40000c, true) :=
  ⟨not_narratedRight_off rfl, rfl, rfl⟩

end Spimulator
