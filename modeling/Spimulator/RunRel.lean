import Spimulator.DataMemory
import Spimulator.ExitFinal

/-! What whole runs keep: a relation that allows what the parts of a step do is kept by a step, by
the delay slots that it runs, and by every call of run_spim. -/
namespace Spimulator
open Frame

/-! Coprocessor 0 in the switch. Besides mtc0 and eret, instructions change it by exceptions only. -/

/-- New registers leave coprocessor 0 as it is, and a raised exception is no interrupt. -/
def Action.KeepsCp0 (m : Machine) : Action → Prop
  | .regs g | .branch g _ _ _ | .jump g _ => g.cp0 = m.cp0
  | .raise e => e ≠ .int
  | _ => True

/-- The registers that the case writes before anything else. -/
def Action.newRegs : Action → Option Regs
  | .regs g | .branch g _ _ _ | .jump g _ => some g
  | _ => none

section

variable (m : Machine) (i : Inst)

lemma keepsCp0_ite {a b : Action} {c : Prop} [Decidable c] (ha : a.KeepsCp0 m)
    (hb : b.KeepsCp0 m) : (if c then a else b).KeepsCp0 m := by
  split
  · exact ha
  · exact hb

lemma keepsCp0_evenRegs (rs : List RegNo) {a : Action} (ha : a.KeepsCp0 m) :
    (evenRegs rs a).KeepsCp0 m := keepsCp0_ite m trivial ha

@[simp] lemma keepsCp0_raise (e : ExcCode) : (Action.raise e).KeepsCp0 m ↔ e ≠ .int := Iff.rfl
@[simp] lemma keepsCp0_setRd (v : Word) : (m.setRd i v).KeepsCp0 m := rfl
@[simp] lemma keepsCp0_setRt (v : Word) : (m.setRt i v).KeepsCp0 m := rfl
@[simp] lemma keepsCp0_nothing : m.nothing.KeepsCp0 m := rfl
@[simp] lemma keepsCp0_setHiLo (p : Word × Word) : (m.setHiLo p).KeepsCp0 m := rfl
@[simp] lemma keepsCp0_loadRt (w : Width) (mask : Word) : (m.loadRt i w mask).KeepsCp0 m := trivial
@[simp] lemma keepsCp0_storeRt (w : Width) : (m.storeRt i w).KeepsCp0 m := trivial

@[simp] lemma keepsCp0_trapIf (c : Prop) [Decidable c] : (m.trapIf c).KeepsCp0 m :=
  keepsCp0_ite m (by simp) rfl

@[simp] lemma keepsCp0_branchIf (c : Prop) [Decidable c] (nullify : Bool) :
    (m.branchIf i c nullify).KeepsCp0 m := rfl

@[simp] lemma keepsCp0_branchLink (env : Env) (c : Word → Bool) (nullify : Bool) :
    (m.branchLink i env c nullify).KeepsCp0 m := rfl

@[simp] lemma keepsCp0_unaryS (f : Word → Word) : (m.unaryS i f).KeepsCp0 m := rfl
@[simp] lemma keepsCp0_binaryS (f : Word → Word → Word) : (m.binaryS i f).KeepsCp0 m := rfl

@[simp] lemma keepsCp0_setFdD (v : BitVec 64) : (m.setFdD i v).KeepsCp0 m :=
  keepsCp0_evenRegs m _ rfl

@[simp] lemma keepsCp0_unaryD (f : BitVec 64 → BitVec 64) : (m.unaryD i f).KeepsCp0 m :=
  keepsCp0_evenRegs m _ (keepsCp0_setFdD m i _)

@[simp] lemma keepsCp0_binaryD (f : BitVec 64 → BitVec 64 → BitVec 64) :
    (m.binaryD i f).KeepsCp0 m := keepsCp0_evenRegs m _ (keepsCp0_setFdD m i _)

@[simp] lemma keepsCp0_toIntD (env : Env) (f : BitVec 64 → BitVec 64) :
    (m.toIntD i env f).KeepsCp0 m := keepsCp0_evenRegs m _ rfl

@[simp] lemma keepsCp0_moveS (c : Prop) [Decidable c] : (m.moveS i c).KeepsCp0 m :=
  keepsCp0_ite m rfl rfl

@[simp] lemma keepsCp0_moveD (c : Prop) [Decidable c] : (m.moveD i c).KeepsCp0 m :=
  keepsCp0_ite m (keepsCp0_unaryD m i id) rfl

lemma keepsCp0_compareFp (fpu : Fpu) (v1 v2 : BitVec 64) : (m.compareFp i fpu v1 v2).KeepsCp0 m :=
  keepsCp0_ite m (keepsCp0_ite m (by simp) rfl) rfl

@[simp] lemma keepsCp0_compareS (fpu : Fpu) : (m.compareS i fpu).KeepsCp0 m :=
  keepsCp0_compareFp m i fpu _ _

@[simp] lemma keepsCp0_compareD (fpu : Fpu) : (m.compareD i fpu).KeepsCp0 m :=
  keepsCp0_evenRegs m _ (keepsCp0_compareFp m i fpu _ _)

end

lemma dispatch_keepsCp0 (env : Env) (i : Inst) (m : Machine) (hm : i.opcode ≠ some .mtc0)
    (he : i.opcode ≠ some .eret) : (dispatch env i m).KeepsCp0 m := by
  cases h : i.opcode with
  | none =>
    simp only [dispatch, h]
    trivial
  | some op =>
    cases op
    case mtc0 => exact absurd h hm
    case eret => exact absurd h he
    all_goals simp only [dispatch, h]
    all_goals first
      | simp only [keepsCp0_setRd, keepsCp0_setRt, keepsCp0_nothing, keepsCp0_setHiLo,
          keepsCp0_loadRt, keepsCp0_storeRt, keepsCp0_trapIf, keepsCp0_branchIf,
          keepsCp0_branchLink, keepsCp0_unaryS, keepsCp0_binaryS, keepsCp0_setFdD, keepsCp0_unaryD,
          keepsCp0_binaryD, keepsCp0_toIntD, keepsCp0_moveS, keepsCp0_moveD, keepsCp0_compareS,
          keepsCp0_compareD, keepsCp0_raise, ne_eq, reduceCtorEq, not_false_eq_true]
        done
      | exact trivial
      | exact (rfl : _ = m.cp0)
      | exact keepsCp0_evenRegs m _ trivial
      | exact keepsCp0_evenRegs m _ rfl
      | exact keepsCp0_ite m rfl rfl
      | exact keepsCp0_ite m (by simp) rfl
      | exact keepsCp0_ite m trivial (by simp)

lemma dispatch_raise {env : Env} {i : Inst} {m : Machine} {e : ExcCode}
    (h : dispatch env i m = .raise e) : e ≠ .int := by
  by_cases hm : i.opcode = some .mtc0
  · simp only [dispatch, hm] at h
    cases h
  by_cases he : i.opcode = some .eret
  · simp only [dispatch, he] at h
    cases h
  have hkeeps := dispatch_keepsCp0 env i m hm he
  rw [h] at hkeeps
  exact hkeeps

/-! The exception flag before the switch. The narration puts it back, and listing the text segment
reads and writes text only. -/

/-- The text segment stays where it is, and a clear exception flag stays clear. -/
def keepsClear : Rel Machine where
  rel m t := t.textTop = m.textTop ∧ (m.exceptionOccurred = false → t.exceptionOccurred = false)
  refl _ := ⟨rfl, id⟩
  trans h h' := ⟨h'.1.trans h.1, h'.2 ∘ h.2⟩

lemma accessRel_textTop : AccessRel (Rel.same (fun m : Machine => m.textTop)) := by
  have hdev : DeviceRel (Rel.same (fun m : Machine => m.textTop)) :=
    ⟨fun _ _ _ _ _ _ _ _ => rfl, fun _ _ => rfl, fun _ _ => rfl, fun _ _ _ => rfl⟩
  refine ⟨fun _ _ _ _ _ => rfl, fun _ _ => rfl, fun _ _ _ => rfl, hdev.ioRead, hdev.ioWrite, ?_⟩
  intro m e a _
  obtain ⟨c, b, f, h⟩ := m.raiseException_eq e
  rw [Machine.raiseAddr, h]
  rfl

/-- The address of a word of the user text. -/
def Machine.TextWord (m : Machine) (addr : Word) : Prop := m.inText addr ∧ addr &&& 3 = 0

lemma Machine.TextWord.of_keepsClear {m t : Machine} {addr : Word} (h : m.TextWord addr)
    (hr : keepsClear.rel m t) : t.TextWord addr := by
  refine ⟨⟨h.1.1, ?_⟩, h.2⟩
  rw [hr.1]
  exact h.1.2

/-- What is kept from every state in which the address is one of the user text. -/
def KeepsAt {α : Type} (addr : Word) (x : Exec α) : Prop :=
  ∀ m : Machine, m.TextWord addr → KeepsFrom keepsClear x m

namespace KeepsAt

variable {α β : Type} {addr : Word}

lemma of_keeps {x : Exec α} (h : Keeps keepsClear x) : KeepsAt addr x := fun m _ => h m

lemma bind {x : Exec α} {f : α → Exec β} (hx : KeepsAt addr x) (hf : ∀ a, KeepsAt addr (f a)) :
    KeepsAt addr (x >>= f) := by
  intro m hm
  refine KeepsFrom.bind (hx m hm) fun a t ht => hf a t (hm.of_keepsClear ?_)
  have h := hx m hm
  rw [KeepsFrom, ht] at h
  exact h

lemma memReadInst (tbl : AOpcodeTbl) : KeepsAt addr (memReadInst tbl addr) := by
  intro m hm
  unfold Machine.TextWord at hm
  refine KeepsFrom.get_bind ?_
  rw [if_pos hm]
  exact KeepsFrom.pure _

lemma memWriteInst (tbl : AOpcodeTbl) (i : Option InstRef) :
    KeepsAt addr (memWriteInst tbl addr i) := by
  intro m hm
  unfold Machine.TextWord at hm
  refine KeepsFrom.get_bind ?_
  rw [if_pos hm]
  exact KeepsFrom.set ⟨rfl, id⟩

lemma instIsBreakpoint (tbl : AOpcodeTbl) : KeepsAt addr (instIsBreakpoint tbl addr) :=
  bind (memReadInst tbl) fun _ => of_keeps (Keeps.pure _)

lemma addBreakpoint (tbl : AOpcodeTbl) : KeepsAt addr (addBreakpoint tbl addr) := by
  refine bind ?_ fun old => ?_
  · refine bind (of_keeps (Keeps.modify fun m => ⟨rfl, fun _ => rfl⟩)) fun _ => ?_
    refine bind (memReadInst tbl) fun old => ?_
    by_cases h : old = some breakInst
    · rw [if_pos h]
      exact of_keeps (Keeps.pure _)
    · rw [if_neg h]
      exact bind (memWriteInst tbl _) fun _ => of_keeps (Keeps.get_bind fun _ => KeepsFrom.pure _)
  · cases old with
    | none => exact of_keeps (Keeps.pure _)
    | some r => exact of_keeps (Keeps.modify fun m => ⟨rfl, id⟩)

lemma restoreInsts (tbl : AOpcodeTbl) (bs : List (Word × InstRef)) :
    KeepsAt addr (restoreInsts tbl addr bs) := by
  induction bs with
  | nil => exact of_keeps (Keeps.pure _)
  | cons b bs ih => exact bind (memWriteInst tbl _) fun _ => ih

lemma deleteBreakpoint (tbl : AOpcodeTbl) : KeepsAt addr (deleteBreakpoint tbl addr) := by
  intro m hm
  refine KeepsFrom.get_bind ?_
  refine bind (restoreInsts tbl _) (fun _ => of_keeps (Keeps.modify ?_)) m hm
  exact fun m => ⟨rfl, id⟩

lemma formatAnInst (tbl : AOpcodeTbl) (n : ℕ) : KeepsAt addr (formatAnInst tbl addr n) := by
  induction n with
  | zero => exact of_keeps (Keeps.throw _)
  | succ n ih =>
    intro m hm
    refine KeepsFrom.ite (fun _ => KeepsFrom.pure _) fun _ => ?_
    refine bind (instIsBreakpoint tbl) (fun b => ?_) m hm
    cases b with
    | false => exact of_keeps (Keeps.pure _)
    | true =>
      refine bind (deleteBreakpoint tbl) fun _ => bind (memReadInst tbl) fun _ => ?_
      exact bind ih fun _ => addBreakpoint tbl

end KeepsAt

lemma formatInsts_clear (tbl : AOpcodeTbl) (n : ℕ) (addr : Word) (m : Machine)
    (h : ∀ j < n, m.TextWord (addr + BitVec.ofNat 32 (4 * j))) :
    KeepsFrom keepsClear (formatInsts tbl n addr) m := by
  induction n generalizing addr m with
  | zero => exact KeepsFrom.pure _
  | succ n ih =>
    have hword : m.TextWord addr := by
      simpa using h 0 (Nat.succ_pos n)
    have hrest : ∀ t, keepsClear.rel m t → KeepsFrom keepsClear (formatInsts tbl n (addr + 4)) t := by
      intro t ht
      refine ih (addr + 4) t fun j hj => ?_
      have hj' := (h (j+1) (by omega)).of_keepsClear ht
      have haddr : addr + 4 + BitVec.ofNat 32 (4 * j) = addr + BitVec.ofNat 32 (4 * (j+1)) := by
        rw [show 4 * (j+1) = 4 + 4 * j by omega, BitVec.ofNat_add, BitVec.add_assoc]
        rfl
      rw [haddr]
      exact hj'
    have hread := KeepsAt.memReadInst tbl m hword
    refine KeepsFrom.bind hread fun r t ht => ?_
    rw [KeepsFrom, ht] at hread
    cases r with
    | none => exact hrest t hread
    | some r =>
      have hformat : KeepsFrom keepsClear (formatInst tbl addr) t :=
        KeepsFrom.get_bind (KeepsAt.formatAnInst tbl _ t (hword.of_keepsClear hread))
      refine KeepsFrom.bind hformat fun _ u hu => ?_
      rw [KeepsFrom, hu] at hformat
      exact hrest u (keepsClear.trans hread hformat)

lemma printTextListing_clear (tbl : AOpcodeTbl) : Keeps keepsClear (printTextListing tbl) := by
  refine Keeps.get_bind fun m => formatInsts_clear tbl _ _ m fun j hj => ?_
  have htop := m.textTop.isLt
  have hbot : textBot.toNat = 0x400000 := rfl
  have hlt : (textBot + BitVec.ofNat 32 (4 * j)).toNat = 0x400000 + 4 * j := by
    rw [BitVec.toNat_add, BitVec.toNat_ofNat, hbot]
    omega
  refine ⟨⟨?_, ?_⟩, ?_⟩
  · rw [BitVec.le_def]
    omega
  · rw [BitVec.lt_def]
    omega
  · refine (Width.and_mask_eq_zero .word _).mpr ?_
    rw [hlt, Width.bytes]
    omega

lemma peek_clear (w : Width) (addr : Word) : Keeps keepsClear.returning (peek w addr) := by
  have hread : Keeps (Rel.same (fun m : Machine => m.textTop)) (memRead w addr) :=
    accessRel_textTop.memRead w addr
  refine Keeps.get_bind fun m => KeepsFrom.of_ok (fun _ => trivial) fun _ t h => ?_
  obtain ⟨v, u, hv, h⟩ := ok_of_bind h
  cases h
  have htop := hread.ok hv
  exact ⟨htop, id⟩

lemma explainBefore_clear (env : Env) (s : Narrator) (i : Inst) (addr : Word) :
    Keeps keepsClear.returning (explainBefore env s i addr) := by
  have hlist := (printTextListing_clear env.tbl).returning
  refine Keeps.ite (fun _ => Keeps.pure _) fun _ => ?_
  refine Keeps.bind (Keeps.onlyIf hlist) fun _ => Keeps.get_bind fun m => ?_
  cases storeAddr i m with
  | none => exact KeepsFrom.pure _
  | some a => exact Keeps.bind (peek_clear _ _) (fun _ => Keeps.pure _) m

/-! The parts of a step. -/

section

variable (env : Env) (display : Bool) (slot : Narrator → Exec Narrator)

/-- A step up to the switch: its instruction, unless fetching it was an exception. -/
def enter (s : Narrator) : Exec (Option (Inst × Narrator)) := do
  stepHead env
  let r ← fetch env
  match r with
  | none =>
    modify fetchFault
    pure none
  | some i =>
    modify (Machine.doDelayedUpdate env)
    let m ← get
    let s ← explainBefore env s i m.pc
    modify (logInst i)
    pure (some (i, s))

/-- What the machine that an instruction meets makes of it. -/
def atSwitch (s : Narrator) (i : Inst) : Exec (Flow × Narrator) := do
  let m ← get
  perform env slot s (dispatch env i m)

lemma atSwitch_run (s : Narrator) (i : Inst) (m : Machine) :
    (atSwitch env slot s i).run m = (perform env slot s (dispatch env i m)).run m := by
  rw [atSwitch, EStateM.run_bind, EStateM.run_get]

/-- A step up to the end of the switch. -/
def execute (s : Narrator) : Exec (Option (Inst × Flow × Narrator)) := do
  let r ← enter env s
  match r with
  | none => pure none
  | some (i, s) =>
    let r ← atSwitch env slot s i
    pure (some (i, r))

/-- What a step does once the instruction has left the switch. -/
def leave (i : Inst) (r : Flow × Narrator) : Exec (Flow × Narrator) :=
  match r with
  | (.next, s) => do
    finishStep env display s i
    pure (.next, s)
  | (.pause, s) => pure (.pause, s)
  | (.stop, s) => pure (.stop, s)

lemma execute_eq (s : Narrator) : execute env slot s = (do
    stepHead env
    let r ← fetch env
    match r with
    | none => do
      modify fetchFault
      pure none
    | some i => do
      modify (Machine.doDelayedUpdate env)
      let m ← get
      let s ← explainBefore env s i m.pc
      modify (logInst i)
      let r ← atSwitch env slot s i
      pure (some (i, r))) := by
  simp only [execute, enter, bind_assoc]
  refine bind_congr fun _ => bind_congr fun r => ?_
  cases r with
  | none => rfl
  | some i => simp only [bind_assoc, pure_bind]

lemma step_eq (s : Narrator) : step env display slot s = execute env slot s >>= fun r =>
    match r with
    | none => pure (.next, s)
    | some (i, r) => leave env display i r := by
  simp only [step, execute, enter, bind_assoc]
  refine bind_congr fun _ => bind_congr fun r => ?_
  cases r with
  | none => rfl
  | some i =>
    simp only [execInst, bind_assoc, pure_bind, atSwitch]
    refine bind_congr fun _ => bind_congr fun m => bind_congr fun s => bind_congr fun _ => ?_
    refine bind_congr fun m => bind_congr fun r => ?_
    obtain ⟨flow, s⟩ := r
    cases flow with
    | next => rfl
    | pause => rfl
    | stop => rfl

end

/-- The instruction has just entered the switch. -/
def AtInst (i : Inst) (m : Machine) : Prop :=
  ∃ m' : Machine, m = logInst i m' ∧ m'.exceptionOccurred = false

/-- An instruction is fetched just when there was no exception. -/
lemma fetch_flag (env : Env) :
    Returns (fun r t => t.exceptionOccurred = r.isNone) (fetch env) := by
  refine Returns.last fun _ => Returns.last fun m => Returns.last fun r => ?_
  intro m r' t h
  obtain ⟨m, _, ⟨⟩, h⟩ := ok_of_bind h
  by_cases hm : m.exceptionOccurred
  · rw [if_pos hm] at h
    cases h
    exact hm
  · rw [if_neg hm] at h
    have hclear : m.exceptionOccurred = false := by simpa using hm
    cases r with
    | none => cases h
    | some r =>
      dsimp only at h
      split at h
      · cases h
        exact hclear
      · split at h
        · cases h
        · cases h
          exact hclear

/-- The arrival of a load changes registers and the pending loads. -/
lemma doDelayedUpdate_eq (env : Env) (m : Machine) : ∃ g f d d', m.doDelayedUpdate env =
    { m with gpr := g, fpr := f, delayedLoad1 := d, delayedLoad2 := d' } := by
  unfold Machine.doDelayedUpdate
  split
  · dsimp only
    split
    next d v _ =>
      cases d with
      | gpr r => exact ⟨_, _, _, _, rfl⟩
      | fpr r => exact ⟨_, _, _, _, rfl⟩
    next => exact ⟨_, _, _, _, rfl⟩
  · exact ⟨_, _, _, _, rfl⟩

/-- The looks that the narrator takes leave a clear exception flag clear. -/
lemma enter_atInst (env : Env) (s : Narrator) :
    Returns (fun r t => ∀ i s', r = some (i, s') → AtInst i t) (enter env s) := by
  refine Returns.last fun _ => Returns.bind (fetch_flag env) fun r m hm => ?_
  cases r with
  | none =>
    rintro r t ⟨⟩ i s' ⟨⟩
  | some i =>
    intro r t h j s' hr
    obtain ⟨_, u, hu, h⟩ := ok_of_bind h
    cases hu
    obtain ⟨_, _, ⟨⟩, h⟩ := ok_of_bind h
    obtain ⟨s₁, v, hv, h⟩ := ok_of_bind h
    cases h
    cases hr
    refine ⟨v, rfl, ((explainBefore_clear env _ i _).ok hv).2 ?_⟩
    obtain ⟨g, f, d, d', hd⟩ := doDelayedUpdate_eq env m
    rw [hd]
    exact hm

/-- The part before the switch, when the relation allows its pieces from every state. -/
lemma PrintRel.enter {env : Env} {R : Rel Machine} (hR : PrintRel R)
    (hfault : ∀ m, R.rel m (fetchFault m)) (hupdate : ∀ m, R.rel m (m.doDelayedUpdate env))
    (hlog : ∀ i m, R.rel m (logInst i m)) (s : Narrator) : Keeps R (enter env s) := by
  refine Keeps.bind (hR.stepHead env) fun _ => Keeps.bind (hR.fetch env) fun r => ?_
  cases r with
  | none => exact Keeps.bind (Keeps.modify hfault) fun _ => Keeps.pure _
  | some i =>
    refine Keeps.bind (Keeps.modify hupdate) fun _ => Keeps.get_bind fun m => ?_
    refine Keeps.bind (hR.explainBefore env s i _) (fun s => ?_) m
    exact Keeps.bind (Keeps.modify (hlog i)) fun _ => Keeps.pure _

/-! Loops. -/

/-- A step keeps what its two parts keep. -/
lemma Keeps.execute {env : Env} {slot : Narrator → Exec Narrator} {R : Rel Machine}
    (henter : ∀ s, Keeps R (enter env s))
    (hact : ∀ s i m, AtInst i m → KeepsFrom R (perform env slot s (dispatch env i m)) m)
    (s : Narrator) : Keeps R (execute env slot s) := by
  intro m
  refine KeepsFrom.bind (henter s m) fun r t ht => ?_
  cases r with
  | none => exact KeepsFrom.pure _
  | some r =>
    obtain ⟨i, s'⟩ := r
    have hat : AtInst i t := enter_atInst env s m _ t ht i s' rfl
    exact KeepsFrom.bind (KeepsFrom.get_bind (hact s' i t hat)) fun _ _ _ => KeepsFrom.pure _

/-- A delay slot of run_spim. -/
def SlotOf (env : Env) (slot : Narrator → Exec Narrator) : Prop :=
  ∃ display depth, slot = runSlot env display depth

/-- The relation allows what each part of a step and of the loop around it does, and a step up to
the end of the switch when it allows what the delay slot does. -/
structure LoopRel (env : Env) (R : Rel Machine) : Prop extends LookRel R where
  execute : ∀ slot, SlotOf env slot → (∀ s, Keeps R (slot s)) → ∀ s, Keeps R (execute env slot s)
  pc : ∀ (m : Machine) v, R.rel m { m with pc := v }
  raised : ∀ m, R.rel m (logRaised m)
  devices : ∀ h, Keeps R ( checkMemoryMappedIO h)
  take : ∀ m, R.rel m (takeInterrupt m)
  place : ∀ (m : Machine) b p, R.rel m { m with runningInDelaySlot := b, place := p }

namespace LoopRel

variable {env : Env} {R : Rel Machine} (hR : LoopRel env R)

include hR

lemma finishStep (display : Bool) (s : Narrator) (i : Inst) :
    Keeps R (finishStep env display s i) := by
  refine Keeps.bind (Keeps.modify fun m => R.trans (hR.pc m _) (hR.raised _)) fun _ => ?_
  refine Keeps.bind (hR.explainAfter env s i) fun _ => Keeps.get_bind fun m => ?_
  refine Keeps.bind (Keeps.onlyIf (hR.instToString _ _)) (fun _ => Keeps.modify fun m => ?_) m
  unfold deliver
  split
  · exact R.trans (hR.flag m) (hR.pc _ _)
  · exact R.refl m

lemma step {slot : Narrator → Exec Narrator} (display : Bool)
    (hx : ∀ s, Keeps R (Spimulator.execute env slot s)) (s : Narrator) :
    Keeps R (step env display slot s) := by
  rw [step_eq]
  refine Keeps.bind (hx s) fun r => ?_
  cases r with
  | none => exact Keeps.pure _
  | some r =>
    obtain ⟨i, flow, s⟩ := r
    cases flow with
    | next => exact Keeps.bind (hR.finishStep display s i) fun _ => Keeps.pure _
    | pause => exact Keeps.pure _
    | stop => exact Keeps.pure _

lemma poll : Keeps R (poll env) :=
  Keeps.bind (Keeps.onlyIf (hR.devices _)) fun _ => Keeps.modify hR.take

lemma runLoop {slot : Narrator → Exec Narrator} (display : Bool)
    (hx : ∀ s, Keeps R (Spimulator.execute env slot s)) (n k : ℕ) (s : Narrator) :
    Keeps R (runLoop env display slot s k n) := by
  induction n generalizing k s with
  | zero => exact Keeps.pure _
  | succ n ih =>
    refine Keeps.bind (Keeps.onlyIf hR.poll) fun _ => ?_
    refine Keeps.bind (hR.step display hx s) fun r => ?_
    obtain ⟨flow, s⟩ := r
    cases flow with
    | next => exact ih _ s
    | pause => exact Keeps.pure _
    | stop => exact Keeps.pure _

/-- What the parts of a step keep, every call of run_spim keeps. -/
theorem runSpim (display : Bool) (depth : ℕ) (pc : Word) (n : ℕ) (s : Narrator) :
    Keeps R (runSpim env display depth pc n s) := by
  induction depth generalizing pc n s with
  | zero => exact Keeps.throw _
  | succ depth ih =>
    rw [runSpim_succ]
    refine Keeps.bind (Keeps.modify fun m => hR.pc m _) fun _ => ?_
    have hslot : ∀ s, Keeps R (runSlot env display depth s) := fun s =>
      Keeps.get_bind fun m => Keeps.bind (ih _ _ _) (fun _ => Keeps.pure _) m
    exact hR.runLoop display (hR.execute _ ⟨display, depth, rfl⟩ hslot) n 0 s

/-! run_program. -/

/-- run_program clears the exception flag before each call of run_spim. -/
lemma runCleared (display : Bool) (depth : ℕ) (pc : Word) (n : ℕ) (s : Narrator) (p : Place) :
    Keeps R (do
      modify fun m => { m with exceptionOccurred := false, place := p }
      Spimulator.runSpim env display depth pc n s) := by
  refine Keeps.bind (Keeps.modify fun m => ?_) fun _ => hR.runSpim display depth pc n s
  exact R.trans (hR.flag m) (hR.place _ m.runningInDelaySlot p)

lemma stepOver (display : Bool) (depth : ℕ) (pc : Word) (s : Narrator) :
    Keeps R (stepOver env display depth pc s) := by
  refine Keeps.get_bind fun m => Keeps.bind (hR.deleteBreakpoint _ _) (fun _ => ?_) m
  rw [← bind_assoc]
  refine Keeps.bind (hR.runCleared display depth _ 1 s .over) fun _ => ?_
  exact Keeps.bind (hR.addBreakpoint _ _) fun _ => Keeps.pure _

/-- Besides what run_spim does, run_program clears EXL after a breakpoint. -/
theorem runProgram (hexl : ∀ m : Machine, R.rel m (m.setCp0 12 (m.status &&& ~~~statusEXL)))
    (display : Bool) (depth : ℕ) (pc : Word) (steps : ℕ) (contBkpt : Bool) (s : Narrator) :
    Keeps R (runProgram env display depth pc steps contBkpt s) := by
  have hmain : ∀ pc n s, Keeps R (runMain env display depth pc n s) := by
    intro pc n s
    unfold runMain
    rw [← bind_assoc]
    refine Keeps.bind (hR.runCleared display depth pc n s .main) fun r => ?_
    refine Keeps.get_bind fun m => KeepsFrom.ite (fun _ => ?_) fun _ => KeepsFrom.pure _
    exact KeepsFrom.bind (KeepsFrom.modify (hexl m)) fun _ _ _ => KeepsFrom.pure _
  refine Keeps.bind ?_ fun onBkpt => Keeps.ite (fun _ => ?_) fun _ => hmain pc steps s
  · exact Keeps.ite (fun _ => hR.instIsBreakpoint _ _) fun _ => Keeps.pure _
  · exact Keeps.bind (hR.stepOver display depth pc s) fun r => Keeps.get_bind fun m =>
      hmain m.pc _ _ m

end LoopRel

/-! The switch. -/

def Action.IsLoad : Action → Prop
  | .load .. | .loadPart .. | .loadDouble .. => True
  | _ => False

/-- The case ends in a jump. -/
def Action.Transfers : Action → Prop
  | .branch _ test _ _ => test = true
  | .jump .. => True
  | _ => False

/-- The relation also allows what the switch does besides loads, jumps and new registers. -/
structure FlatRel (R : Rel Machine) : Prop extends ServiceRel R where
  exception : ∀ (m : Machine) e, e ≠ .int → R.rel m (m.raiseException e)
  exit : ∀ v, Keeps R (exitWith v)

namespace FlatRel

variable {env : Env} {R S : Rel Machine} (hR : FlatRel R)

include hR

lemma ctc1 (hset : ∀ (m : Machine) fs v, R.rel m (m.setFcr fs v)) (m : Machine) (fs : RegNo)
    (v : Word) : R.rel m (m.ctc1 fs v) := by
  unfold Machine.ctc1
  dsimp only
  split
  · exact R.trans (hset m fs v) (hR.exception _ .fpe (by decide))
  · exact hset m fs v

lemma doSyscall : Keeps R (doSyscall env) := by
  refine Keeps.get_bind fun m => ?_
  split
  · exact KeepsFrom.throw _
  · exact Keeps.bind (hR.exit _) (fun _ => Keeps.pure _) m
  · exact Keeps.bind (hR.exit _) (fun _ => Keeps.pure _) m
  · exact Keeps.bind (hR.otherService env _) (fun _ => Keeps.pure _) m

end FlatRel

/-- A jump keeps what its delay slot keeps. -/
lemma keeps_jumpInst {env : Env} {S : Rel Machine} (hpc : ∀ (m : Machine) v, S.rel m { m with pc := v })
    (hplace : ∀ (m : Machine) b p, S.rel m { m with runningInDelaySlot := b, place := p })
    {slot : Narrator → Exec Narrator} (hs : ∀ s, Keeps S (slot s)) (s : Narrator)
    (target : JumpTarget) : Keeps S (jumpInst env slot s target) := by
  refine Keeps.ite (fun _ => Keeps.get_bind fun m => ?_) fun _ => ?_
  · refine KeepsFrom.bind (KeepsFrom.set (hplace m _ _)) fun _ t _ => ?_
    refine Keeps.bind (hs s) (fun s => Keeps.bind (Keeps.modify fun m' => ?_)
      fun _ => Keeps.pure _) t
    exact S.trans (hplace m' false m.place) (hpc _ _)
  · exact Keeps.bind (Keeps.modify fun m => hpc m _) fun _ => Keeps.pure _

/-- A case of the switch keeps what its new registers, its load and its jump keep, and what `R`
allows otherwise. -/
lemma FlatRel.perform {env : Env} {R S : Rel Machine} (hR : FlatRel R)
    (hf : ∀ {s t}, R.upTo s t → S.upTo s t) (hpc : ∀ (m : Machine) v, S.rel m { m with pc := v })
    {slot : Narrator → Exec Narrator} (s : Narrator) (a : Action) (m : Machine)
    (hsub : ∀ t, R.rel m t → S.rel m t)
    (hregs : ∀ g, a.newRegs = some g → ¬ a.Transfers → S.rel m (m.setRegs g))
    (hraise : ∀ e, a = .raise e → e ≠ .int)
    (hctc1 : ∀ fs v, a = .ctc1 fs v → S.rel m (m.ctc1 fs v))
    (hload : a.IsLoad → KeepsFrom S (perform env slot s a) m)
    (hjump : ∀ g target, a.newRegs = some g → a.Transfers →
      KeepsFrom S (modify (fun m => m.setRegs g) >>= fun _ => jumpInst env slot s target) m) :
    KeepsFrom S (perform env slot s a) m := by
  have hnext : ∀ {x : Exec Unit}, KeepsFrom S x m →
      KeepsFrom S (x >>= fun _ => pure (Flow.next, s)) m :=
    fun hx => KeepsFrom.bind hx fun _ _ _ => KeepsFrom.pure _
  have hflat : ∀ {α : Type} {x : Exec α}, KeepsFrom R x m → KeepsFrom S x m :=
    fun hx => hx.mono hsub hf
  cases a with
  | regs g => exact hnext (KeepsFrom.modify (hregs g rfl id))
  | raise e => exact hnext (KeepsFrom.modify (hsub _ (hR.exception m e (hraise e rfl))))
  | ctc1 fs v => exact hnext (KeepsFrom.modify (hctc1 fs v rfl))
  | load | loadPart | loadDouble => exact hload trivial
  | store w addr v => exact hnext (hflat (hR.memWrite _ _ _ _ m))
  | storePart addr merge => exact hnext (hflat (hR.storePart env _ _ m))
  | storeDouble addr lo hi => exact hnext (hflat (hR.storeDouble env _ _ _ m))
  | branch g test target nullify =>
    cases test with
    | true =>
      have h := KeepsFrom.bind (hjump g (.addr (if env.delayedBranches then target + 4 else target))
        rfl rfl) fun s _ _ => KeepsFrom.pure (ε := Halt) (Flow.next, s)
      rw [bind_assoc] at h
      exact h
    | false =>
      refine KeepsFrom.bind (KeepsFrom.modify (hregs g rfl (by simp [Action.Transfers]))) fun _ t _ => ?_
      exact Keeps.bind (Keeps.modify fun m => hpc m _) (fun _ => Keeps.pure _) t
  | jump g target =>
    have h := KeepsFrom.bind (hjump g target rfl trivial)
      fun s _ _ => KeepsFrom.pure (ε := Halt) (Flow.next, s)
    rw [bind_assoc] at h
    exact h
  | debugBreak =>
    exact KeepsFrom.bind (KeepsFrom.modify (hsub _ (hR.exception m .bp (by decide))))
      fun _ _ _ => KeepsFrom.pure _
  | syscall => exact KeepsFrom.bind (hflat (hR.doSyscall m)) fun _ _ _ => KeepsFrom.pure _
  | halt h => exact KeepsFrom.throw _

/-- A load keeps what its reads of memory and the arrival of their results keep. -/
lemma AccessRel.perform_load {env : Env} {R : Rel Machine} (hR : AccessRel R)
    (hload : ∀ (m : Machine) d v, R.rel m (m.loadInst env d v)) {slot : Narrator → Exec Narrator}
    (s : Narrator) {a : Action} (ha : a.IsLoad) : Keeps R (perform env slot s a) := by
  have hnow : ∀ d (f : Machine → Word),
      Keeps R (modify fun m => m.loadInst env d (f m) : Exec Unit) :=
    fun d f => Keeps.modify fun m => hload m d (f m)
  cases a with
  | load w addr mask d =>
    exact Keeps.bind (hR.memRead w addr) fun v => Keeps.bind (hnow d _) fun _ => Keeps.pure _
  | loadPart addr merge rt =>
    refine Keeps.bind (Keeps.bind (hR.memRead _ _) fun v => ?_) fun _ => Keeps.pure _
    exact hnow _ _
  | loadDouble addr ft =>
    refine Keeps.bind ?_ fun _ => Keeps.pure _
    refine Keeps.bind (Keeps.onlyIf (hR.raising _ (by decide) _)) fun _ => ?_
    refine Keeps.bind (hR.memRead _ _) fun v => Keeps.bind (hnow _ _) fun _ => ?_
    exact Keeps.bind (hR.memRead _ _) fun v => hnow _ _
  | _ => exact ha.elim

/-! Relations that allow every new content of the registers. -/

/-- An mtc0 or an eret that has just entered the switch. -/
def Executing (e : Event) (m : Machine) : Prop :=
  m.exceptionOccurred = false ∧ ∃ older, m.trace = e :: older

/-- The relation allows what every part of a step and of the loop around it does. -/
structure RunRel (env : Env) (R : Rel Machine) : Prop extends PrintRel R where
  enter : ∀ s, Keeps R (enter env s)
  take : ∀ m, R.rel m (takeInterrupt m)
  raised : ∀ m, R.rel m (logRaised m)
  exit : ∀ v, Keeps R (exitWith v)
  mtc0 : ∀ m i g, Executing (.mtc0 i.fs) m → m.moveToCp0 i = .regs g → R.rel m (m.setRegs g)
  eret : ∀ m, Executing .eret m → R.rel m (m.setCp0 12 (m.status &&& ~~~statusEXL))
  place : ∀ (m : Machine) b p, R.rel m { m with runningInDelaySlot := b, place := p }

lemma AtInst.executing {i : Inst} {m : Machine} (hi : AtInst i m) :
    (i.opcode = some .mtc0 → Executing (.mtc0 i.fs) m) ∧
      (i.opcode = some .eret → Executing .eret m) := by
  obtain ⟨m, rfl, hm⟩ := hi
  constructor
  · intro hi
    refine ⟨hm, .exec m.pc none :: m.trace, ?_⟩
    simp only [logInst, instEvents, hi]
    rfl
  · intro hi
    refine ⟨hm, .exec m.pc none :: m.trace, ?_⟩
    simp only [logInst, instEvents, hi]
    rfl

namespace RunRel

variable {env : Env} {R : Rel Machine} (hR : RunRel env R)

include hR

theorem toFlatRel : FlatRel R where
  toServiceRel := hR.toServiceRel
  exception := hR.exception
  exit := hR.exit

/-- An action whose new registers the relation allows, and which raises no interrupt. -/
lemma performFrom {slot : Narrator → Exec Narrator} (hs : ∀ s, Keeps R (slot s)) (s : Narrator)
    (a : Action) (m : Machine) (hg : ∀ g, a.newRegs = some g → R.rel m (m.setRegs g))
    (he : ∀ e, a = .raise e → e ≠ .int) : KeepsFrom R (Spimulator.perform env slot s a) m := by
  refine hR.toFlatRel.perform id hR.pc s a m (fun _ => id) (fun g hn _ => hg g hn) he
    (fun fs v _ => hR.toFlatRel.ctc1 (fun m _ _ => hR.regs m _ rfl) m fs v) ?_ ?_
  · exact fun hl => hR.perform_load (fun m d v => hR.loadInst env d v m) s hl m
  · intro g target hn _
    exact KeepsFrom.bind (KeepsFrom.modify (hg g hn))
      fun _ t _ => keeps_jumpInst hR.pc hR.place hs s target t

/-- The switch, on what the instruction asks for where the machine is. -/
lemma perform {slot : Narrator → Exec Narrator} (hs : ∀ s, Keeps R (slot s)) (s : Narrator)
    (i : Inst) (m : Machine) (hi : AtInst i m) :
    KeepsFrom R (Spimulator.perform env slot s (dispatch env i m)) m := by
  by_cases hm : i.opcode = some .mtc0
  · have hd : dispatch env i m = m.moveToCp0 i := by
      simp only [dispatch, hm]
    rw [hd]
    exact hR.performFrom hs s _ m (fun g hg => hR.mtc0 m i g (hi.executing.1 hm) (Option.some.inj hg ▸ rfl))
      nofun
  by_cases he : i.opcode = some .eret
  · have hd : dispatch env i m =
        .jump (m.toRegs.setCp0 12 (m.status &&& ~~~statusEXL)) .epc := by
      simp only [dispatch, he]
    rw [hd]
    refine hR.performFrom hs s _ m (fun g hg => ?_) nofun
    cases hg
    exact hR.eret m (hi.executing.2 he)
  · have hkeeps := dispatch_keepsCp0 env i m hm he
    refine hR.performFrom hs s _ m (fun g hg => hR.regs m g ?_) fun e => dispatch_raise
    cases ha : dispatch env i m with
    | regs g' | branch g' | jump g' =>
      rw [ha] at hkeeps hg
      cases hg
      exact hkeeps
    | _ =>
      rw [ha] at hg
      cases hg

theorem toLoopRel : LoopRel env R where
  toLookRel := hR.toLookRel
  execute _ _ hs := Keeps.execute hR.enter fun s i m hi => hR.perform hs s i m hi
  pc := hR.pc
  raised := hR.raised
  devices := hR.devices
  take := hR.take
  place := hR.place

end RunRel

end Spimulator
