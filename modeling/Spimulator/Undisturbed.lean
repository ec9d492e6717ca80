import Spimulator.CodeRun
import Spimulator.ExitFinal
import Spimulator.Library.Agree

/-! Runs that nothing from outside disturbs: no devices, no timer, no narration. run_spim then does
what its instructions do one by one, and its history does not matter. -/
namespace Spimulator
open Frame CodeBlock

namespace Machine

/-- The machine with the history of another, after as many questions to the host. -/
def past (m h : Machine) : Machine := { m with
  trace := h.trace, visits := h.visits, place := h.place, hostCalls := h.hostCalls }

variable (m h : Machine)

@[simp] lemma past_self : m.past m = m := rfl
@[simp] lemma past_past (k : Machine) : (m.past h).past k = m.past k := rfl
@[simp] lemma pc_past : (m.past h).pc = m.pc := rfl

lemma past_setCp0 (r : RegNo) (v : Word) : (m.past h).setCp0 r v = (m.setCp0 r v).past h := rfl

lemma past_recordFirstBad (e : ExcCode) :
    (m.past h).recordFirstBad e = (m.recordFirstBad e).past h := by
  have hbad : (m.past h).firstBadException = m.firstBadException := rfl
  unfold recordFirstBad
  rw [hbad]
  split <;> rfl

lemma past_recordEpc : (m.past h).recordEpc = m.recordEpc.past h := by
  have hexl : (m.past h).exl = m.exl := rfl
  have hslot : (m.past h).runningInDelaySlot = m.runningInDelaySlot := rfl
  unfold recordEpc
  rw [hexl, hslot]
  split
  · rfl
  · split <;> rfl

lemma past_raiseException (e : ExcCode) :
    (m.past h).raiseException e = (m.raiseException e).past h := by
  have hexl : (m.past h).exl = m.exl := rfl
  have hstatus : (m.past h).status = m.status := rfl
  have hflag : ∀ b, { m.past h with exceptionOccurred := b } =
      { m with exceptionOccurred := b : Machine }.past h := fun _ => rfl
  unfold raiseException
  simp only [hexl, hstatus, hflag, past_recordFirstBad, past_recordEpc]
  split <;> rfl

lemma past_raiseAddr (e : ExcCode) (addr : Word) :
    (m.past h).raiseAddr e addr = (m.raiseAddr e addr).past h := by
  rw [raiseAddr, past_raiseException, past_setCp0, raiseAddr]

lemma past_deliver : deliver (m.past h) = (deliver m).past h := by
  have hflag : (m.past h).exceptionOccurred = m.exceptionOccurred := rfl
  unfold deliver
  rw [hflag]
  split <;> rfl

end Machine

/-- The second machine is the first with the history of `h`. -/
structure WithPast (h m t : Machine) : Prop where
  eq : t = m.past h

lemma withPast_ite {h m m' t t' : Machine} {p q : Prop} [Decidable p] [Decidable q] (hpq : q ↔ p)
    (hm : WithPast h m m') (ht : WithPast h t t') :
    WithPast h (if p then m else t) (if q then m' else t') where
  eq := (if_congr hpq hm.eq ht.eq).trans (apply_ite (fun m : Machine => m.past h) p m t).symm

/-! Memory. -/

section

variable (h m : Machine)

lemma past_raising (e : ExcCode) (addr : Word) :
    Agree (WithPast h) (modify fun m => m.raiseAddr e addr : Exec Unit)
      (modify fun m => m.raiseAddr e addr) m (m.past h) :=
  Agree.modify ⟨m.past_raiseAddr h e addr⟩

lemma past_expandStack (n : ℤ) :
    Agree (WithPast h) (expandStack n) (expandStack n) m (m.past h) := by
  have hbot : (m.past h).stackBot = m.stackBot := rfl
  have hlim : (m.past h).stackSizeLimit = m.stackSizeLimit := rfl
  have hmove (a b c : ℕ) : (m.past h).moveStack a b c = (m.moveStack a b c).past h := rfl
  rw [Agree, expandStack, EStateM.run_bind, EStateM.run_get, EStateM.run_bind, EStateM.run_get]
  dsimp only
  rw [hbot, hlim]
  generalize hostInt (roundUp n) = delta
  generalize BitVec.toNat (stackTop - m.stackBot) = old
  generalize hostInt (old + max delta old) = size
  by_cases hc : n < 0 ∨ size > m.stackSizeLimit
  · rw [if_pos hc, if_pos hc]
    exact ⟨rfl, ⟨rfl⟩⟩
  by_cases hneg : size < 0
  · rw [if_neg hc, if_neg hc, if_pos hneg, if_pos hneg]
    exact ⟨rfl, ⟨rfl⟩⟩
  · rw [if_neg hc, if_neg hc, if_neg hneg, if_neg hneg, hmove]
    exact ⟨rfl, ⟨rfl⟩⟩

lemma past_readIO (addr : Word) :
    Agree (WithPast h) ( readMemoryMappedIO addr) ( readMemoryMappedIO addr) m (m.past h) := by
  refine Agree.get_bind ?_
  refine Agree.ite Iff.rfl (fun _ => Agree.pure ⟨rfl⟩ _) fun _ => ?_
  refine Agree.ite Iff.rfl (fun _ => Agree.pure ⟨rfl⟩ _) fun _ => ?_
  refine Agree.ite Iff.rfl (fun _ => Agree.pure ⟨rfl⟩ _) fun _ => ?_
  refine Agree.ite Iff.rfl (fun _ => ?_) fun _ => Agree.throw ⟨rfl⟩ _
  exact Agree.bind (Agree.modify ⟨rfl⟩) fun _ _ _ _ hp => Agree.pure hp _

lemma past_writeIO (addr value : Word) : Agree (WithPast h) ( writeMemoryMappedIO addr value)
    ( writeMemoryMappedIO addr value) m (m.past h) := by
  refine Agree.get_bind ?_
  refine Agree.ite Iff.rfl (fun _ => ?_) fun _ => ?_
  · exact Agree.ite Iff.rfl (fun _ => Agree.set (withPast_ite Iff.rfl ⟨rfl⟩ ⟨rfl⟩)) fun _ => Agree.set ⟨rfl⟩
  refine Agree.ite Iff.rfl (fun _ => ?_) fun _ => ?_
  · exact Agree.ite Iff.rfl (fun _ => Agree.set ⟨rfl⟩) fun _ => Agree.pure ⟨rfl⟩ _
  refine Agree.ite Iff.rfl (fun _ => ?_) fun _ => ?_
  · exact Agree.ite Iff.rfl (fun _ => Agree.set (withPast_ite Iff.rfl ⟨rfl⟩ ⟨rfl⟩)) fun _ => Agree.set ⟨rfl⟩
  exact Agree.ite Iff.rfl (fun _ => Agree.pure ⟨rfl⟩ _) fun _ => Agree.throw ⟨rfl⟩ _

lemma past_textEncoding (addr : Word) :
    Agree (WithPast h) (textEncoding addr) (textEncoding addr) m (m.past h) := by
  have htext : (m.past h).textSeg = m.textSeg := rfl
  refine Agree.get_bind ?_
  rw [htext]
  cases m.textSeg (Machine.textIndex addr) with
  | none => exact Agree.throw ⟨rfl⟩ _
  | some r => exact Agree.pure ⟨rfl⟩ _

lemma past_badMemRead (addr : Word) (w : Width) :
    Agree (WithPast h) (badMemRead addr w) (badMemRead addr w) m (m.past h) := by
  have htext : (m.past h).textSeg = m.textSeg := rfl
  refine Agree.get_bind ?_
  refine Agree.ite Iff.rfl (fun _ => ?_) fun _ => ?_
  · exact Agree.bind (past_raising h m _ addr) fun _ _ _ _ hp => Agree.pure hp _
  refine Agree.ite Iff.rfl (fun _ => ?_) fun _ => ?_
  · cases w with
    | byte => exact Agree.bind (past_textEncoding h m addr) fun _ _ _ _ hp => Agree.pure hp _
    | half => exact Agree.bind (past_textEncoding h m addr) fun _ _ _ _ hp => Agree.pure hp _
    | word =>
      rw [htext]
      cases m.textSeg (Machine.textIndex addr) with
      | none => exact Agree.pure ⟨rfl⟩ _
      | some r => exact Agree.pure ⟨rfl⟩ _
  refine Agree.ite Iff.rfl (fun _ => ?_) fun _ => ?_
  · exact Agree.bind (past_expandStack h m _) fun _ _ _ _ hp => Agree.pure hp _
  refine Agree.ite Iff.rfl (fun _ => past_readIO h m addr) fun _ => ?_
  exact Agree.bind (past_raising h m _ addr) fun _ _ _ _ hp => Agree.pure hp _

lemma past_memRead (w : Width) (addr : Word) :
    Agree (WithPast h) (memRead w addr) (memRead w addr) m (m.past h) := by
  refine Agree.get_bind ?_
  refine Agree.ite Iff.rfl (fun _ => Agree.pure ⟨rfl⟩ _) fun _ => ?_
  refine Agree.ite Iff.rfl (fun _ => Agree.pure ⟨rfl⟩ _) fun _ => ?_
  exact Agree.ite Iff.rfl (fun _ => Agree.pure ⟨rfl⟩ _) fun _ => past_badMemRead h m addr w

lemma past_badMemWrite (tbl : AOpcodeTbl) (addr value : Word) (w : Width) :
    Agree (WithPast h) (badMemWrite tbl addr value w) (badMemWrite tbl addr value w) m
      (m.past h) := by
  refine Agree.get_bind ?_
  refine Agree.ite Iff.rfl (fun _ => past_raising h m _ addr) fun _ => ?_
  refine Agree.ite Iff.rfl (fun _ => Agree.set ⟨rfl⟩) fun _ => ?_
  refine Agree.ite Iff.rfl (fun _ => ?_) fun _ => ?_
  · refine Agree.bind (past_expandStack h m _) fun _ s t _ hp => ?_
    obtain ⟨rfl⟩ := hp
    exact Agree.get_bind
      (Agree.ite Iff.rfl (fun _ => Agree.set ⟨rfl⟩) fun _ => past_raising h s _ addr)
  · exact Agree.ite Iff.rfl (fun _ => past_writeIO h m addr value) fun _ => past_raising h m _ addr

lemma past_memWrite (tbl : AOpcodeTbl) (w : Width) (addr value : Word) :
    Agree (WithPast h) (memWrite tbl w addr value) (memWrite tbl w addr value) m (m.past h) := by
  refine Agree.get_bind ?_
  refine Agree.ite Iff.rfl (fun _ => Agree.set ⟨rfl⟩) fun _ => ?_
  refine Agree.ite Iff.rfl (fun _ => Agree.set ⟨rfl⟩) fun _ => ?_
  exact Agree.ite Iff.rfl (fun _ => Agree.set ⟨rfl⟩) fun _ => past_badMemWrite h m tbl addr value w

end

/-! The switch. -/

def Action.asksHost : Action → Bool
  | .syscall => true
  | _ => false

section

variable (env : Env) (m : Machine)

lemma asksHost_ite {a b : Action} {c : Prop} [Decidable c] (ha : a.asksHost = false)
    (hb : b.asksHost = false) : (if c then a else b).asksHost = false := by
  split
  · exact ha
  · exact hb

lemma asksHost_evenRegs (rs : List RegNo) {a : Action} (ha : a.asksHost = false) :
    (evenRegs rs a).asksHost = false := asksHost_ite rfl ha

lemma asksHost_setFdD (i : Inst) (v : BitVec 64) : (m.setFdD i v).asksHost = false :=
  asksHost_evenRegs _ rfl

/-- Only syscalls ask the host. -/
lemma asksHost_dispatch {i : Inst} (h : i.opcode ≠ some .syscall) :
    (dispatch env i m).asksHost = false := by
  cases hop : i.opcode with
  | none =>
    simp only [dispatch, hop]
    rfl
  | some op =>
    cases op
    case syscall => exact absurd hop h
    all_goals simp only [dispatch, hop]
    all_goals first
      | rfl
      | exact asksHost_ite rfl rfl
      | exact asksHost_evenRegs _ rfl
      | exact asksHost_evenRegs _ (asksHost_setFdD m i _)
      | exact asksHost_ite (asksHost_evenRegs _ (asksHost_setFdD m i _)) rfl
      | exact asksHost_ite (asksHost_ite rfl rfl) rfl
      | exact asksHost_evenRegs _ (asksHost_ite (asksHost_ite rfl rfl) rfl)

end

section

variable (env : Env) (h m : Machine)

lemma past_setDest (d : LoadDest) (v : Word) : (m.past h).setDest d v = (m.setDest d v).past h := by
  cases d <;> rfl

lemma past_loadInst (d : LoadDest) (v : Word) :
    (m.past h).loadInst env d v = (m.loadInst env d v).past h := by
  unfold Machine.loadInst
  split
  · rfl
  · exact past_setDest h m d v

/-- A load does not look at the history. -/
lemma past_loading (d : LoadDest) (v : Word) :
    Agree (WithPast h) (modify (Machine.loadInst env d v) : Exec Unit)
      (modify (Machine.loadInst env d v)) m (m.past h) :=
  Agree.modify ⟨past_loadInst env h m d v⟩

lemma past_loadPart (addr : Word) (merge : Word → Word) (rt : RegNo) :
    Agree (WithPast h) (loadPart env addr merge rt) (loadPart env addr merge rt) m (m.past h) := by
  refine Agree.bind (past_memRead h m _ _) fun v s t _ hp => ?_
  obtain ⟨rfl⟩ := hp
  exact Agree.modify ⟨past_loadInst env h s _ _⟩

lemma past_loadDouble (addr : Word) (ft : RegNo) :
    Agree (WithPast h) (loadDouble env addr ft) (loadDouble env addr ft) m (m.past h) := by
  refine Agree.bind (Agree.onlyIf Iff.rfl ⟨rfl⟩ fun _ => past_raising h m _ addr) fun _ s t _ hp => ?_
  obtain ⟨rfl⟩ := hp
  refine Agree.bind (past_memRead h s _ _) fun v s t _ hp => ?_
  obtain ⟨rfl⟩ := hp
  refine Agree.bind (past_loading env h s _ v) fun _ s t _ hp => ?_
  obtain ⟨rfl⟩ := hp
  refine Agree.bind (past_memRead h s _ _) fun v s t _ hp => ?_
  obtain ⟨rfl⟩ := hp
  exact past_loading env h s _ v

lemma past_storePart (addr : Word) (merge : Word → Word) :
    Agree (WithPast h) (storePart env addr merge) (storePart env addr merge) m (m.past h) := by
  refine Agree.bind (past_memRead h m _ _) fun v s t _ hp => ?_
  obtain ⟨rfl⟩ := hp
  exact past_memWrite h s _ _ _ _

lemma past_storeDouble (addr lo hi : Word) :
    Agree (WithPast h) (storeDouble env addr lo hi) (storeDouble env addr lo hi) m (m.past h) := by
  refine Agree.bind (Agree.onlyIf Iff.rfl ⟨rfl⟩ fun _ => past_raising h m _ addr) fun _ s t _ hp => ?_
  obtain ⟨rfl⟩ := hp
  refine Agree.bind (past_memWrite h s _ _ _ _) fun _ s t _ hp => ?_
  obtain ⟨rfl⟩ := hp
  exact past_memWrite h s _ _ _ _

lemma past_ctc1 (fs : RegNo) (v : Word) : (m.past h).ctc1 fs v = (m.ctc1 fs v).past h := by
  have hset : (m.past h).setFcr fs v = (m.setFcr fs v).past h := rfl
  rw [Machine.ctc1, Machine.ctc1, hset]
  generalize m.setFcr fs v = t
  split
  · exact t.past_raiseException h .fpe
  · rfl

end

section

variable {env : Env} {h m t : Machine}

/-- Without delay slots, only a syscall looks at what has been before. -/
theorem past_perform {ν : Type} (hb : env.delayedBranches = false) (slot : ν → Exec ν) (s : ν)
    {a : Action} (ha : a.asksHost = false) :
    Agree (WithPast h) (perform env slot s a) (perform env slot s a) m (m.past h) := by
  have hjump (target : JumpTarget) (m : Machine) :
      Agree (WithPast h) (jumpInst env slot s target) (jumpInst env slot s target) m (m.past h) := by
    simp only [jumpInst, hb, Bool.false_eq_true, if_false]
    exact Agree.bind (Agree.modify ⟨by cases target <;> rfl⟩) fun _ _ _ _ hp => Agree.pure hp _
  cases a with
  | regs g => exact Agree.bind (Agree.modify ⟨rfl⟩) fun _ _ _ _ hp => Agree.pure hp _
  | raise e =>
    exact Agree.bind (Agree.modify ⟨m.past_raiseException h e⟩) fun _ _ _ _ hp => Agree.pure hp _
  | ctc1 fs v =>
    exact Agree.bind (Agree.modify ⟨past_ctc1 h m fs v⟩) fun _ _ _ _ hp => Agree.pure hp _
  | load w addr mask dest =>
    refine Agree.bind (past_memRead h m w addr) fun v s t _ hp => ?_
    obtain ⟨rfl⟩ := hp
    exact Agree.bind (past_loading env h s dest _) fun _ _ _ _ hp => Agree.pure hp _
  | loadPart addr merge rt =>
    exact Agree.bind (past_loadPart env h m addr merge rt) fun _ _ _ _ hp => Agree.pure hp _
  | loadDouble addr ft =>
    exact Agree.bind (past_loadDouble env h m addr ft) fun _ _ _ _ hp => Agree.pure hp _
  | store w addr v =>
    exact Agree.bind (past_memWrite h m _ w addr v) fun _ _ _ _ hp => Agree.pure hp _
  | storePart addr merge =>
    exact Agree.bind (past_storePart env h m addr merge) fun _ _ _ _ hp => Agree.pure hp _
  | storeDouble addr lo hi =>
    exact Agree.bind (past_storeDouble env h m addr lo hi) fun _ _ _ _ hp => Agree.pure hp _
  | branch g test target nullify =>
    refine Agree.bind (Agree.modify ⟨rfl⟩) fun _ u t _ hp => ?_
    obtain ⟨rfl⟩ := hp
    refine Agree.ite Iff.rfl (fun _ => ?_) fun _ => ?_
    · exact Agree.bind (hjump _ u) fun _ _ _ _ hp => Agree.pure hp _
    · exact Agree.bind (Agree.modify ⟨rfl⟩) fun _ _ _ _ hp => Agree.pure hp _
  | jump g target =>
    refine Agree.bind (Agree.modify ⟨rfl⟩) fun _ u t _ hp => ?_
    obtain ⟨rfl⟩ := hp
    exact Agree.bind (hjump target u) fun _ _ _ _ hp => Agree.pure hp _
  | debugBreak =>
    exact Agree.bind (Agree.modify ⟨m.past_raiseException h .bp⟩) fun _ _ _ _ hp => Agree.pure hp _
  | syscall => cases ha
  | halt e => exact Agree.throw ⟨rfl⟩ _

/-- $0 and the exception flag are cleared. -/
def Machine.readied (m : Machine) : Machine := { m.setGpr 0 0 with exceptionOccurred := false }

/-- The switch, from a state with any history. -/
lemma InstRuns.switched {i : Inst} (hr : InstRuns env i m t) {ν : Type} (slot : ν → Exec ν) (s : ν)
    (hb : env.delayedBranches = false) (hi : i.opcode ≠ some .syscall) (h : Machine) :
    ∃ u : Machine, (perform env slot s (dispatch env i m.readied)).run
      (m.readied.past h) = .ok (.next, s) (u.past h) ∧ deliver (u.goto (u.pc + 4)) = t := by
  obtain ⟨_, _, ⟨⟩, hrun⟩ := ok_of_bind (hr ν slot s)
  obtain ⟨_, _, ⟨⟩, hrun⟩ := ok_of_bind hrun
  obtain ⟨r, u, hu, hrun⟩ := ok_of_bind hrun
  cases hrun
  obtain ⟨u', hu', hp⟩ := (past_perform (h := h) hb slot s (asksHost_dispatch env _ hi)).ok hu
  cases hp.eq
  exact ⟨u, hu', rfl⟩

end

/-! Steps. -/

/-- No delay slots, no delayed loads, no devices to poll, no timer and no narration. -/
structure Undisturbed (env : Env) : Prop where
  branches : env.delayedBranches = false
  loads : env.delayedLoads = false
  devices : ¬ (¬ env.bareMachine ∧ env.mappedIO)
  silent : env.explainLevel = 0
  timer : ∀ n, env.host.timerExpired n = false

/-- The instruction that a word of text points to. -/
def Machine.instAtWord (m : Machine) (a : Word) : Option InstRef :=
  if m.inText a ∧ a &&& 3 = 0 then m.textSeg (Machine.textIndex a)
  else if m.inKText a ∧ a &&& 3 = 0 then m.kTextSeg (Machine.kTextIndex a)
  else none

/-- The instruction is in text, and its symbol, if it has one, is defined. -/
structure Machine.Holds (m : Machine) (a : Word) (i : Inst) : Prop where
  record : ∃ r, m.instAtWord a = some r ∧ m.insts r = i
  defined : ∀ l, i.expr.bind ImmExpr.symbol = some l → (m.labels l).addr ≠ 0

/-- The instruction at PC takes one state to the other, and it is no syscall. -/
def ExecutesAtPc (env : Env) (m t : Machine) : Prop :=
  ∃ i, m.Holds m.pc i ∧ i.opcode ≠ some .syscall ∧ InstRuns env i m t

/-- So many instructions, one after the other. -/
inductive Executed (env : Env) : ℕ → Machine → Machine → Prop
  | zero (m : Machine) : Executed env 0 m m
  | succ {n : ℕ} {m u t : Machine} (first : ExecutesAtPc env m u) (rest : Executed env n u t) :
    Executed env (n+1) m t

section

variable {env : Env} {m t : Machine} {i : Inst}

lemma memReadInst_run {tbl : AOpcodeTbl} {a : Word} {r : InstRef} (h : m.instAtWord a = some r) :
    (memReadInst tbl a).run m = .ok (some r) m := by
  unfold Machine.instAtWord at h
  rw [memReadInst, EStateM.run_bind, EStateM.run_get]
  dsimp only
  split at h
  · rename_i htext
    rw [if_pos htext, h]
    rfl
  · rename_i htext
    split at h
    · rename_i hkernel
      rw [if_neg htext, if_pos hkernel, h]
      rfl
    · cases h

lemma fetch_run (h : m.Holds m.pc i) :
    (fetch env).run m = .ok (some i) { m with exceptionOccurred := false } := by
  obtain ⟨⟨r, hr, rfl⟩, hdefined⟩ := h
  have hread : (memReadInst env.tbl m.pc).run { m with exceptionOccurred := false } =
      .ok (some r) { m with exceptionOccurred := false } := memReadInst_run hr
  rw [fetch, EStateM.run_bind, EStateM.run_modify]
  dsimp only
  rw [EStateM.run_bind, EStateM.run_get]
  dsimp only
  rw [EStateM.run_bind, hread]
  dsimp only
  rw [EStateM.run_bind, EStateM.run_get]
  dsimp only
  rw [if_neg (by decide)]
  cases hl : (m.insts r).expr.bind ImmExpr.symbol with
  | none => rfl
  | some l =>
    dsimp only
    rw [if_neg (hdefined l hl)]
    rfl

lemma finishStep_run (hq : Undisturbed env) (s : Narrator) (i : Inst) (u k : Machine) :
    (finishStep env false s i).run (u.past k) =
      .ok () ((deliver (u.goto (u.pc + 4))).past (logRaised ((u.goto (u.pc + 4)).past k))) := by
  have hlog : logRaised ((u.goto (u.pc + 4)).past k) =
      (u.goto (u.pc + 4)).past (logRaised ((u.goto (u.pc + 4)).past k)) := by
    unfold logRaised
    split <;> rfl
  have hsilent : explainAfter env s i = pure () := by
    rw [explainAfter, if_pos hq.silent]
  rw [finishStep, hsilent]
  change EStateM.Result.ok () (deliver (logRaised ((u.goto (u.pc + 4)).past k))) = _
  rw [hlog, Machine.past_deliver]
  rfl

/-- run_spim does nothing else between two instructions. -/
lemma step_executes (hq : Undisturbed env) (slot : Narrator → Exec Narrator) (s : Narrator)
    (h : ExecutesAtPc env m t) (k : Machine) :
    ∃ k', (step env false slot s).run (m.past k) = .ok (.next, s) (t.past k') := by
  obtain ⟨i, hi, hop, hr⟩ := h
  have hhead : (stepHead env).run (m.past k) =
      .ok () ((m.setGpr 0 0).past { k with hostCalls := k.hostCalls + 1 }) := by
    change (onlyIf (env.host.timerExpired k.hostCalls) (modify bumpCP0Timer : Exec Unit)).run
      ((m.setGpr 0 0).past { k with hostCalls := k.hostCalls + 1 }) = _
    rw [onlyIf_neg (by simp [hq.timer])]
    rfl
  have hfetch : (fetch env).run ((m.setGpr 0 0).past { k with hostCalls := k.hostCalls + 1 }) =
      .ok (some i) (m.readied.past { k with hostCalls := k.hostCalls + 1 }) :=
    fetch_run ⟨hi.record, hi.defined⟩
  generalize ({ k with hostCalls := k.hostCalls + 1 } : Machine) = k at hhead hfetch
  have hlog : logInst i (m.readied.past k) = m.readied.past (logInst i (m.readied.past k)) := rfl
  obtain ⟨u, hu, rfl⟩ := hr.switched slot s hq.branches hop (logInst i (m.readied.past k))
  have hexec : (execInst env slot s i).run (m.readied.past k) =
      .ok (.next, s) (u.past (logInst i (m.readied.past k))) := by
    have hnow : (m.readied.past k).doDelayedUpdate env = m.readied.past k := by
      rw [Machine.doDelayedUpdate, if_neg (by simp [hq.loads])]
    have hsilent : explainBefore env s i (m.readied.past k).pc = pure s := by
      rw [explainBefore, if_pos hq.silent]
    rw [execInst, EStateM.run_bind, EStateM.run_modify, hnow]
    dsimp only
    rw [EStateM.run_bind, EStateM.run_get]
    dsimp only
    rw [hsilent]
    change (perform env slot s (dispatch env i (logInst i (m.readied.past k)))).run
      (logInst i (m.readied.past k)) = _
    rw [hlog]
    exact hu
  generalize logInst i (m.readied.past k) = k' at hexec
  refine ⟨logRaised ((u.goto (u.pc + 4)).past k'), ?_⟩
  rw [step, run_bind_of_ok hhead, run_bind_of_ok hfetch]
  dsimp only
  rw [run_bind_of_ok hexec]
  dsimp only
  rw [run_bind_of_ok (finishStep_run hq s i u k')]
  rfl

/-! Loops. -/

lemma poll_run (hq : Undisturbed env) (hm : ¬ interruptPending m) : (poll env).run m = .ok () m := by
  rw [poll, onlyIf_neg hq.devices]
  change EStateM.Result.ok () (takeInterrupt m) = _
  rw [takeInterrupt, if_neg hm]

/-- The loops of run_spim, with the interrupts polled for at most once. -/
theorem runLoop_executes (hq : Undisturbed env) (slot : Narrator → Exec Narrator) (s : Narrator)
    {n : ℕ} (h : Executed env n m t) (k : ℕ) (hk : k = n ∨ k = 0 ∧ ¬ interruptPending m)
    (p : Machine) :
    ∃ p', (runLoop env false slot s k n).run (m.past p) = .ok (true, s) (t.past p') := by
  induction h generalizing k p with
  | zero m => exact ⟨p, rfl⟩
  | @succ n m u t first rest ih =>
    obtain ⟨p₁, hstep⟩ := step_executes hq slot s first p
    have hpoll : (onlyIf (k = 0) (poll env)).run (m.past p) = .ok () (m.past p) := by
      rcases hk with rfl | ⟨rfl, hm⟩
      · rw [onlyIf_neg (by omega)]
        rfl
      · rw [onlyIf_pos rfl]
        exact poll_run hq hm
    have hsize : (if k = 0 then stepSize env (n+1) else k) - 1 = n := by
      rw [stepSize, if_neg hq.devices]
      split <;> omega
    obtain ⟨p₂, hrest⟩ := ih n (Or.inl rfl) p₁
    refine ⟨p₂, ?_⟩
    rw [runLoop, run_bind_of_ok hpoll, run_bind_of_ok hstep]
    dsimp only
    rw [hsize]
    exact hrest

end

lemma quiet_undisturbed : Undisturbed .quiet := ⟨rfl, rfl, by decide, rfl, fun _ => rfl⟩

/-- `subu $9, $8, $8` -/
def subtracts : Machine := .ofText [makeRTypeInst .subu 9 8 8]

end Spimulator
