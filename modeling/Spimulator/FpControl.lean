import Spimulator.DelayedLoads
import Spimulator.Load

/-! The control registers of the floating-point unit: who writes them, and what they hold after each
instruction of a run. -/
namespace Spimulator
open Frame

/-! The switch. Besides ctc1, only comparisons write a control register. -/

/-- The case writes no control register. -/
def Action.KeepsFcr (m : Machine) : Action → Prop
  | .regs g | .branch g _ _ _ | .jump g _ => g.fcr = m.fcr
  | .ctc1 _ _ => False
  | _ => True

/-- The comparisons of singles. -/
def Opcode.comparesS : Opcode → Bool
  | .cFS | .cUnS | .cEqS | .cUeqS | .cOltS | .cOleS | .cUltS | .cUleS | .cSfS | .cNgleS | .cSeqS
  | .cNglS | .cLtS | .cNgeS | .cLeS | .cNgtS => true
  | _ => false

/-- The comparisons of doubles. -/
def Opcode.comparesD : Opcode → Bool
  | .cFD | .cUnD | .cEqD | .cUeqD | .cOltD | .cOleD | .cUltD | .cUleD | .cSfD | .cNgleD | .cSeqD
  | .cNglD | .cLtD | .cNgeD | .cLeD | .cNgtD => true
  | _ => false

section

variable (m : Machine) (i : Inst)

lemma keepsFcr_ite {a b : Action} {c : Prop} [Decidable c] (ha : a.KeepsFcr m)
    (hb : b.KeepsFcr m) : (if c then a else b).KeepsFcr m := by
  split
  · exact ha
  · exact hb

lemma keepsFcr_evenRegs (rs : List RegNo) {a : Action} (ha : a.KeepsFcr m) :
    (evenRegs rs a).KeepsFcr m := keepsFcr_ite m trivial ha

lemma keepsFcr_setFdD (v : BitVec 64) : (m.setFdD i v).KeepsFcr m := keepsFcr_evenRegs m _ rfl

lemma keepsFcr_unaryD (f : BitVec 64 → BitVec 64) : (m.unaryD i f).KeepsFcr m :=
  keepsFcr_evenRegs m _ (keepsFcr_setFdD m i _)

lemma keepsFcr_moveToCp0 : (m.moveToCp0 i).KeepsFcr m := by
  unfold Machine.moveToCp0
  dsimp only [Action.KeepsFcr]
  split <;> rfl

end

lemma dispatch_keepsFcr (env : Env) {i : Inst} (m : Machine)
    (hctc1 : i.opcode ≠ some .ctc1)
    (h : ∀ op, i.opcode = some op → op.comparesS = false ∧ op.comparesD = false) :
    (dispatch env i m).KeepsFcr m := by
  cases hop : i.opcode with
  | none =>
    simp only [dispatch, hop]
    trivial
  | some op =>
    obtain ⟨hs, hd⟩ := h op hop
    cases op
    case ctc1 => exact absurd hop hctc1
    all_goals simp only [dispatch, hop]
    all_goals first
      | exact trivial
      | exact (rfl : _ = m.fcr)
      | exact keepsFcr_ite m rfl trivial
      | exact keepsFcr_ite m trivial rfl
      | exact keepsFcr_ite m rfl rfl
      | exact keepsFcr_evenRegs m _ trivial
      | exact keepsFcr_evenRegs m _ rfl
      | exact keepsFcr_unaryD m i _
      | exact keepsFcr_evenRegs m _ (keepsFcr_setFdD m i _)
      | exact keepsFcr_ite m (keepsFcr_unaryD m i id) rfl
      | exact keepsFcr_moveToCp0 m i
      | exact absurd hs (by decide)
      | exact absurd hd (by decide)
      | exact keepsFcr_ite m trivial trivial

/-- A comparison sets its condition code, traps, or gives up. -/
lemma compareFp_eq (m : Machine) (i : Inst) (fpu : Fpu) (v1 v2 : BitVec 64) :
    m.compareFp i fpu v1 v2 = .raise .fpe ∨
      ∃ b, m.compareFp i fpu v1 v2 = .regs (m.toRegs.setFcc i.ccfp b) := by
  unfold Machine.compareFp
  split
  · split
    · exact Or.inl rfl
    · exact Or.inr ⟨_, rfl⟩
  · exact Or.inr ⟨_, rfl⟩

lemma dispatch_comparesS (env : Env) {i : Inst} (m : Machine) {op : Opcode}
    (hop : i.opcode = some op) (h : op.comparesS = true) :
    dispatch env i m = m.compareS i env.fpu := by
  cases op
  all_goals first
    | exact absurd h (by decide)
    | simp only [dispatch, hop]

lemma dispatch_comparesD (env : Env) {i : Inst} (m : Machine) {op : Opcode}
    (hop : i.opcode = some op) (h : op.comparesD = true) :
    dispatch env i m = m.compareD i env.fpu := by
  cases op
  all_goals first
    | exact absurd h (by decide)
    | simp only [dispatch, hop]

/-- No comparison branches. -/
lemma keepsFcr_of_transfer {env : Env} {i : Inst} {m : Machine} {g : Regs}
    (hg : (dispatch env i m).newRegs = some g) (h : dispatch env i m ≠ .regs g) :
    g.fcr = m.fcr := by
  by_cases hctc1 : i.opcode = some .ctc1
  · simp only [dispatch, hctc1] at hg
    cases hg
  by_cases hcmp : ∀ op, i.opcode = some op → op.comparesS = false ∧ op.comparesD = false
  · have hkeeps := dispatch_keepsFcr env m hctc1 hcmp
    cases ha : dispatch env i m with
    | regs g' | branch g' | jump g' =>
      rw [ha] at hg hkeeps
      cases hg
      exact hkeeps
    | _ =>
      rw [ha] at hg
      cases hg
  · exfalso
    have hcompare : ∀ v1 v2, (m.compareFp i env.fpu v1 v2).newRegs = some g →
        m.compareFp i env.fpu v1 v2 = .regs g := by
      intro v1 v2 hg
      rcases compareFp_eq m i env.fpu v1 v2 with he | ⟨b, he⟩
      · rw [he] at hg
        cases hg
      · rw [he] at hg ⊢
        cases hg
        rfl
    push Not at hcmp
    obtain ⟨op, hop, hcmp⟩ := hcmp
    cases hs : op.comparesS with
    | true =>
      rw [dispatch_comparesS env m hop hs] at hg h
      exact h (hcompare _ _ hg)
    | false =>
      have hd := dispatch_comparesD env m hop (by simpa using hcmp hs)
      rw [hd, Machine.compareD, evenRegs] at hg h
      split at hg
      · cases hg
      · rename_i heven
        rw [if_neg heven] at h
        exact h (hcompare _ _ hg)

/-! The control registers along the history. -/

/-- What an instruction makes of the control registers. -/
def Action.fcrAfter (f : RegNo → Word) : Action → RegNo → Word
  | .regs g | .branch g _ _ _ | .jump g _ => g.fcr
  | .ctc1 fs v => Function.update f fs v
  | _ => f

/-- The control registers after these instructions of a run that began with `f`. -/
def controlAfter (env : Env) (f : RegNo → Word) : List Visit → RegNo → Word
  | [] => f
  | v :: older => (v.action env).fcrAfter (controlAfter env f older)

/-- Every instruction finds what the older ones have made of the control registers. -/
def ControlHistory (env : Env) (f : RegNo → Word) : List Visit → Prop
  | [] => True
  | v :: older => v.state.fcr = controlAfter env f older ∧ ControlHistory env f older

lemma ControlHistory.finds {env : Env} {f : RegNo → Word} {newer older : List Visit} {v : Visit}
    (h : ControlHistory env f (newer ++ v :: older)) : v.state.fcr = controlAfter env f older := by
  induction newer with
  | nil => exact h.1
  | cons u newer ih => exact ih h.2

lemma ControlHistory.older {env : Env} {f : RegNo → Word} {newer older : List Visit} {v : Visit}
    (h : ControlHistory env f (newer ++ v :: older)) : ControlHistory env f older := by
  induction newer with
  | nil => exact h.2
  | cons u newer ih => exact ih h.2

/-- Between two instructions, the control registers agree with the history. -/
structure ControlInv (env : Env) (f : RegNo → Word) (m : Machine) : Prop where
  recorded : ControlHistory env f m.visits
  now : m.fcr = controlAfter env f m.visits

def keepsControl (env : Env) (f : RegNo → Word) : Rel Machine := Rel.stable (ControlInv env f)

/-- The history and the control registers stay as they are. -/
def sameFcr : Rel Machine := Rel.same fun m => (m.visits, m.fcr)

lemma sameFcr_raise (m : Machine) (e : ExcCode) : sameFcr.rel m (m.raiseException e) := by
  obtain ⟨c, b, f, h⟩ := m.raiseException_eq e
  rw [h]
  rfl

/-- The exception that ctc1 may raise comes after its write. -/
lemma sameFcr_ctc1 (m : Machine) (fs : RegNo) (v : Word) :
    sameFcr.rel (m.setFcr fs v) (m.ctc1 fs v) := by
  unfold Machine.ctc1
  dsimp only
  split
  · exact sameFcr_raise _ _
  · rfl

lemma deviceRel_sameFcr : DeviceRel sameFcr where
  device _ _ _ _ _ _ _ _ := rfl
  raiseInt _ _ := rfl
  clearInt _ _ := rfl
  host _ _ _ := rfl

lemma flatRel_sameFcr : FlatRel sameFcr where
  data _ _ _ _ _ := rfl
  alloc _ _ := rfl
  patch _ _ _ := rfl
  ioRead := deviceRel_sameFcr.ioRead
  ioWrite := deviceRel_sameFcr.ioWrite
  raise m e _ _ := sameFcr_raise m e
  serviceRegs m _ _ hf _ := congrArg (Prod.mk m.visits) hf
  host _ _ _ := rfl
  dataTop _ _ _ := rfl
  exception m e _ := sameFcr_raise m e
  exit _ := Keeps.modify fun _ => rfl

lemma lookRel_sameFcr : LookRel sameFcr where
  toAccessRel := flatRel_sameFcr.toAccessRel
  flag _ := rfl
  peek := flatRel_sameFcr.toAccessRel.peek (fun _ _ => rfl) fun _ _ => rfl
  text _ _ _ := rfl
  kText _ _ _ := rfl
  bkpts _ _ := rfl

section

variable {env : Env} {f : RegNo → Word} {m t : Machine}

lemma ControlInv.of_same (h : ControlInv env f m) (hs : sameFcr.rel m t) : ControlInv env f t := by
  obtain ⟨hv, hf⟩ : t.visits = m.visits ∧ t.fcr = m.fcr := Prod.mk.inj hs
  constructor
  · rw [hv]
    exact h.recorded
  · rw [hv, hf]
    exact h.now

lemma keepsControl_of_same (h : sameFcr.rel m t) : (keepsControl env f).rel m t :=
  fun hm => hm.of_same h

lemma keepsControl_of_keeps {α : Type} {x : Exec α} (hx : Keeps sameFcr x) :
    Keeps (keepsControl env f) x :=
  hx.mono (fun _ _ => keepsControl_of_same) id

lemma sameFcr_loadInst (m : Machine) (d : LoadDest) (v : Word) :
    sameFcr.rel m (m.loadInst env d v) := by
  unfold Machine.loadInst
  split
  · rfl
  · cases d with
    | gpr r => rfl
    | fpr r => rfl

lemma sameFcr_stepHead (env : Env) : Keeps sameFcr (stepHead env) := by
  refine Keeps.bind (Keeps.modify fun _ => rfl) fun _ => ?_
  refine Keeps.bind flatRel_sameFcr.toServiceRel.askHost fun n => ?_
  refine Keeps.onlyIf (Keeps.modify fun m => ?_)
  unfold bumpCP0Timer
  dsimp only
  split
  · rfl
  · rfl

/-- The switch, at an instruction that has just been recorded, unless it writes control registers. -/
lemma perform_keepsControl {slot : Narrator → Exec Narrator}
    (hs : ∀ s, Keeps (keepsControl env f) (slot s)) (s : Narrator) {v : Visit}
    (hc : m.toCore = v.state) (hregs : ∀ g, v.action env ≠ .regs g)
    (hctc1 : ∀ fs x, v.action env ≠ .ctc1 fs x) :
    KeepsFrom (keepsControl env f) (perform env slot s (v.action env)) m := by
  have hpc : ∀ (m : Machine) w, (keepsControl env f).rel m { m with pc := w } :=
    fun m w => keepsControl_of_same rfl
  have hf : ∀ {m t : Machine}, sameFcr.upTo m t → (keepsControl env f).upTo m t := fun h => h
  have hnew : ∀ g, (v.action env).newRegs = some g → (keepsControl env f).rel m (m.setRegs g) := by
    intro g hg
    have hfcr : g.fcr = v.state.fcr := keepsFcr_of_transfer hg (hregs g)
    refine keepsControl_of_same (Prod.ext rfl ?_)
    rw [← hc] at hfcr
    exact hfcr
  refine flatRel_sameFcr.perform hf hpc s _ m (fun t => keepsControl_of_same)
    (fun g hg _ => hnew g hg) (fun e => dispatch_raise) (fun fs x h => absurd h (hctc1 fs x)) ?_ ?_
  · intro hl
    exact keepsControl_of_keeps
      (flatRel_sameFcr.toAccessRel.perform_load sameFcr_loadInst s hl) m
  · intro g target hg _
    refine KeepsFrom.bind (KeepsFrom.modify (hnew g hg)) fun _ t _ => ?_
    exact keeps_jumpInst hpc (fun m b p => keepsControl_of_same rfl) hs s target t

/-- The switch leaves the control registers as the history says. -/
lemma perform_control {slot : Narrator → Exec Narrator}
    (hs : ∀ s, Keeps (keepsControl env f) (slot s)) (s : Narrator) {v : Visit} {older : List Visit}
    (hv : m.visits = v :: older) (hc : m.toCore = v.state) (hr : ControlHistory env f m.visits) :
    ControlInv env f (final ((perform env slot s (v.action env)).run m)) := by
  have hfound : v.state.fcr = controlAfter env f older := by
    rw [hv] at hr
    exact hr.1
  have hm : m.fcr = v.state.fcr := congrArg (fun c => c.fcr) hc
  have hinv : ∀ t : Machine, t.visits = m.visits → t.fcr = (v.action env).fcrAfter m.fcr →
      ControlInv env f t := by
    intro t ht hf
    refine ⟨ht ▸ hr, ?_⟩
    rw [hf, ht, hv, controlAfter, ← hfound, hm]
  by_cases hregs : ∃ g, v.action env = .regs g
  · obtain ⟨g, ha⟩ := hregs
    rw [ha] at hinv ⊢
    exact hinv (m.setRegs g) rfl rfl
  by_cases hctc1 : ∃ fs x, v.action env = .ctc1 fs x
  · obtain ⟨fs, x, ha⟩ := hctc1
    rw [ha] at hinv ⊢
    obtain ⟨hvis, hfcr⟩ := Prod.mk.inj (sameFcr_ctc1 m fs x)
    exact hinv (m.ctc1 fs x) hvis hfcr
  rw [not_exists] at hregs
  simp only [not_exists] at hctc1
  refine (perform_keepsControl hs s hc hregs hctc1).final (fun h => h) (hinv m rfl ?_)
  cases ha : v.action env with
  | regs g => exact absurd ha (hregs g)
  | ctc1 fs x => exact absurd ha (hctc1 fs x)
  | branch g | jump g =>
    have hg : (v.action env).newRegs = some g := by rw [ha]; rfl
    exact hm.trans (keepsFcr_of_transfer hg (hregs g)).symm
  | _ => rfl

/-- The instruction is recorded, and the switch entered. -/
lemma keepsControl_visit {slot : Narrator → Exec Narrator}
    (hs : ∀ s, Keeps (keepsControl env f) (slot s)) (s : Narrator) (i : Inst) :
    Keeps (keepsControl env f) (do
      modify (logInst i)
      let r ← atSwitch env slot s i
      pure (some (i, r))) := by
  intro m
  have hrun : (modify (logInst i) >>= fun _ => atSwitch env slot s i : Exec _).run m =
      (perform env slot s (Visit.action env ⟨i, m.toCore⟩)).run (logInst i m) :=
    atSwitch_run env slot s i (logInst i m)
  have hvisit : KeepsFrom (keepsControl env f)
      (modify (logInst i) >>= fun _ => atSwitch env slot s i) m := by
    have hinv : ControlInv env f m → ControlInv env f (final ((perform env slot s
        (Visit.action env ⟨i, m.toCore⟩)).run (logInst i m))) :=
      fun hm => perform_control (v := ⟨i, m.toCore⟩) hs s rfl rfl ⟨hm.now, hm.recorded⟩
    rw [KeepsFrom, hrun]
    cases hp : (perform env slot s (Visit.action env ⟨i, m.toCore⟩)).run (logInst i m) with
    | ok r t =>
      rw [hp] at hinv
      exact hinv
    | error e t =>
      rw [hp] at hinv
      exact ⟨t, hinv, rfl⟩
  rw [← bind_assoc]
  exact KeepsFrom.bind hvisit fun r t _ => KeepsFrom.pure _

lemma keepsControl_execute {slot : Narrator → Exec Narrator}
    (hs : ∀ s, Keeps (keepsControl env f) (slot s)) (s : Narrator) :
    Keeps (keepsControl env f) (execute env slot s) := by
  rw [execute_eq]
  refine Keeps.bind (keepsControl_of_keeps (sameFcr_stepHead env)) fun _ => ?_
  refine Keeps.bind (keepsControl_of_keeps (lookRel_sameFcr.fetch env)) fun r => ?_
  cases r with
  | none => exact Keeps.bind (Keeps.modify fun m => keepsControl_of_same rfl) fun _ => Keeps.pure _
  | some i =>
    refine Keeps.bind (Keeps.modify fun m => keepsControl_of_same ?_) fun _ => ?_
    · obtain ⟨g, r, d, d', h⟩ := doDelayedUpdate_eq env m
      rw [h]
      rfl
    refine Keeps.get_bind fun m => ?_
    refine Keeps.bind (keepsControl_of_keeps (lookRel_sameFcr.explainBefore env s i _)) (fun s => ?_) m
    exact keepsControl_visit hs s i

end

lemma loopRel_keepsControl (env : Env) (f : RegNo → Word) : LoopRel env (keepsControl env f) where
  data _ _ _ _ _ := keepsControl_of_same rfl
  alloc _ _ := keepsControl_of_same rfl
  patch _ _ _ := keepsControl_of_same rfl
  ioRead addr := keepsControl_of_keeps (lookRel_sameFcr.ioRead addr)
  ioWrite addr value := keepsControl_of_keeps (lookRel_sameFcr.ioWrite addr value)
  raise m e a he := keepsControl_of_same (lookRel_sameFcr.raise m e a he)
  flag _ := keepsControl_of_same rfl
  peek w addr := keepsControl_of_keeps (lookRel_sameFcr.peek w addr)
  text _ _ _ := keepsControl_of_same rfl
  kText _ _ _ := keepsControl_of_same rfl
  bkpts _ _ := keepsControl_of_same rfl
  execute _ _ hs := keepsControl_execute hs
  pc _ _ := keepsControl_of_same rfl
  raised m := by
    unfold logRaised
    split
    · exact keepsControl_of_same rfl
    · exact (keepsControl env f).refl m
  devices h := keepsControl_of_keeps (deviceRel_sameFcr.check h)
  take m := by
    unfold takeInterrupt
    split
    · exact keepsControl_of_same (sameFcr.trans rfl (sameFcr_raise _ _))
    · exact (keepsControl env f).refl m
  place _ _ _ := keepsControl_of_same rfl

/-- Every instruction of a run finds the control registers as the older ones have left them, and so
does what comes after the run. -/
theorem runProgram_control (env : Env) (display : Bool) (depth : ℕ) (pc : Word) (steps : ℕ)
    (contBkpt : Bool) (s : Narrator) (c : Core) : ControlInv env c.fcr
      (final ((runProgram env display depth pc steps contBkpt s).run c.start)) := by
  have hexl : ∀ m : Machine,
      (keepsControl env c.fcr).rel m (m.setCp0 12 (m.status &&& ~~~statusEXL)) :=
    fun _ => keepsControl_of_same rfl
  have hkeep := (loopRel_keepsControl env c.fcr).runProgram hexl display depth pc steps contBkpt s
  exact (hkeep c.start).final (fun h => h) ⟨trivial, rfl⟩

/-! FIR and the bits of FCSR that are not implemented. -/

/-- FIR as initialize_registers leaves it: words, doubles and singles are implemented. -/
def firInitial : Word := 0x00008000 ||| 0x00001000 ||| 0x00000800

/-- FIR is as it was at first, and FCSR has no other bits than those implemented. -/
def ControlKept (f : RegNo → Word) : Prop := f 0 = firInitial ∧ f 31 &&& ~~~fcsrMask = 0

lemma controlKept_initializeRegisters (m : Machine) : ControlKept m.initializeRegisters.fcr := by
  have hfcsr : m.initializeRegisters.fcr 31 = 0 :=
    Function.update_self (31 : RegNo) _ (Function.update m.fcr 0 0x00009800)
  refine ⟨rfl, ?_⟩
  rw [hfcsr]
  exact BitVec.zero_and

/-- A ctc1 writes nothing new to FIR, and to FCSR implemented bits only. -/
def Visit.WritesSupported (v : Visit) : Prop :=
  v.inst.opcode = some .ctc1 →
    (v.inst.fs = 0 → v.state.gpr v.inst.rt = firInitial) ∧
    (v.inst.fs = 31 → v.state.gpr v.inst.rt &&& ~~~fcsrMask = 0)

lemma ccMask_supported (n : Byte) : ccMask n &&& ~~~fcsrMask = 0 := by
  revert n
  decide +kernel

/-- A condition code is one of the implemented bits. -/
lemma controlKept_setFcc {g : Regs} (h : ControlKept g.fcr) (n : Byte) (b : Bool) :
    ControlKept (g.setFcc n b).fcr := by
  refine ⟨h.1, ?_⟩
  have hnew : (g.setFcc n b).fcr 31 =
      if b then g.fcr 31 ||| ccMask n else g.fcr 31 &&& ~~~(ccMask n) :=
    Function.update_self (31 : RegNo) _ g.fcr
  rw [hnew]
  cases b with
  | true =>
    rw [if_pos rfl, BitVec.and_comm, BitVec.and_or_distrib_left, BitVec.and_comm, h.2,
      BitVec.and_comm, ccMask_supported]
    rfl
  | false =>
    rw [if_neg (by decide), BitVec.and_assoc, BitVec.and_comm (~~~ccMask n), ← BitVec.and_assoc,
      h.2]
    exact BitVec.zero_and

/-- A write of one control register. -/
lemma controlKept_update {f : RegNo → Word} (h : ControlKept f) (fs : RegNo) (x : Word) :
    ControlKept (Function.update f fs x) ↔
      (fs = 0 → x = firInitial) ∧ (fs = 31 → x &&& ~~~fcsrMask = 0) := by
  refine and_congr ?_ ?_
  · by_cases hfs : fs = 0
    · subst hfs
      rw [Function.update_self]
      simp
    · rw [Function.update_of_ne (fun h => hfs h.symm)]
      exact iff_of_true h.1 fun h => absurd h hfs
  · by_cases hfs : fs = 31
    · subst hfs
      rw [Function.update_self]
      simp
    · rw [Function.update_of_ne (fun h => hfs h.symm)]
      exact iff_of_true h.2 fun h => absurd h hfs

section

variable {env : Env} {f : RegNo → Word} {v : Visit}

lemma compareFp_control (h : ControlKept v.state.fcr) (v1 v2 : BitVec 64) :
    ControlKept ((v.state.start.compareFp v.inst env.fpu v1 v2).fcrAfter v.state.fcr) := by
  rcases compareFp_eq v.state.start v.inst env.fpu v1 v2 with he | ⟨b, he⟩
  · rw [he]
    exact h
  · rw [he]
    exact controlKept_setFcc h _ b

/-- An instruction keeps FIR and FCSR right just when it is no ctc1 that does not. -/
lemma controlKept_fcrAfter (hf : v.state.fcr = f) (h : ControlKept f) :
    ControlKept ((v.action env).fcrAfter f) ↔ v.WritesSupported := by
  subst hf
  by_cases hctc1 : v.inst.opcode = some .ctc1
  · have ha : v.action env = .ctc1 v.inst.fs (v.state.gpr v.inst.rt) := by
      simp only [Visit.action, dispatch, hctc1]
      rfl
    rw [ha]
    refine (controlKept_update h _ _).trans ?_
    rw [Visit.WritesSupported, forall_prop_of_true hctc1]
  refine iff_of_true ?_ fun h => absurd h hctc1
  by_cases hcmp : ∀ op, v.inst.opcode = some op → op.comparesS = false ∧ op.comparesD = false
  · have hkeeps := dispatch_keepsFcr env v.state.start hctc1 hcmp
    change (v.action env).KeepsFcr v.state.start at hkeeps
    cases ha : v.action env with
    | regs g | branch g | jump g =>
      rw [ha] at hkeeps
      have hg : g.fcr = v.state.fcr := hkeeps
      exact hg ▸ h
    | ctc1 fs x =>
      rw [ha] at hkeeps
      exact hkeeps.elim
    | _ => exact h
  · push Not at hcmp
    obtain ⟨op, hop, hcmp⟩ := hcmp
    cases hs : op.comparesS with
    | true =>
      have ha : v.action env = _ := dispatch_comparesS env v.state.start hop hs
      rw [ha]
      exact compareFp_control h _ _
    | false =>
      have ha : v.action env = _ :=
        dispatch_comparesD env v.state.start hop (by simpa using hcmp hs)
      rw [ha, Machine.compareD, evenRegs]
      split
      · exact h
      · exact compareFp_control h _ _

/-- The same for all instructions of a history. -/
lemma ControlHistory.kept_iff {vs : List Visit} (h : ControlHistory env f vs) (hf : ControlKept f) :
    (∀ v ∈ vs, ControlKept v.state.fcr) ∧ ControlKept (controlAfter env f vs) ↔
      ∀ v ∈ vs, v.WritesSupported := by
  induction vs with
  | nil => simp [controlAfter, hf]
  | cons v older ih =>
    obtain ⟨hv, hold⟩ := h
    rw [List.forall_mem_cons, List.forall_mem_cons, ← ih hold]
    constructor
    · rintro ⟨⟨hfound, hkept⟩, hafter⟩
      exact ⟨(controlKept_fcrAfter hv (hv ▸ hfound)).mp hafter, hkept, hv ▸ hfound⟩
    · rintro ⟨hwrite, hkept, hafter⟩
      exact ⟨⟨hv ▸ hafter, hkept⟩, (controlKept_fcrAfter hv hafter).mpr hwrite⟩

end

/-- In a run that begins with FIR and FCSR as they are initialized, FIR stays as it was and FCSR
keeps to its implemented bits, at every instruction and at the end, just when no ctc1 writes
anything else to them. -/
theorem fp_control_kept_iff (env : Env) (display : Bool) (depth : ℕ) (pc : Word) (steps : ℕ)
    (contBkpt : Bool) (s : Narrator) (m : Machine) (c : Core) (hc : c.fcr = m.initializeRegisters.fcr) :
    let t := final ((runProgram env display depth pc steps contBkpt s).run c.start)
    ((∀ v ∈ t.visits, ControlKept v.state.fcr) ∧ ControlKept t.fcr) ↔
      ∀ v ∈ t.visits, v.WritesSupported := by
  intro t
  have hinv : ControlInv env c.fcr t := runProgram_control env display depth pc steps contBkpt s c
  have hkept : ControlKept c.fcr := hc ▸ controlKept_initializeRegisters m
  rw [← hinv.recorded.kept_iff hkept, hinv.now]

/-- `ctc1 $8, $0` and `ctc1 $9, $31`, with 1 in the registers. -/
def writesControl : Core :=
  { Machine.ofText [makeRCoTypeInst .ctc1 0 0 8, makeRCoTypeInst .ctc1 0 31 9] with
    gpr := fun _ => 1
    fcr := (({} : Machine).initializeRegisters).fcr }

/-- The first instruction changes the implementation register; the second raises an exception and
leaves a bit in FCSR that is not implemented. -/
theorem fp_control_written :
    (final ((runProgram Env.quiet false 1 0x400000 2 false {}).run writesControl.start)).fcr 0 = 1 ∧
    (final ((runProgram Env.quiet false 1 0x400000 2 false {}).run writesControl.start)).fcr 31 &&&
      ~~~fcsrMask = 1 := by
  exact ⟨by decide +kernel, by decide +kernel⟩

/-- The same program, up to the first of its instructions. -/
theorem fp_control_kept_first :
    let t := final ((runProgram Env.quiet false 1 0x400000 1 false {}).run writesControl.start)
    ((∀ v ∈ t.visits, ControlKept v.state.fcr) ∧ ControlKept t.fcr) ↔
      ∀ v ∈ t.visits, v.WritesSupported :=
  fp_control_kept_iff Env.quiet false 1 0x400000 1 false {} {} writesControl rfl

end Spimulator
