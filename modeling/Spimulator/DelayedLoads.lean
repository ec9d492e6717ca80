import Mathlib.Data.List.Basic
import Spimulator.MemoryAgree
import Spimulator.RunRel

/-! Delayed loads: the pending loads, followed from one executed instruction to the next. -/
namespace Spimulator
open Frame

/-! What a load instruction does to the registers and to the queue. -/

def Regs.dest (g : Regs) : LoadDest → Word
  | .gpr r => g.gpr r
  | .fpr r => g.fpr r

/-- The registers that a case of the switch loads. -/
def Action.dests : Action → List LoadDest
  | .load _ _ _ d => [d]
  | .loadPart _ _ rt => [.gpr rt]
  | .loadDouble _ ft => [.fpr ft, .fpr (ft+1)]
  | _ => []

/-- The first register of a double, which the second takes the place of in the queue. -/
def Action.Displaced : Action → LoadDest → Prop
  | .loadDouble _ ft, d => d = .fpr ft
  | _, _ => False

instance (a : Action) (d : LoadDest) : Decidable (a.Displaced d) :=
  match a with
  | .loadDouble _ ft => inferInstanceAs (Decidable (d = .fpr ft))
  | .regs .. | .raise .. | .ctc1 .. | .load .. | .loadPart .. | .store .. | .storePart ..
  | .storeDouble .. | .branch .. | .jump .. | .debugBreak | .syscall | .halt .. =>
    inferInstanceAs (Decidable False)

def Env.atOnce (env : Env) : Env := { env with delayedLoads := false }

/-- A case of the switch without delayed loads and without the delay slot of a jump. -/
def performAtOnce (env : Env) (a : Action) : Exec (Flow × Unit) := perform env.atOnce pure () a

/-- What a load leaves in the queue: a register that it loads, with the value that the load would
give it at once. -/
def Queues (env : Env) (a : Action) (m : Machine) (q : Option (LoadDest × Word)) : Prop :=
  ∀ d ∈ a.dests, ¬ a.Displaced d → ∀ r t, (performAtOnce env a).run m = .ok r t →
    q = some (d, t.dest d)

lemma Machine.dest_setDest (m : Machine) (d : LoadDest) (v : Word) : (m.setDest d v).dest d = v := by
  cases d with
  | gpr r => exact Function.update_self r v m.gpr
  | fpr r => exact Function.update_self r v m.fpr

/-- The part of the machine that delayed loads are about. -/
def Machine.loads (m : Machine) := (m.visits, m.gpr, m.fpr, m.delayedLoad1, m.delayedLoad2)

def sameLoads : Rel Machine := Rel.same Machine.loads

lemma loads_raise (m : Machine) (e : ExcCode) : (m.raiseException e).loads = m.loads := by
  obtain ⟨c, b, f, h⟩ := m.raiseException_eq e
  rw [h]
  rfl

lemma deviceRel_sameLoads : DeviceRel sameLoads where
  device _ _ _ _ _ _ _ _ := rfl
  raiseInt _ _ := rfl
  clearInt _ _ := rfl
  host _ _ _ := rfl

lemma accessRel_sameLoads : AccessRel sameLoads where
  data _ _ _ _ _ := rfl
  alloc _ _ := rfl
  patch _ _ _ := rfl
  ioRead := deviceRel_sameLoads.ioRead
  ioWrite := deviceRel_sameLoads.ioWrite
  raise m e _ _ := loads_raise m e

lemma lookRel_sameLoads : LookRel sameLoads where
  toAccessRel := accessRel_sameLoads
  flag _ := rfl
  peek := accessRel_sameLoads.peek (fun _ _ => rfl) fun _ _ => rfl
  text _ _ _ := rfl
  kText _ _ _ := rfl
  bkpts _ _ := rfl

lemma sameLoads_iff {m t : Machine} : sameLoads.rel m t ↔ t.visits = m.visits ∧ t.gpr = m.gpr ∧
    t.fpr = m.fpr ∧ t.delayedLoad1 = m.delayedLoad1 ∧ t.delayedLoad2 = m.delayedLoad2 := by
  simp only [sameLoads, Rel.same, Machine.loads, Prod.mk.injEq]

/-- A delayed load changes no register but leaves its results in the queue. -/
structure Loaded (env : Env) (a : Action) (m t : Machine) : Prop where
  visits : t.visits = m.visits
  gpr : t.gpr = m.gpr
  fpr : t.fpr = m.fpr
  pending : t.delayedLoad2 = m.delayedLoad2
  queues : Queues env a m.toCore.start t.delayedLoad1

lemma sameForReads_start (m : Machine) : SameForReads m m.toCore.start :=
  ⟨m.toCore.start, rfl⟩

section

variable {env : Env} (hd : env.delayedLoads = true) {m : Machine}

include hd

lemma loadInst_delayed (t : Machine) (d : LoadDest) (v : Word) :
    t.loadInst env d v = { t with delayedLoad1 := some (d, v) } := if_pos hd

omit hd in
lemma loadInst_atOnce (t : Machine) (d : LoadDest) (v : Word) :
    t.loadInst env.atOnce d v = t.setDest d v := if_neg (by simp [Env.atOnce])

/-- The read of one element, and the load of what it returns. -/
lemma loaded_read {a : Action} {d : LoadDest} {w : Width} {addr : Word}
    {f : Word → Machine → Word} (hf : ∀ v t u, SameForReads t u → f v t = f v u)
    (hdests : a.dests = [d])
    (hrun : performAtOnce env a = memRead w addr >>= fun v => do
      modify fun t => t.loadInst env.atOnce d (f v t)
      pure (.next, ())) {r : Flow × Narrator} {t : Machine} (s : Narrator)
    (h : (memRead w addr >>= fun v => do
      modify fun t => t.loadInst env d (f v t)
      pure (.next, s) : Exec _).run m = .ok r t) : Loaded env a m t := by
  obtain ⟨v, u, hu, h⟩ := ok_of_bind h
  cases h
  obtain ⟨hv, hg, hp, h1, h2⟩ := sameLoads_iff.mp ((accessRel_sameLoads.memRead w addr).ok hu)
  dsimp only
  rw [loadInst_delayed hd]
  refine ⟨hv, hg, hp, h2, fun d' hd' _ r t ht => ?_⟩
  rw [hdests] at hd'
  cases List.mem_singleton.mp hd'
  obtain ⟨u', hu', hsame⟩ := (agree_memRead (sameForReads_start m) w addr).ok hu
  rw [hrun] at ht
  obtain ⟨v', t₁, h₁, ht⟩ := ok_of_bind ht
  rw [hu'] at h₁
  cases h₁
  cases ht
  change some (d, f v u) = some (d, (u'.loadInst env.atOnce d (f v u')).dest d)
  rw [loadInst_atOnce, Machine.dest_setDest, hf v u u' hsame]

omit hd in
/-- The first half of a double, and the read of the second. -/
def firstHalf (env : Env) (addr : Word) (ft : RegNo) : Exec Word := do
  onlyIf (addr &&& 3 ≠ 0) (modify fun m => m.raiseAddr .adEL addr)
  let v ← memReadWord addr
  modify (Machine.loadInst env (.fpr ft) v)
  memReadWord (addr + 4)

omit hd in
lemma loadDouble_eq (env : Env) (addr : Word) (ft : RegNo) : loadDouble env addr ft =
    firstHalf env addr ft >>= fun v => modify (Machine.loadInst env (.fpr (ft+1)) v) := by
  simp only [loadDouble, firstHalf, bind_assoc]

lemma agree_firstHalf (addr : Word) (ft : RegNo) : Agree SameForReads
    (firstHalf env addr ft) (firstHalf env.atOnce addr ft) m m.toCore.start := by
  refine Agree.bind (Agree.onlyIf Iff.rfl (sameForReads_start m) fun _ => ?_) fun _ t u _ h => ?_
  · exact agree_raising m m.toCore.start _ addr
  refine Agree.bind (agree_memRead h _ addr) fun v t u _ h => ?_
  refine Agree.bind (Agree.modify ?_) fun _ t u _ h => agree_memRead h _ _
  obtain ⟨h, rfl⟩ := h
  rw [loadInst_delayed hd, loadInst_atOnce]
  exact ⟨(t.onto h).setDest (.fpr ft) v, rfl⟩

lemma sameLoads_firstHalf {addr v : Word} {ft : RegNo} {t : Machine}
    (h : (firstHalf env addr ft).run m = .ok v t) : t.visits = m.visits ∧ t.gpr = m.gpr ∧
      t.fpr = m.fpr ∧ t.delayedLoad2 = m.delayedLoad2 := by
  have hR := accessRel_sameLoads
  obtain ⟨_, m₁, h₁, h⟩ := ok_of_bind h
  obtain ⟨v₁, m₂, h₂, h⟩ := ok_of_bind h
  obtain ⟨_, _, ⟨⟩, h⟩ := ok_of_bind h
  rw [loadInst_delayed hd] at h
  have hraise := sameLoads_iff.mp ((Keeps.onlyIf (hR.raising _ (by decide) _)).ok h₁)
  have hfirst := sameLoads_iff.mp ((hR.memRead _ _).ok h₂)
  have hsecond := sameLoads_iff.mp ((hR.memRead _ _).ok h)
  refine ⟨hsecond.1.trans (hfirst.1.trans hraise.1), ?_, ?_, ?_⟩
  · exact hsecond.2.1.trans (hfirst.2.1.trans hraise.2.1)
  · exact hsecond.2.2.1.trans (hfirst.2.2.1.trans hraise.2.2.1)
  · exact hsecond.2.2.2.2.trans (hfirst.2.2.2.2.trans hraise.2.2.2.2)

lemma loaded_double {addr : Word} {ft : RegNo} {r : Unit} {t : Machine}
    (h : (loadDouble env addr ft).run m = .ok r t) : Loaded env (.loadDouble addr ft) m t := by
  rw [loadDouble_eq] at h
  obtain ⟨v, u, hu, h⟩ := ok_of_bind h
  cases h
  obtain ⟨hv, hg, hp, h2⟩ := sameLoads_firstHalf hd hu
  rw [loadInst_delayed hd]
  refine ⟨hv, hg, hp, h2, fun d hmem hd' r t ht => ?_⟩
  have hlast : d = .fpr (ft+1) := by
    rcases List.mem_cons.mp hmem with h | h
    · exact absurd h hd'
    · exact List.mem_singleton.mp h
  obtain ⟨u', hu', -⟩ := (agree_firstHalf hd addr ft).ok hu
  obtain ⟨_, t₁, h₁, ht⟩ := ok_of_bind ht
  rw [loadDouble_eq] at h₁
  obtain ⟨v', t₂, h₂, h₁⟩ := ok_of_bind h₁
  rw [hu'] at h₂
  cases h₂
  cases h₁
  cases ht
  rw [hlast]
  change some (LoadDest.fpr (ft+1), v) =
    some (.fpr (ft+1), (u'.loadInst env.atOnce (.fpr (ft+1)) v).dest (.fpr (ft+1)))
  rw [loadInst_atOnce, Machine.dest_setDest]

omit hd in
lemma perform_loadPart {ν : Type} (env : Env) (slot : ν → Exec ν) (s : ν) (addr : Word)
    (merge : Word → Word) (rt : RegNo) : perform env slot s (.loadPart addr merge rt) = (do
      let v ← memRead .word (addr &&& 0xfffffffc)
      modify fun t => t.loadInst env (.gpr rt) (if t.exceptionOccurred then v else merge v)
      pure (.next, s)) := bind_assoc _ _ _

/-- Every load, when it does not fail. -/
lemma loaded_perform {slot : Narrator → Exec Narrator} {s : Narrator} {a : Action}
    (ha : a.IsLoad) {r : Flow × Narrator} {t : Machine}
    (h : (perform env slot s a).run m = .ok r t) : Loaded env a m t := by
  cases a with
  | load w addr mask d =>
    exact loaded_read hd (f := fun v _ => v &&& mask) (fun _ _ _ _ => rfl) rfl rfl s h
  | loadPart addr merge rt =>
    rw [perform_loadPart] at h
    refine loaded_read hd (f := fun v t => if t.exceptionOccurred then v else merge v) ?_ rfl
      (perform_loadPart env.atOnce _ () addr merge rt) s h
    rintro v t _ ⟨h, rfl⟩
    rfl
  | loadDouble addr ft =>
    obtain ⟨_, u, hu, h⟩ := ok_of_bind h
    cases h
    exact loaded_double hd hu
  | _ => exact ha.elim

end

/-! What each instruction finds. -/

/-- The load that was pending when the newest of these instructions executed. -/
def pendingAfter (c : Core) : List Visit → Option (LoadDest × Word)
  | [] => c.delayedLoad2
  | v :: _ => v.state.delayedLoad2

/-- The load that arrives as the instruction after these executes. -/
def arriving (env : Env) (c : Core) (older : List Visit) : Option (LoadDest × Word) :=
  if env.delayedLoads then pendingAfter c older else none

namespace Visit

variable (env : Env) (u v : Visit)

def action : Action := dispatch env v.inst v.state.start

/-- The machine at the next instruction, if this one were to change no register: $0 is cleared
and the pending load arrives. -/
def landed : Machine := (v.state.start.setGpr 0 0).doDelayedUpdate env

/-- What an instruction finds of the one before it: its loads are pending and have changed
no register. -/
structure Follows : Prop where
  pending : Queues env (u.action env) u.state.start v.state.delayedLoad2
  kept : (u.action env).IsLoad → v.state.gpr = (u.landed env).gpr ∧ v.state.fpr = (u.landed env).fpr

end Visit

/-- What an instruction finds after the older ones of a run that began at `c`. -/
structure Finds (env : Env) (c : Core) (older : List Visit) (v : Visit) : Prop where
  arrived : ∀ d x, arriving env c older = some (d, x) → v.state.dest d = x
  zero : (∀ x, arriving env c older ≠ some (.gpr 0, x)) → v.state.gpr 0 = 0
  follows : env.delayedLoads = true → ∀ u ∈ older.head?, u.Follows env v

/-- What every instruction of a history finds. -/
def LoadHistory (env : Env) (c : Core) : List Visit → Prop
  | [] => True
  | v :: older => Finds env c older v ∧ LoadHistory env c older

lemma LoadHistory.finds {env : Env} {c : Core} {newer older : List Visit} {v : Visit}
    (h : LoadHistory env c (newer ++ v :: older)) : Finds env c older v := by
  induction newer with
  | nil => exact h.1
  | cons u newer ih => exact ih h.2

/-- Between two instructions, the machine agrees with its history on the loads. -/
structure LoadInv (env : Env) (c : Core) (m : Machine) : Prop where
  recorded : LoadHistory env c m.visits
  pending : m.delayedLoad2 = pendingAfter c m.visits
  queued : env.delayedLoads = true → ∀ u ∈ m.visits.head?,
    Queues env (u.action env) u.state.start m.delayedLoad1
  kept : env.delayedLoads = true → ∀ u ∈ m.visits.head?, (u.action env).IsLoad →
    (∀ r ≠ 0, m.gpr r = u.state.gpr r) ∧ m.fpr = u.state.fpr

/-- Every run keeps the agreement; one that fails may do so on its way to an instruction. -/
def keepsLoads (env : Env) (c : Core) : Rel Machine where
  rel m t := LoadInv env c m → LoadInv env c t
  refl _ := id
  trans h h' := h' ∘ h
  upTo m t := t.visits = m.visits
  upTo_refl _ := rfl

section

variable {env : Env} {c : Core} {m t : Machine}

lemma LoadInv.of_same (h : LoadInv env c m) (hs : sameLoads.rel m t) : LoadInv env c t := by
  obtain ⟨hv, hg, hf, h1, h2⟩ := sameLoads_iff.mp hs
  constructor
  · rw [hv]
    exact h.recorded
  · rw [hv, h2]
    exact h.pending
  · rw [hv, h1]
    exact h.queued
  · rw [hv, hg, hf]
    exact h.kept

lemma LoadInv.zeroed (h : LoadInv env c m) : LoadInv env c (m.setGpr 0 0) where
  recorded := h.recorded
  pending := h.pending
  queued := h.queued
  kept hd u hu hl := by
    obtain ⟨hg, hf⟩ := h.kept hd u hu hl
    refine ⟨fun r hr => ?_, hf⟩
    exact (Function.update_of_ne hr _ _).trans (hg r hr)

lemma keepsLoads_of_same (h : sameLoads.rel m t) : (keepsLoads env c).rel m t :=
  fun hm => hm.of_same h

lemma keepsLoads_of_keeps {α : Type} {x : Exec α} (hx : Keeps sameLoads x) :
    Keeps (keepsLoads env c) x :=
  hx.mono (fun _ _ => keepsLoads_of_same) fun h => congrArg (fun m : Machine => m.visits) h.symm

/-! The arrival of a load. -/

lemma arriving_eq (h : LoadInv env c m) :
    arriving env c m.visits = if env.delayedLoads then m.delayedLoad2 else none := by
  rw [arriving, h.pending]

lemma doDelayedUpdate_off (hd : env.delayedLoads = false) : m.doDelayedUpdate env = m :=
  if_neg (by simp [hd])

/-- The queue moves on, and what was pending is in its register. -/
lemma doDelayedUpdate_on (hd : env.delayedLoads = true) (m : Machine) : m.doDelayedUpdate env =
    { (m.delayedLoad2.elim m fun p => m.setDest p.1 p.2) with
      delayedLoad2 := m.delayedLoad1, delayedLoad1 := none } := by
  unfold Machine.doDelayedUpdate
  rw [if_pos hd]
  obtain h | ⟨⟨d, x⟩, h⟩ := Option.eq_none_or_eq_some m.delayedLoad2
  · rw [h]
    rfl
  · rw [h]
    cases d with
    | gpr r => rfl
    | fpr r => rfl

lemma dest_doDelayedUpdate (hd : env.delayedLoads = true) {d : LoadDest} {x : Word}
    (h : m.delayedLoad2 = some (d, x)) : (m.doDelayedUpdate env).dest d = x := by
  rw [doDelayedUpdate_on hd, h]
  exact m.dest_setDest d x

/-- The new registers follow from the old ones and what is pending. -/
lemma regs_doDelayedUpdate (env : Env) (hg : t.gpr = m.gpr) (hf : t.fpr = m.fpr)
    (h2 : t.delayedLoad2 = m.delayedLoad2) :
    (t.doDelayedUpdate env).gpr = (m.doDelayedUpdate env).gpr ∧
      (t.doDelayedUpdate env).fpr = (m.doDelayedUpdate env).fpr := by
  cases hd : env.delayedLoads with
  | false =>
    rw [doDelayedUpdate_off hd, doDelayedUpdate_off hd]
    exact ⟨hg, hf⟩
  | true =>
    rw [doDelayedUpdate_on hd, doDelayedUpdate_on hd, h2]
    cases m.delayedLoad2 with
    | none => exact ⟨hg, hf⟩
    | some p =>
      obtain ⟨d, x⟩ := p
      cases d with
      | gpr r => exact ⟨congrArg (fun g : RegNo → Word => Function.update g r x) hg, hf⟩
      | fpr r => exact ⟨hg, congrArg (fun f : RegNo → Word => Function.update f r x) hf⟩

/-- $0 stays clear unless the load that arrives is one to it. -/
lemma zero_doDelayedUpdate (hz : m.gpr 0 = 0)
    (h : env.delayedLoads = true → ∀ x, m.delayedLoad2 ≠ some (.gpr 0, x)) :
    (m.doDelayedUpdate env).gpr 0 = 0 := by
  cases hd : env.delayedLoads with
  | false =>
    rw [doDelayedUpdate_off hd]
    exact hz
  | true =>
    have hne := h hd
    rw [doDelayedUpdate_on hd]
    obtain h2 | ⟨⟨d, x⟩, h2⟩ := Option.eq_none_or_eq_some m.delayedLoad2
    · rw [h2]
      exact hz
    · rw [h2]
      cases d with
      | fpr r => exact hz
      | gpr r =>
        have hr : (0 : RegNo) ≠ r := fun hr => hne x (hr ▸ h2)
        exact (Function.update_of_ne hr x m.gpr).trans hz

/-- What an instruction finds when it reaches the switch. -/
lemma LoadInv.finds (h : LoadInv env c m) (hz : m.gpr 0 = 0) (i : Inst)
    (ht : sameLoads.rel (m.doDelayedUpdate env) t) :
    Finds env c m.visits ⟨i, t.toCore⟩ := by
  obtain ⟨-, hg, hf, -, h2⟩ := sameLoads_iff.mp ht
  constructor
  · intro d x ha
    rw [arriving_eq h] at ha
    split at ha
    next hd =>
      have hdest := dest_doDelayedUpdate hd ha
      cases d with
      | gpr r => exact (congrFun hg r).trans hdest
      | fpr r => exact (congrFun hf r).trans hdest
    next => cases ha
  · intro ha
    refine (congrFun hg 0).trans (zero_doDelayedUpdate hz fun hd x hx => ha x ?_)
    rw [arriving_eq h, if_pos hd, hx]
  · intro hd u hu
    constructor
    · have hqueue : t.delayedLoad2 = m.delayedLoad1 := by
        rw [h2, doDelayedUpdate_on hd]
      change Queues env (u.action env) u.state.start t.delayedLoad2
      rw [hqueue]
      exact h.queued hd u hu
    · intro hl
      obtain ⟨hkg, hkf⟩ := h.kept hd u hu hl
      have hzero : m.gpr = (u.state.start.setGpr 0 0).gpr := by
        funext r
        by_cases hr : r = 0
        · rw [hr, hz]
          exact (Function.update_self (0 : RegNo) (0 : Word) u.state.gpr).symm
        · rw [hkg r hr]
          exact (Function.update_of_ne hr _ _).symm
      have hpend : m.delayedLoad2 = u.state.delayedLoad2 := by
        obtain ⟨older, ho⟩ : ∃ older, m.visits = u :: older := List.head?_eq_some_iff.mp hu
        rw [h.pending, ho]
        rfl
      obtain ⟨hgpr, hfpr⟩ := regs_doDelayedUpdate env (m := u.state.start.setGpr 0 0) hzero hkf hpend
      exact ⟨hg.trans hgpr, hf.trans hfpr⟩

lemma Machine.gpr_zeroed (m : Machine) : (m.setGpr 0 0).gpr 0 = 0 := by
  change Function.update m.gpr 0 0 0 = 0
  exact Function.update_self 0 _ _

lemma sameLoads_tick (m : Machine) : sameLoads.rel m (bumpCP0Timer m) := by
  unfold bumpCP0Timer
  dsimp only
  split
  · rfl
  · rfl

/-- The head of a step clears $0 and does nothing else to the loads. -/
lemma stepHead_loads {m t : Machine} (h : (stepHead env).run m = .ok () t) :
    sameLoads.rel (m.setGpr 0 0) t := by
  obtain ⟨_, _, ⟨⟩, h⟩ := ok_of_bind h
  obtain ⟨n, m₁, h₁, h⟩ := ok_of_bind h
  obtain ⟨_, _, ⟨⟩, h₁⟩ := ok_of_bind h₁
  cases h₁
  have hrest := (Keeps.onlyIf (Keeps.modify sameLoads_tick)).ok h
  exact sameLoads.trans rfl hrest

lemma keepsLoads_stepHead : Keeps (keepsLoads env c) (stepHead env) := by
  refine Keeps.bind (Keeps.modify fun m => LoadInv.zeroed) fun _ => keepsLoads_of_keeps ?_
  refine Keeps.bind ?_ fun n => Keeps.onlyIf (Keeps.modify sameLoads_tick)
  exact Keeps.get_bind fun m => KeepsFrom.bind (KeepsFrom.set rfl) fun _ _ _ => KeepsFrom.pure _

/-! The switch. -/

/-- What every case of the switch but a delayed load leaves alone. -/
def sameQueue : Rel Machine :=
  Rel.same fun m => (m.visits, m.delayedLoad1, m.delayedLoad2)

lemma sameQueue_raise (m : Machine) (e : ExcCode) : sameQueue.rel m (m.raiseException e) := by
  obtain ⟨c, b, f, h⟩ := m.raiseException_eq e
  rw [h]
  rfl

lemma deviceRel_sameQueue : DeviceRel sameQueue where
  device _ _ _ _ _ _ _ _ := rfl
  raiseInt _ _ := rfl
  clearInt _ _ := rfl
  host _ _ _ := rfl

lemma flatRel_sameQueue : FlatRel sameQueue where
  data _ _ _ _ _ := rfl
  alloc _ _ := rfl
  patch _ _ _ := rfl
  ioRead := deviceRel_sameQueue.ioRead
  ioWrite := deviceRel_sameQueue.ioWrite
  raise m e _ _ := sameQueue_raise m e
  serviceRegs _ _ _ _ _ := rfl
  host _ _ _ := rfl
  dataTop _ _ _ := rfl
  exception m e _ := sameQueue_raise m e
  exit _ := Keeps.modify fun _ => rfl

/-- Some queue holds what a load leaves there. -/
lemma exists_queues (env : Env) (a : Action) (m : Machine) : ∃ q, Queues env a m q := by
  cases h : (performAtOnce env a).run m with
  | error e t =>
    refine ⟨none, fun d _ _ r u hu => ?_⟩
    rw [h] at hu
    cases hu
  | ok r t =>
    have hone : ∃ d, ∀ d' ∈ a.dests, ¬ a.Displaced d' → d' = d := by
      cases a with
      | load w addr mask d => exact ⟨d, fun d' hd' _ => List.mem_singleton.mp hd'⟩
      | loadPart addr merge rt => exact ⟨.gpr rt, fun d' hd' _ => List.mem_singleton.mp hd'⟩
      | loadDouble addr ft =>
        refine ⟨.fpr (ft+1), fun d' hd' hne => ?_⟩
        rcases List.mem_cons.mp hd' with h | h
        · exact absurd h hne
        · exact List.mem_singleton.mp h
      | _ => exact ⟨.gpr 0, fun d' hd' _ => absurd hd' List.not_mem_nil⟩
    obtain ⟨d, hd⟩ := hone
    refine ⟨some (d, t.dest d), fun d' hd' hne r' u hu => ?_⟩
    rw [h] at hu
    cases hu
    rw [hd d' hd' hne]

/-- The machine at an instruction that is not a delayed load agrees with its history. -/
lemma LoadInv.of_other {v : Visit} {older : List Visit} (hv : m.visits = v :: older)
    (hr : LoadHistory env c m.visits) (hp : m.delayedLoad2 = v.state.delayedLoad2)
    (hl : env.delayedLoads = true → ¬ (v.action env).IsLoad) : LoadInv env c m where
  recorded := hr
  pending := by
    rw [hv]
    exact hp
  queued hd u hu d hmem := by
    rw [hv] at hu
    cases hu
    cases ha : v.action env with
    | load | loadPart | loadDouble =>
      rw [ha] at hl
      exact absurd trivial (hl hd)
    | _ =>
      rw [ha] at hmem
      exact absurd hmem List.not_mem_nil
  kept hd u hu h := by
    rw [hv] at hu
    cases hu
    exact absurd h (hl hd)

lemma setDest_sameQueue (m : Machine) (d : LoadDest) (v : Word) :
    sameQueue.rel m (m.setDest d v) := by
  cases d with
  | gpr r => rfl
  | fpr r => rfl

/-- The switch looks at the registers only. -/
lemma dispatch_start (env : Env) (i : Inst) (m : Machine) :
    dispatch env i m = dispatch env i m.toCore.start := rfl

/-- A delayed load, at an instruction that has just been recorded. -/
lemma perform_delayedLoad (hd : env.delayedLoads = true) {slot : Narrator → Exec Narrator}
    (s : Narrator) {v : Visit} {older : List Visit} (hv : m.visits = v :: older)
    (hc : m.toCore = v.state) (hr : LoadHistory env c m.visits) (hl : (v.action env).IsLoad) :
    match (perform env slot s (v.action env)).run m with
    | .ok _ t => LoadInv env c t
    | .error _ t => ∃ t', LoadInv env c t' ∧ t.visits = t'.visits := by
  have hpend : m.delayedLoad2 = v.state.delayedLoad2 := congrArg (fun c => c.delayedLoad2) hc
  cases h : (perform env slot s (v.action env)).run m with
  | ok r t =>
    have ht := loaded_perform hd hl h
    constructor
    · rw [ht.visits]
      exact hr
    · rw [ht.visits, ht.pending, hv]
      exact hpend
    · rw [ht.visits, hv]
      rintro - u ⟨⟩
      have hq := ht.queues
      rw [hc] at hq
      exact hq
    · rw [ht.visits, hv]
      rintro - u ⟨⟩ -
      refine ⟨fun r _ => ?_, ?_⟩
      · rw [ht.gpr]
        exact congrArg (fun c => c.gpr r) hc
      · rw [ht.fpr]
        exact congrArg (fun c => c.fpr) hc
  | error e t =>
    obtain ⟨q, hq⟩ := exists_queues env (v.action env) v.state.start
    have hsame : AccessRel (Rel.same fun m : Machine => m.visits) := by
      have hdev : DeviceRel (Rel.same fun m : Machine => m.visits) :=
        ⟨fun _ _ _ _ _ _ _ _ => rfl, fun _ _ => rfl, fun _ _ => rfl, fun _ _ _ => rfl⟩
      refine ⟨fun _ _ _ _ _ => rfl, fun _ _ => rfl, fun _ _ _ => rfl, hdev.ioRead,
        hdev.ioWrite, fun m e a _ => ?_⟩
      exact congrArg Prod.fst (sameQueue_raise m e)
    have hnow : ∀ (m : Machine) d v,
        (Rel.same fun m : Machine => m.visits).rel m (m.loadInst env d v) := by
      intro m d v
      rw [loadInst_delayed hd]
      rfl
    have hkeep : KeepsFrom (Rel.same fun m : Machine => m.visits)
      (perform env slot s (v.action env)) m := hsame.perform_load hnow s hl m
    rw [KeepsFrom, h] at hkeep
    obtain ⟨_, hkeep, rfl⟩ := hkeep
    refine ⟨{ m with delayedLoad1 := q }, ⟨hr, ?_, ?_, ?_⟩, hkeep⟩
    · change m.delayedLoad2 = pendingAfter c m.visits
      rw [hv]
      exact hpend
    · change _ → ∀ u ∈ m.visits.head?, _
      rw [hv]
      rintro - u ⟨⟩
      exact hq
    · change _ → ∀ u ∈ m.visits.head?, _
      rw [hv]
      rintro - u ⟨⟩ -
      exact ⟨fun r _ => congrArg (fun c => c.gpr r) hc, congrArg (fun c => c.fpr) hc⟩

/-- Any other case of the switch. -/
lemma perform_other {slot : Narrator → Exec Narrator}
    (hs : ∀ s, Keeps (keepsLoads env c) (slot s)) (s : Narrator) {v : Visit} {older : List Visit}
    (hv : m.visits = v :: older) (hraise : ∀ e, v.action env = .raise e → e ≠ .int)
    (hl : env.delayedLoads = true → ¬ (v.action env).IsLoad) :
    KeepsFrom (keepsLoads env c) (perform env slot s (v.action env)) m := by
  have hpc : ∀ (m : Machine) w, (keepsLoads env c).rel m { m with pc := w } :=
    fun m w => keepsLoads_of_same rfl
  have hsub : ∀ t, sameQueue.rel m t → (keepsLoads env c).rel m t := by
    intro t ht hm
    obtain ⟨hvis, -, h2⟩ : t.visits = m.visits ∧ t.delayedLoad1 = m.delayedLoad1 ∧
        t.delayedLoad2 = m.delayedLoad2 := by
      simpa only [sameQueue, Rel.same, Prod.mk.injEq] using ht
    refine LoadInv.of_other (hvis.trans hv) (hvis ▸ hm.recorded) ?_ hl
    rw [h2, hm.pending, hv]
    rfl
  have hf : ∀ {m t : Machine}, sameQueue.upTo m t → (keepsLoads env c).upTo m t :=
    fun h => congrArg (fun m : Machine => m.visits) h.symm
  refine flatRel_sameQueue.perform hf hpc s _ m hsub (fun g _ _ => hsub _ rfl) hraise
    (fun fs v _ => hsub _ (flatRel_sameQueue.ctc1 (fun _ _ _ => rfl) m fs v)) ?_ ?_
  · intro h
    have hoff : env.delayedLoads = false := by
      simpa using fun hd => hl hd h
    refine KeepsFrom.mono (flatRel_sameQueue.perform_load (fun m d w => ?_) s h m) hsub hf
    have hnow : m.loadInst env d w = m.setDest d w := if_neg (by simp [hoff])
    rw [hnow]
    exact setDest_sameQueue m d w
  · intro g target _ _
    refine KeepsFrom.bind (KeepsFrom.modify (hsub _ rfl)) fun _ t _ => ?_
    exact keeps_jumpInst hpc (fun m b p => keepsLoads_of_same rfl) hs s target t

/-- An instruction that has just been recorded. -/
lemma perform_keepsLoads {slot : Narrator → Exec Narrator}
    (hs : ∀ s, Keeps (keepsLoads env c) (slot s)) (s : Narrator) {v : Visit} {older : List Visit}
    (hv : m.visits = v :: older) (hc : m.toCore = v.state) (hr : LoadHistory env c m.visits) :
    match (perform env slot s (v.action env)).run m with
    | .ok _ t => LoadInv env c t
    | .error _ t => ∃ t', LoadInv env c t' ∧ t.visits = t'.visits := by
  by_cases hl : env.delayedLoads = true ∧ (v.action env).IsLoad
  · exact perform_delayedLoad hl.1 s hv hc hr hl.2
  · have hother : env.delayedLoads = true → ¬ (v.action env).IsLoad := fun hd h => hl ⟨hd, h⟩
    have hpend : m.delayedLoad2 = v.state.delayedLoad2 := congrArg (fun c => c.delayedLoad2) hc
    have hm : LoadInv env c m := LoadInv.of_other hv hr hpend hother
    have h := perform_other hs s hv (fun e => dispatch_raise) hother
    rw [KeepsFrom] at h
    cases hrun : (perform env slot s (v.action env)).run m with
    | ok r t =>
      rw [hrun] at h
      exact h hm
    | error e t =>
      rw [hrun] at h
      obtain ⟨t', h, hvis⟩ := h
      exact ⟨t', h hm, hvis⟩

lemma keepsLoads_from {α : Type} {x : Exec α}
    (h : LoadInv env c m → KeepsFrom (keepsLoads env c) x m) : KeepsFrom (keepsLoads env c) x m := by
  by_cases hm : LoadInv env c m
  · exact h hm
  · rw [KeepsFrom]
    cases x.run m with
    | ok a t => exact fun h => absurd h hm
    | error e t => exact ⟨t, fun h => absurd h hm, rfl⟩

/-- A step from its fetched instruction to the end of the switch. -/
lemma keepsLoads_inst {slot : Narrator → Exec Narrator}
    (hs : ∀ s, Keeps (keepsLoads env c) (slot s)) (s : Narrator) (i : Inst) (hz : m.gpr 0 = 0) :
    KeepsFrom (keepsLoads env c) (do
      modify (Machine.doDelayedUpdate env)
      let m ← get
      let s ← explainBefore env s i m.pc
      modify (logInst i)
      let r ← atSwitch env slot s i
      pure (some (i, r))) m := by
  refine keepsLoads_from fun hm => ?_
  have hlook := lookRel_sameLoads.explainBefore env s i (m.doDelayedUpdate env).pc
    (m.doDelayedUpdate env)
  have hvis : (m.doDelayedUpdate env).visits = m.visits := by
    obtain ⟨g, f, d, d', h⟩ := doDelayedUpdate_eq env m
    rw [h]
  rw [KeepsFrom] at hlook
  simp only [KeepsFrom, EStateM.run_bind, EStateM.run_modify, EStateM.run_get]
  cases he : (explainBefore env s i (m.doDelayedUpdate env).pc).run (m.doDelayedUpdate env) with
  | error e t =>
    rw [he] at hlook
    obtain ⟨_, hlook, rfl⟩ := hlook
    exact ⟨m, id, (sameLoads_iff.mp hlook).1.trans hvis⟩
  | ok s' t =>
    rw [he] at hlook
    have htv : t.visits = m.visits := (sameLoads_iff.mp hlook).1.trans hvis
    have hn : (logInst i t).visits = ⟨i, t.toCore⟩ :: m.visits := congrArg (List.cons _) htv
    have hrec : LoadHistory env c (logInst i t).visits := by
      rw [hn]
      exact ⟨hm.finds hz i hlook, hm.recorded⟩
    have hact := perform_keepsLoads hs s' (v := ⟨i, t.toCore⟩) hn rfl hrec
    have hdisp : dispatch env i (logInst i t) = Visit.action env ⟨i, t.toCore⟩ :=
      dispatch_start env i (logInst i t)
    rw [← hdisp, ← atSwitch_run] at hact
    dsimp only
    cases hp : (atSwitch env slot s' i).run (logInst i t) with
    | ok r u =>
      rw [hp] at hact
      exact fun _ => hact
    | error e u =>
      rw [hp] at hact
      obtain ⟨u', hu, hvis⟩ := hact
      exact ⟨u', fun _ => hu, hvis⟩

end

lemma keepsLoads_execute {env : Env} {c : Core} {slot : Narrator → Exec Narrator}
    (hs : ∀ s, Keeps (keepsLoads env c) (slot s)) (s : Narrator) :
    Keeps (keepsLoads env c) (execute env slot s) := by
  rw [execute_eq]
  intro m
  refine KeepsFrom.bind (keepsLoads_stepHead m) fun _ t ht => ?_
  have hfetch : Keeps sameLoads (fetch env) := lookRel_sameLoads.fetch env
  refine KeepsFrom.bind (keepsLoads_of_keeps hfetch t) fun r u hu => ?_
  cases r with
  | none =>
    exact KeepsFrom.bind (KeepsFrom.modify (keepsLoads_of_same rfl)) fun _ _ _ => KeepsFrom.pure _
  | some i =>
    have hzero : u.gpr 0 = 0 := by
      have hgpr : u.gpr = (m.setGpr 0 0).gpr := by
        rw [(sameLoads_iff.mp (hfetch.ok hu)).2.1, (sameLoads_iff.mp (stepHead_loads ht)).2.1]
      rw [hgpr]
      exact m.gpr_zeroed
    exact keepsLoads_inst hs s i hzero

theorem loopRel_keepsLoads (env : Env) (c : Core) : LoopRel env (keepsLoads env c) where
  data _ _ _ _ _ := keepsLoads_of_same rfl
  alloc _ _ := keepsLoads_of_same rfl
  patch _ _ _ := keepsLoads_of_same rfl
  ioRead addr := keepsLoads_of_keeps (accessRel_sameLoads.ioRead addr)
  ioWrite addr value := keepsLoads_of_keeps (accessRel_sameLoads.ioWrite addr value)
  raise m e a he := keepsLoads_of_same (accessRel_sameLoads.raise m e a he)
  flag _ := keepsLoads_of_same rfl
  peek w addr := keepsLoads_of_keeps (lookRel_sameLoads.peek w addr)
  text _ _ _ := keepsLoads_of_same rfl
  kText _ _ _ := keepsLoads_of_same rfl
  bkpts _ _ := keepsLoads_of_same rfl
  execute _ _ hs := keepsLoads_execute hs
  pc _ _ := keepsLoads_of_same rfl
  raised m := by
    unfold logRaised
    split
    · exact keepsLoads_of_same rfl
    · exact id
  devices h := keepsLoads_of_keeps (deviceRel_sameLoads.check h)
  take m := by
    unfold takeInterrupt
    split
    · exact keepsLoads_of_same (sameLoads.trans rfl (loads_raise _ _))
    · exact id
  place _ _ _ := keepsLoads_of_same rfl

/-- The history of a run from `c`. -/
theorem runProgram_loads (env : Env) (display : Bool) (depth : ℕ) (pc : Word) (steps : ℕ)
    (contBkpt : Bool) (s : Narrator) (c : Core) : LoadHistory env c
      (final ((runProgram env display depth pc steps contBkpt s).run c.start)).visits := by
  have hexl : ∀ m : Machine, (keepsLoads env c).rel m (m.setCp0 12 (m.status &&& ~~~statusEXL)) :=
    fun _ => keepsLoads_of_same rfl
  have hrun := (loopRel_keepsLoads env c).runProgram hexl display depth pc steps contBkpt s c.start
  have hstart : LoadInv env c c.start := by
    constructor
    · trivial
    · rfl
    · intro _ u hu
      cases hu
    · intro _ u hu
      cases hu
  rw [KeepsFrom] at hrun
  cases hr : (runProgram env display depth pc steps contBkpt s).run c.start with
  | ok r t =>
    rw [hr] at hrun
    exact (hrun hstart).recorded
  | error e t =>
    rw [hr] at hrun
    obtain ⟨t', ht, hvis⟩ := hrun
    have hvis : t.visits = t'.visits := hvis
    rw [final_error, hvis]
    exact (ht hstart).recorded

/-- With delayed loads a load changes no register that the next instruction reads, and the
instruction after that finds what the load would have loaded at once: each of its registers, but
for the first of a double. -/
theorem delayed_loads_arrive (env : Env) (hd : env.delayedLoads = true) (display : Bool)
    (depth : ℕ) (pc : Word) (steps : ℕ) (contBkpt : Bool) (s : Narrator) (c : Core)
    (newer older : List Visit) (u v w : Visit)
    (h : (final ((runProgram env display depth pc steps contBkpt s).run c.start)).visits =
      newer ++ w :: v :: u :: older)
    (d : LoadDest) (hmem : d ∈ (u.action env).dests) (hne : ¬ (u.action env).Displaced d)
    (r : Flow × Unit) (m : Machine)
    (hload : (performAtOnce env (u.action env)).run u.state.start = .ok r m) :
    v.state.dest d = (u.landed env).dest d ∧ w.state.dest d = m.dest d := by
  have hhist := runProgram_loads env display depth pc steps contBkpt s c
  rw [h] at hhist
  have hw := hhist.finds
  have hv : Finds env c (u :: older) v := by
    rw [← List.singleton_append, ← List.append_assoc] at hhist
    exact hhist.finds
  have hfollows := hv.follows hd u rfl
  constructor
  · have hl : (u.action env).IsLoad := by
      cases ha : u.action env with
      | load | loadPart | loadDouble => trivial
      | _ =>
        rw [ha] at hmem
        exact absurd hmem List.not_mem_nil
    obtain ⟨hg, hf⟩ := hfollows.kept hl
    cases d with
    | gpr r => exact congrFun hg r
    | fpr r => exact congrFun hf r
  · refine hw.arrived d _ ?_
    rw [arriving, if_pos hd]
    exact hfollows.pending d hmem hne r m hload

/-- Bytes at the start of the data segment, and its address in $8. -/
def withData (is : List Inst) (addr : Word) : Core :=
  { Machine.ofText is with
    gpr := fun r => if r = 8 then addr else 0
    dataSeg := fun k => BitVec.ofNat 8 (17 * (k+1))
    dataTop := 0x10010000 }

def delaying : Env := { Env.quiet with delayedLoads := true }

/-- `lw $9, 0($8)` and two instructions that do nothing. -/
def loadsWord : Core :=
  withData [makeITypeInst .lw 9 8 0, makeRTypeInst .sll 0 0 0, makeRTypeInst .sll 0 0 0] 0x10000000

/-- A load that gives a register this value at once. -/
def loadsAtOnce (env : Env) (d : LoadDest) (x : Word) (u : Visit) : Bool :=
  decide (d ∈ (u.action env).dests) && decide (¬ (u.action env).Displaced d) &&
    match (performAtOnce env (u.action env)).run u.state.start with
    | .ok _ m => m.dest d == x
    | .error _ _ => false

theorem delayed_loads_arrive_word : ∃ u v w : Visit,
    (final ((runProgram delaying false 1 0x400000 3 false {}).run loadsWord.start)).visits =
      [w, v, u] ∧ v.state.gpr 9 = (u.landed delaying).gpr 9 ∧ w.state.gpr 9 = 0x44332211 := by
  have hlen : (final ((runProgram delaying false 1 0x400000 3 false {}).run
      loadsWord.start)).visits.length = 3 := by decide +kernel
  have hload : ((final ((runProgram delaying false 1 0x400000 3 false {}).run
      loadsWord.start)).visits.getLast?.map (loadsAtOnce delaying (.gpr 9) 0x44332211)) =
      some true := by decide +kernel
  obtain ⟨w, v, u, hvis⟩ := List.length_eq_three.mp hlen
  refine ⟨u, v, w, hvis, ?_⟩
  rw [hvis] at hload
  have hu : loadsAtOnce delaying (.gpr 9) 0x44332211 u = true := Option.some.inj hload
  simp only [loadsAtOnce, Bool.and_eq_true, decide_eq_true_eq] at hu
  obtain ⟨⟨hmem, hne⟩, hrun⟩ := hu
  cases h : (performAtOnce delaying (u.action delaying)).run u.state.start with
  | ok r m =>
    rw [h] at hrun
    obtain ⟨hlate, harrive⟩ := delayed_loads_arrive delaying rfl false 1 0x400000 3 false {}
      loadsWord [] [] u v w hvis (.gpr 9) hmem hne r m h
    exact ⟨hlate, harrive.trans (by simpa using hrun)⟩
  | error e m =>
    rw [h] at hrun
    cases hrun

/-! Loads of which something is lost. -/

/-- The third instruction from the last loads a register that the last one finds without the
value that the load would have loaded at once. -/
def misses (env : Env) (d : LoadDest) : List Visit → Bool
  | w :: _ :: u :: _ => decide (d ∈ (u.action env).dests) &&
    match (performAtOnce env (u.action env)).run u.state.start with
    | .ok _ m => w.state.dest d != m.dest d
    | .error _ _ => false
  | _ => false

/-- `ldc1 $f0, 0($8)` and two instructions that do nothing. -/
def loadsDouble : Core :=
  withData [makeITypeInst .ldc1 0 8 0, makeRTypeInst .sll 0 0 0, makeRTypeInst .sll 0 0 0]
    0x10000000

/-- The two halves of the word at `1($8)`, and two instructions that do nothing. -/
def loadsParts : Core :=
  withData [makeITypeInst .lwr 9 8 1, makeITypeInst .lwl 9 8 4, makeRTypeInst .sll 0 0 0,
    makeRTypeInst .sll 0 0 0] 0x10000000

/-- The first half of a double never arrives; and of two loads that assemble a word, the second
merges into what was in the register before the first. -/
theorem delayed_loads_lost :
    misses delaying (.fpr 0)
      (final ((runProgram delaying false 1 0x400000 3 false {}).run loadsDouble.start)).visits = true ∧
    (final ((runProgram Env.quiet false 1 0x400000 4 false {}).run loadsParts.start)).gpr 9 =
      0x55443322 ∧
    (final ((runProgram delaying false 1 0x400000 4 false {}).run loadsParts.start)).gpr 9 ≠
      0x55443322 := by
  exact ⟨by decide +kernel, by decide +kernel, by decide +kernel⟩

end Spimulator
