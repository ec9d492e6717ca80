import Spimulator.DelayedLoads

/-! Register $0: what the instructions of a run read there, and what the run leaves there. -/
namespace Spimulator
open Frame

/-! The head of a step clears $0, so that what is there before it does not matter. -/

/-- The machines differ in $0 only, which is clear in the second. -/
def Zeroed (m t : Machine) : Prop := t = m.setGpr 0 0

lemma setGpr_zero_twice (m : Machine) : (m.setGpr 0 0).setGpr 0 0 = m.setGpr 0 0 := by
  have h : Function.update (Function.update m.gpr 0 0) 0 0 = Function.update m.gpr 0 0 :=
    Function.update_idem _ _ _
  exact congrArg (fun g => m.setRegs { m.toRegs with gpr := g }) h

/-- A choice that does not look at $0. -/
lemma zeroed_ite {p q : Prop} [Decidable p] [Decidable q] {m m' t t' : Machine} (h : q ↔ p)
    (hm : Zeroed m m') (ht : Zeroed t t') :
    Zeroed (if p then m else t) (if q then m' else t') :=
  (if_congr h hm ht).trans (apply_ite (fun m : Machine => m.setGpr 0 0) p m t).symm

lemma zeroed_transmitDone (m : Machine) : Zeroed m.transmitDone (m.setGpr 0 0).transmitDone :=
  zeroed_ite Iff.rfl rfl (zeroed_ite Iff.rfl (zeroed_ite Iff.rfl rfl rfl) rfl)

lemma agree_receiveChar (host : Host) (m : Machine) :
    Agree Zeroed (receiveChar host) (receiveChar host) m (m.setGpr 0 0) := by
  refine Agree.bind (Agree.get_bind ?_) fun c s t _ h => ?_
  · refine Agree.bind (Agree.set rfl) fun _ s t _ h => ?_
    exact Agree.ite Iff.rfl (fun _ => Agree.throw h _) fun _ => Agree.pure h _
  · cases h
    exact Agree.modify (zeroed_ite Iff.rfl rfl rfl)

lemma agree_checkIO (host : Host) (m : Machine) :
    Agree Zeroed ( checkMemoryMappedIO host) ( checkMemoryMappedIO host) m (m.setGpr 0 0) := by
  have hdone : ∀ (_ : Unit) (s t : Machine), Zeroed s t →
      Agree Zeroed (modify Machine.transmitDone : Exec Unit) (modify Machine.transmitDone) s t := by
    rintro _ s _ rfl
    exact Agree.modify (zeroed_transmitDone s)
  refine Agree.get_bind (Agree.ite Iff.rfl (fun _ => ?_) fun _ => ?_)
  · exact Agree.bind (Agree.set rfl) fun _ s t _ h => hdone () s t h
  · refine Agree.bind (Agree.onlyIf Iff.rfl rfl fun _ => ?_) fun _ s t _ h => hdone () s t h
    exact agree_receiveChar host m

lemma zeroed_raise (m : Machine) (e : ExcCode) :
    Zeroed (m.raiseException e) ((m.setGpr 0 0).raiseException e) := by
  have h := m.onto_raiseException (m.setGpr 0 0) e
  obtain ⟨c, b, f, hr⟩ := m.raiseException_eq e
  rw [hr] at h
  rw [Zeroed, hr]
  exact h

lemma zeroed_takeInterrupt (m : Machine) :
    Zeroed (takeInterrupt m) (takeInterrupt (m.setGpr 0 0)) := by
  let m' : Machine := { m with trace := .interrupt m.status m.cause :: m.trace }
  exact zeroed_ite Iff.rfl (congrArg Machine.handleException (zeroed_raise m' .int)) rfl

lemma agree_poll (env : Env) (m : Machine) : Agree Zeroed (poll env) (poll env) m (m.setGpr 0 0) := by
  refine Agree.bind (Agree.onlyIf Iff.rfl rfl fun _ => agree_checkIO env.host m) fun _ s t _ h => ?_
  cases h
  exact Agree.modify (zeroed_takeInterrupt s)

lemma step_zeroed (env : Env) (display : Bool) (slot : Narrator → Exec Narrator) (s : Narrator)
    (m : Machine) : (step env display slot s).run (m.setGpr 0 0) =
      (step env display slot s).run m := by
  have hhead : (stepHead env).run (m.setGpr 0 0) = (stepHead env).run m := by
    rw [stepHead, EStateM.run_bind, EStateM.run_modify, EStateM.run_bind, EStateM.run_modify,
      setGpr_zero_twice]
  rw [step, EStateM.run_bind, EStateM.run_bind, hhead]

/-- A call of run_spim for one step that returns does not depend on what was in $0. -/
lemma runSpim_zeroed {env : Env} {display : Bool} {depth : ℕ} {pc : Word} {s : Narrator}
    {r : Bool × Narrator} {m t : Machine} (h : (runSpim env display depth pc 1 s).run m = .ok r t) :
    (runSpim env display depth pc 1 s).run (m.setGpr 0 0) = .ok r t := by
  cases depth with
  | zero => cases h
  | succ depth =>
    rw [runSpim_succ] at h ⊢
    obtain ⟨_, n, ⟨⟩, h⟩ := ok_of_bind h
    obtain ⟨_, n₁, hpoll, h⟩ := ok_of_bind h
    rw [onlyIf_pos rfl] at hpoll
    obtain ⟨n₂, hpoll', hn⟩ := (agree_poll env _).ok hpoll
    cases hn
    change (runLoop env display (runSlot env display depth) s 0 1).run
      ({ m with pc := pc : Machine }.setGpr 0 0) = .ok r t
    rw [runLoop, EStateM.run_bind, onlyIf_pos rfl, hpoll']
    dsimp only
    rw [EStateM.run_bind, step_zeroed, ← EStateM.run_bind]
    exact h

/-- A delay slot that returns does not depend on what was in $0. -/
lemma runSlot_zeroed {env : Env} {display : Bool} {depth : ℕ} {s s' : Narrator} {m t : Machine}
    (h : (runSlot env display depth s).run m = .ok s' t) :
    (runSlot env display depth s).run (m.setGpr 0 0) = .ok s' t := by
  obtain ⟨_, _, ⟨⟩, h⟩ := ok_of_bind h
  obtain ⟨r, _, hrun, h⟩ := ok_of_bind h
  cases h
  have hrun' : (runSpim env display depth ((m.setGpr 0 0).pc + 4) 1 s).run (m.setGpr 0 0) =
      .ok r t := runSpim_zeroed hrun
  rw [runSlot, EStateM.run_bind, EStateM.run_get]
  dsimp only
  rw [EStateM.run_bind, hrun']
  rfl

/-! What the instructions of a run leave in $0. -/

/-- The instruction finds $0 clear and gives it no other value: neither by its new registers
(unless a delay slot follows them) nor by a load that is not delayed. -/
structure ZeroStep (env : Env) (v : Visit) : Prop where
  found : v.state.gpr 0 = 0
  regs : ∀ g, (v.action env).newRegs = some g →
    g.gpr 0 = 0 ∨ (env.delayedBranches = true ∧ (v.action env).Transfers)
  load : env.delayedLoads = false → .gpr 0 ∈ (v.action env).dests → ∀ r m,
    (performAtOnce env (v.action env)).run v.state.start = .ok r m → m.gpr 0 = 0

/-- The history grows, and when all its instructions keep $0 clear, it stays clear. -/
def keepsZero (env : Env) : Rel Machine where
  rel m t := m.visits <:+ t.visits ∧
    ((∀ v ∈ t.visits, ZeroStep env v) → m.gpr 0 = 0 → t.gpr 0 = 0)
  refl _ := ⟨List.suffix_refl _, fun _ => id⟩
  trans h h' := ⟨h.1.trans h'.1, fun hv hz => h'.2 hv (h.2 (fun v hm => hv v (h'.1.subset hm)) hz)⟩
  upTo _ _ := True
  upTo_refl _ := trivial

/-- The history and $0 stay as they are. -/
def sameZero : Rel Machine := Rel.same fun m => (m.visits, m.gpr 0)

lemma sameZero_raise (m : Machine) (e : ExcCode) : sameZero.rel m (m.raiseException e) := by
  obtain ⟨c, b, f, h⟩ := m.raiseException_eq e
  rw [h]
  rfl

lemma deviceRel_sameZero : DeviceRel sameZero where
  device _ _ _ _ _ _ _ _ := rfl
  raiseInt _ _ := rfl
  clearInt _ _ := rfl
  host _ _ _ := rfl

lemma flatRel_sameZero : FlatRel sameZero where
  data _ _ _ _ _ := rfl
  alloc _ _ := rfl
  patch _ _ _ := rfl
  ioRead := deviceRel_sameZero.ioRead
  ioWrite := deviceRel_sameZero.ioWrite
  raise m e _ _ := sameZero_raise m e
  serviceRegs m _ _ _ hg := congrArg (Prod.mk m.visits) hg
  host _ _ _ := rfl
  dataTop _ _ _ := rfl
  exception m e _ := sameZero_raise m e
  exit _ := Keeps.modify fun _ => rfl

section

variable {env : Env} {m t : Machine}

lemma keepsZero_of_same (h : sameZero.rel m t) : (keepsZero env).rel m t := by
  obtain ⟨hv, hg⟩ : t.visits = m.visits ∧ t.gpr 0 = m.gpr 0 := Prod.mk.inj h
  refine ⟨hv ▸ List.suffix_refl _, fun _ hz => ?_⟩
  rw [hg, hz]

lemma keepsZero_of_sameLoads (h : sameLoads.rel m t) : (keepsZero env).rel m t := by
  obtain ⟨hv, hg, -⟩ := sameLoads_iff.mp h
  exact keepsZero_of_same (Prod.ext hv (congrFun hg 0))

lemma keepsZero_of_keeps {α : Type} {x : Exec α} (hx : Keeps sameLoads x) :
    Keeps (keepsZero env) x :=
  hx.mono (fun _ _ => keepsZero_of_sameLoads) fun _ => trivial

/-- What a load that is not delayed does to $0: nothing, or what it does on its own. -/
def ZeroLoad (env : Env) (a : Action) (m t : Machine) : Prop :=
  sameZero.rel m t ∨ (.gpr 0 ∈ a.dests ∧ t.visits = m.visits ∧
    ∃ r u, (performAtOnce env a).run m.toCore.start = .ok r u ∧ t.gpr 0 = u.gpr 0)

/-- The read of one element, and the load of what it returns. -/
lemma zeroLoad_read (hd : env.delayedLoads = false) {a : Action} {d : LoadDest} {w : Width}
    {addr : Word} {f : Word → Machine → Word} (hf : ∀ v t u, SameForReads t u → f v t = f v u)
    (hdests : a.dests = [d])
    (hrun : performAtOnce env a = memRead w addr >>= fun v => do
      modify fun t => t.loadInst env.atOnce d (f v t)
      pure (.next, ())) {r : Flow × Narrator} (s : Narrator)
    (h : (memRead w addr >>= fun v => do
      modify fun t => t.loadInst env d (f v t)
      pure (.next, s) : Exec _).run m = .ok r t) : ZeroLoad env a m t := by
  obtain ⟨v, u, hu, h⟩ := ok_of_bind h
  cases h
  obtain ⟨hv, hg, -⟩ := sameLoads_iff.mp ((accessRel_sameLoads.memRead w addr).ok hu)
  have hnow : u.loadInst env d (f v u) = u.setDest d (f v u) := if_neg (by simp [hd])
  dsimp only
  rw [hnow]
  by_cases h0 : d = .gpr 0
  · obtain ⟨u', hu', hsame⟩ := (agree_memRead (sameForReads_start m) w addr).ok hu
    refine Or.inr ⟨by rw [hdests, h0]; exact List.mem_singleton_self _, ?_, (.next, ()),
      u'.setDest d (f v u'), ?_, ?_⟩
    · rw [h0]
      exact hv
    · rw [hrun, EStateM.run_bind, hu']
      rw [← loadInst_atOnce]
      rfl
    · have hx := u.dest_setDest d (f v u)
      have hx' := u'.dest_setDest d (f v u')
      rw [h0] at hx hx' ⊢
      rw [hf v u u' hsame] at hx ⊢
      exact hx.trans hx'.symm
  · refine Or.inl (Prod.ext ?_ ?_)
    · cases d with
      | gpr r => exact hv
      | fpr r => exact hv
    · cases d with
      | fpr r => exact congrFun hg 0
      | gpr r =>
        have hr : (0 : RegNo) ≠ r := fun hr => h0 (hr ▸ rfl)
        exact (Function.update_of_ne hr _ _).trans (congrFun hg 0)

lemma zeroLoad_perform (hd : env.delayedLoads = false) {slot : Narrator → Exec Narrator}
    {s : Narrator} {a : Action} (ha : a.IsLoad) {r : Flow × Narrator}
    (h : (perform env slot s a).run m = .ok r t) : ZeroLoad env a m t := by
  cases a with
  | load w addr mask d =>
    exact zeroLoad_read hd (f := fun v _ => v &&& mask) (fun _ _ _ _ => rfl) rfl rfl s h
  | loadPart addr merge rt =>
    rw [perform_loadPart] at h
    refine zeroLoad_read hd (f := fun v t => if t.exceptionOccurred then v else merge v) ?_ rfl
      (perform_loadPart env.atOnce _ () addr merge rt) s h
    rintro v t _ ⟨h, rfl⟩
    rfl
  | loadDouble addr ft =>
    refine Or.inl ?_
    have hR := flatRel_sameZero.toAccessRel
    have hfpr : ∀ r v, Keeps sameZero (modify (Machine.loadInst env (.fpr r) v) : Exec Unit) := by
      intro r v
      refine Keeps.modify fun m => ?_
      unfold Machine.loadInst
      split
      · rfl
      · rfl
    have hkeep : Keeps sameZero (loadDouble env addr ft) := by
      refine Keeps.bind (Keeps.onlyIf (hR.raising _ (by decide) _)) fun _ => ?_
      refine Keeps.bind (hR.memRead _ _) fun v => Keeps.bind (hfpr _ v) fun _ => ?_
      exact Keeps.bind (hR.memRead _ _) fun v => hfpr _ v
    obtain ⟨_, u, hu, h⟩ := ok_of_bind h
    cases h
    exact hkeep.ok hu
  | _ => exact ha.elim

/-- A jump, from new registers that keep $0 clear or before a delay slot. -/
lemma zeroJump {slot : Narrator → Exec Narrator} (hslot : SlotOf env slot)
    (hs : ∀ s, Keeps (keepsZero env) (slot s)) (s : Narrator) (g : Regs) (target : JumpTarget)
    {v : Visit} (hv : v ∈ m.visits)
    (hg : ZeroStep env v → g.gpr 0 = 0 ∨ env.delayedBranches = true) :
    KeepsFrom (keepsZero env)
      (modify (fun m => m.setRegs g) >>= fun _ => jumpInst env slot s target) m := by
  refine KeepsFrom.of_ok (fun _ => trivial) fun s' t h => ?_
  obtain ⟨_, _, ⟨⟩, h⟩ := ok_of_bind h
  rw [jumpInst] at h
  cases hd : env.delayedBranches with
  | false =>
    rw [hd, if_neg (by decide)] at h
    obtain ⟨_, _, ⟨⟩, h⟩ := ok_of_bind h
    cases h
    refine ⟨List.suffix_refl _, fun hall _ => ?_⟩
    exact (hg (hall v hv)).resolve_right (by simp [hd])
  | true =>
    rw [hd, if_pos rfl] at h
    obtain ⟨_, _, ⟨⟩, h⟩ := ok_of_bind h
    obtain ⟨_, _, ⟨⟩, h⟩ := ok_of_bind h
    obtain ⟨s₁, u, hu, h⟩ := ok_of_bind h
    obtain ⟨_, _, ⟨⟩, h⟩ := ok_of_bind h
    cases h
    obtain ⟨display, depth, rfl⟩ := hslot
    have hkeep := (hs s).ok (runSlot_zeroed hu)
    exact ⟨hkeep.1, fun hall _ => hkeep.2 hall rfl⟩

/-- The cases of the switch, at an instruction that has just been recorded. -/
lemma perform_keepsZero {slot : Narrator → Exec Narrator} (hslot : SlotOf env slot)
    (hs : ∀ s, Keeps (keepsZero env) (slot s)) (s : Narrator) {v : Visit} (hv : v ∈ m.visits)
    (hc : m.toCore = v.state) :
    KeepsFrom (keepsZero env) (perform env slot s (v.action env)) m := by
  have hf : ∀ {m t : Machine}, sameZero.upTo m t → (keepsZero env).upTo m t := fun _ => trivial
  have hpc : ∀ (m : Machine) w, (keepsZero env).rel m { m with pc := w } :=
    fun m w => keepsZero_of_same rfl
  refine flatRel_sameZero.perform hf hpc s _ m (fun t => keepsZero_of_same) ?_
    (fun e => dispatch_raise)
    (fun fs v _ => keepsZero_of_same (flatRel_sameZero.ctc1 (fun _ _ _ => rfl) m fs v)) ?_ ?_
  · intro g hg ht
    refine ⟨List.suffix_refl _, fun hall _ => ?_⟩
    exact ((hall v hv).regs g hg).resolve_right fun h => ht h.2
  · intro hl
    refine KeepsFrom.of_ok (fun _ => trivial) fun r t h => ?_
    cases hd : env.delayedLoads with
    | true =>
      have ht := loaded_perform hd hl h
      exact keepsZero_of_same (Prod.ext ht.visits (congrFun ht.gpr 0))
    | false =>
      rcases zeroLoad_perform hd hl h with ht | ⟨hmem, hvis, r', u, hu, hz⟩
      · exact keepsZero_of_same ht
      · refine ⟨hvis ▸ List.suffix_refl _, fun hall _ => hz.trans ?_⟩
        rw [hc] at hu
        exact (hall v (hvis ▸ hv)).load hd hmem r' u hu
  · intro g target hg _
    exact zeroJump hslot hs s g target hv fun h => (h.regs g hg).imp_right And.left

end

lemma keepsZero_execute {env : Env} {slot : Narrator → Exec Narrator} (hslot : SlotOf env slot)
    (hs : ∀ s, Keeps (keepsZero env) (slot s)) (s : Narrator) :
    Keeps (keepsZero env) (execute env slot s) := by
  rw [execute_eq]
  intro m
  refine KeepsFrom.of_ok (fun _ => trivial) fun r t h => ?_
  obtain ⟨_, m₁, h₁, h⟩ := ok_of_bind h
  obtain ⟨i, m₂, h₂, h⟩ := ok_of_bind h
  have hhead := sameLoads.trans (stepHead_loads h₁) ((lookRel_sameLoads.fetch env).ok h₂)
  obtain ⟨hvis, hgpr, -⟩ := sameLoads_iff.mp hhead
  have hzero : m₂.gpr 0 = 0 := (congrFun hgpr 0).trans m.gpr_zeroed
  cases i with
  | none =>
    obtain ⟨_, _, ⟨⟩, h⟩ := ok_of_bind h
    cases h
    exact ⟨hvis ▸ List.suffix_refl _, fun _ _ => hzero⟩
  | some i =>
    obtain ⟨_, _, ⟨⟩, h⟩ := ok_of_bind h
    obtain ⟨_, _, ⟨⟩, h⟩ := ok_of_bind h
    obtain ⟨s₁, m₃, h₃, h⟩ := ok_of_bind h
    obtain ⟨_, _, ⟨⟩, h⟩ := ok_of_bind h
    obtain ⟨r', m₄, h₄, h⟩ := ok_of_bind h
    cases h
    have hlook := (lookRel_sameLoads.explainBefore env s i _).ok h₃
    have hvis₃ : m₃.visits = m.visits := by
      rw [(sameLoads_iff.mp hlook).1]
      obtain ⟨g, f, d, d', hd⟩ := doDelayedUpdate_eq env m₂
      rw [hd]
      exact hvis
    have hdisp : dispatch env i (logInst i m₃) = Visit.action env ⟨i, m₃.toCore⟩ :=
      dispatch_start env i (logInst i m₃)
    rw [atSwitch_run, hdisp] at h₄
    have hmem : (⟨i, m₃.toCore⟩ : Visit) ∈ (logInst i m₃).visits := List.mem_cons_self
    have hact := perform_keepsZero hslot hs s₁ hmem rfl
    rw [KeepsFrom, h₄] at hact
    refine ⟨?_, fun hall _ => hact.2 hall ?_⟩
    · rw [← hvis₃]
      exact (List.suffix_cons _ _).trans hact.1
    · exact (hall _ (hact.1.subset hmem)).found

theorem loopRel_keepsZero (env : Env) : LoopRel env (keepsZero env) where
  data _ _ _ _ _ := keepsZero_of_same rfl
  alloc _ _ := keepsZero_of_same rfl
  patch _ _ _ := keepsZero_of_same rfl
  ioRead addr := keepsZero_of_keeps (accessRel_sameLoads.ioRead addr)
  ioWrite addr value := keepsZero_of_keeps (accessRel_sameLoads.ioWrite addr value)
  raise m e a he := keepsZero_of_sameLoads (accessRel_sameLoads.raise m e a he)
  flag _ := keepsZero_of_same rfl
  peek w addr := keepsZero_of_keeps (lookRel_sameLoads.peek w addr)
  text _ _ _ := keepsZero_of_same rfl
  kText _ _ _ := keepsZero_of_same rfl
  bkpts _ _ := keepsZero_of_same rfl
  execute _ hslot hs := keepsZero_execute hslot hs
  pc _ _ := keepsZero_of_same rfl
  raised m := by
    unfold logRaised
    split
    · exact keepsZero_of_same rfl
    · exact (keepsZero env).refl m
  devices h := keepsZero_of_keeps (deviceRel_sameLoads.check h)
  take m := by
    unfold takeInterrupt
    split
    · exact keepsZero_of_sameLoads (sameLoads.trans rfl (loads_raise _ _))
    · exact (keepsZero env).refl m
  place _ _ _ := keepsZero_of_same rfl

/-- An instruction reads 0 from $0 unless a load to $0 of another value arrives as it executes; and
after a run whose instructions all keep $0 clear, $0 is clear. -/
theorem zero_register (env : Env) (display : Bool) (depth : ℕ) (pc : Word) (steps : ℕ)
    (contBkpt : Bool) (s : Narrator) (c : Core) :
    let run := (runProgram env display depth pc steps contBkpt s).run c.start
    (∀ newer v older, (final run).visits = newer ++ v :: older →
      (v.state.gpr 0 = 0 ↔ ∀ x, arriving env c older = some (.gpr 0, x) → x = 0)) ∧
    (∀ r t, run = .ok r t → c.gpr 0 = 0 → (∀ v ∈ t.visits, ZeroStep env v) → t.gpr 0 = 0) := by
  intro run
  constructor
  · intro newer v older hvis
    have hhist : LoadHistory env c (final run).visits :=
      runProgram_loads env display depth pc steps contBkpt s c
    rw [hvis] at hhist
    have hfinds := hhist.finds
    constructor
    · intro hz x hx
      exact (hfinds.arrived _ x hx).symm.trans hz
    · intro hx
      by_cases h : ∃ x, arriving env c older = some (.gpr 0, x)
      · obtain ⟨x, h⟩ := h
        exact (hfinds.arrived _ x h).trans (hx x h)
      · exact hfinds.zero fun x hx => h ⟨x, hx⟩
  · intro r t hrun hz hall
    have hexl : ∀ m : Machine, (keepsZero env).rel m (m.setCp0 12 (m.status &&& ~~~statusEXL)) :=
      fun _ => keepsZero_of_same rfl
    have hkeep := ((loopRel_keepsZero env).runProgram hexl display depth pc steps contBkpt s).ok hrun
    exact hkeep.2 hall hz

/-- `lw $0, 0($8)` and two instructions of which the second reads $0. -/
def loadsZero : Core :=
  withData [makeITypeInst .lw 0 8 0, makeRTypeInst .sll 0 0 0, makeRTypeInst .or 9 0 0] 0x10000000

/-- `addiu $0, $0, 5` -/
def addsToZero : Core := { Machine.ofText [makeITypeInst .addiu 0 0 5] with }

/-- The third instruction reads the word that was loaded to $0 from there; and a run that ends with
a write to $0 leaves the value there. -/
theorem zero_register_written :
    (final ((runProgram delaying false 1 0x400000 3 false {}).run loadsZero.start)).gpr 9 =
      0x44332211 ∧
    (runProgram Env.quiet false 1 0x400000 1 false {}).run addsToZero.start =
      .ok (false, true) (final
        ((runProgram Env.quiet false 1 0x400000 1 false {}).run addsToZero.start)) ∧
    (final ((runProgram Env.quiet false 1 0x400000 1 false {}).run addsToZero.start)).gpr 0 = 5 := by
  refine ⟨by decide +kernel, rfl, by decide +kernel⟩

end Spimulator
