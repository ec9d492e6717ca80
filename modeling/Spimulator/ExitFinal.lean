import Spimulator.Access

/-! The stop request of the exit services, followed through the nested calls of run_spim to the
return of run_program. -/
namespace Spimulator
open Frame

/-- What the run has done and where it is stay the same. -/
def samePath : Rel Machine := Rel.same (fun m => (m.trace, m.place))

lemma samePath_raise (m : Machine) (e : ExcCode) : samePath.rel m (m.raiseException e) := by
  obtain ⟨c, b, f, h⟩ := m.raiseException_eq e
  rw [h]
  rfl

lemma deviceRel_samePath : DeviceRel samePath where
  device _ _ _ _ _ _ _ _ := rfl
  raiseInt _ _ := rfl
  clearInt _ _ := rfl
  host _ _ _ := rfl

lemma accessRel_samePath : AccessRel samePath where
  data _ _ _ _ _ := rfl
  alloc _ _ := rfl
  patch _ _ _ := rfl
  ioRead := deviceRel_samePath.ioRead
  ioWrite := deviceRel_samePath.ioWrite
  raise m e _ _ := samePath.trans (samePath_raise m e) rfl

theorem printRel_samePath : PrintRel samePath where
  toAccessRel := accessRel_samePath
  regs _ _ _ := rfl
  tick m := by
    unfold bumpCP0Timer
    dsimp only
    split
    · rfl
    · rfl
  pc _ _ := rfl
  flag _ := rfl
  peek := accessRel_samePath.peek (fun _ _ => rfl) fun _ _ => rfl
  exception m e _ := samePath_raise m e
  queue _ _ := rfl
  devices := deviceRel_samePath.check
  host _ _ _ := rfl
  dataTop _ _ _ := rfl
  text _ _ _ := rfl
  kText _ _ _ := rfl
  bkpts _ _ := rfl

/-! The events of a run and its end. -/

def ExitFree (es : List Event) : Prop := ∀ p, Event.exit p ∉ es

/-- The events of a run that started at `p`: exits come from there or from delay slots; without
one in a delay slot, a run that was stopped ends in its only exit, and any other run has none. -/
def Ends (p : Place) (es : List Event) (stopped : Bool) : Prop :=
  (∀ q, Event.exit q ∈ es → q = p ∨ q = .slot) ∧
  (Event.exit .slot ∉ es →
    if stopped then ∃ rest, es = .exit p :: rest ∧ ExitFree rest else ExitFree es)

namespace Ends

variable {p : Place} {es es' : List Event} {b : Bool}

lemma of_exitFree (h : ExitFree es) : Ends p es false :=
  ⟨fun q hq => absurd hq (h q), fun _ => h⟩

lemma append (h : Ends p es false) (h' : Ends p es' b) : Ends p (es' ++ es) b := by
  refine ⟨fun q hq => ?_, fun hs => ?_⟩
  · rcases List.mem_append.mp hq with hq | hq
    · exact h'.1 q hq
    · exact h.1 q hq
  · have hfree : ExitFree es := h.2 (fun hm => hs (List.mem_append_right _ hm))
    have hend := h'.2 (fun hm => hs (List.mem_append_left _ hm))
    cases b with
    | false =>
      intro q hq
      rcases List.mem_append.mp hq with hq | hq
      · exact hend q hq
      · exact hfree q hq
    | true =>
      obtain ⟨rest, rfl, hrest⟩ := hend
      refine ⟨rest ++ es, rfl, fun q hq => ?_⟩
      rcases List.mem_append.mp hq with hq | hq
      · exact hrest q hq
      · exact hfree q hq

/-- Seen from a jump, whatever its delay slot did is not a stop. -/
lemma of_slot (h : Ends .slot es b) : Ends p es false := by
  refine ⟨fun q hq => ?_, fun hs => ?_⟩
  · have hq' := h.1 q hq
    exact Or.inr (hq'.elim id id)
  · have hend := h.2 hs
    cases b with
    | false => exact hend
    | true =>
      obtain ⟨rest, rfl, -⟩ := hend
      exact absurd List.mem_cons_self hs

end Ends

/-- The end of a run matches its events. -/
def ExitSpecFrom {α : Type} (stopped : α → Bool) (x : Exec α) (m : Machine) : Prop :=
  match x.run m with
  | .ok a m' => m'.place = m.place ∧
      ∃ es, m'.trace = es ++ m.trace ∧ Ends m.place es (stopped a)
  | .error _ m' => ∃ es, m'.trace = es ++ m.trace ∧ Ends m.place es false

def ExitSpec {α : Type} (stopped : α → Bool) (x : Exec α) : Prop :=
  ∀ m, ExitSpecFrom stopped x m

namespace ExitSpec

variable {α β : Type}

theorem get_bind {stopped : α → Bool} {f : Machine → Exec α}
    (h : ∀ m, ExitSpecFrom stopped (f m) m) : ExitSpec stopped (get >>= f) := h

theorem keeps {x : Exec α} (h : Keeps samePath x) : ExitSpec (fun _ => false) x := by
  intro m
  have hm := h m
  rw [ExitSpecFrom]
  rw [KeepsFrom] at hm
  cases hr : x.run m with
  | ok a m' =>
    rw [hr] at hm
    obtain ⟨ht, hp⟩ := Prod.mk.inj hm
    exact ⟨hp, [], ht, Ends.of_exitFree (fun _ => List.not_mem_nil)⟩
  | error e m' =>
    rw [hr] at hm
    obtain ⟨m', hm, rfl⟩ := hm
    obtain ⟨ht, -⟩ := Prod.mk.inj hm
    exact ⟨[], ht, Ends.of_exitFree (fun _ => List.not_mem_nil)⟩

theorem pure {st : α → Bool} {a : α} (h : st a = false) : ExitSpec st (Pure.pure a : Exec α) := by
  intro m
  refine ⟨rfl, [], rfl, ?_⟩
  rw [h]
  exact Ends.of_exitFree (fun _ => List.not_mem_nil)

/-- What follows a computation that was not stopped continues its events; what follows one that
was stopped only passes the stop on. -/
theorem bind_stop {st : α → Bool} {st' : β → Bool} {x : Exec α} {f : α → Exec β}
    (hx : ExitSpec st x) (hgo : ∀ a, st a = false → ExitSpec st' (f a))
    (hstop : ∀ a, st a = true → ∃ b, f a = Pure.pure b ∧ st' b = true) :
    ExitSpec st' (x >>= f) := by
  intro m
  have hm := hx m
  rw [ExitSpecFrom] at hm ⊢
  rw [EStateM.run_bind]
  cases hr : x.run m with
  | error e t =>
    rw [hr] at hm
    exact hm
  | ok a t =>
    rw [hr] at hm
    obtain ⟨hp, es, ht, hends⟩ := hm
    cases hst : st a with
    | true =>
      obtain ⟨b, hf, hb⟩ := hstop a hst
      simp only [hf, EStateM.run_pure, hb]
      rw [hst] at hends
      exact ⟨hp, es, ht, hends⟩
    | false =>
      rw [hst] at hends
      have hm' := hgo a hst t
      rw [ExitSpecFrom, hp] at hm'
      simp only
      cases hr' : (f a).run t with
      | ok b u =>
        rw [hr'] at hm'
        obtain ⟨hp', es', ht', hends'⟩ := hm'
        refine ⟨hp', es' ++ es, ?_, hends.append hends'⟩
        rw [ht', ht, List.append_assoc]
      | error e u =>
        rw [hr'] at hm'
        obtain ⟨es', ht', hends'⟩ := hm'
        refine ⟨es' ++ es, ?_, hends.append hends'⟩
        rw [ht', ht, List.append_assoc]

theorem bind {st : β → Bool} {x : Exec α} {f : α → Exec β} (hx : ExitSpec (fun _ => false) x)
    (hf : ∀ a, ExitSpec st (f a)) : ExitSpec st (x >>= f) :=
  bind_stop hx (fun a _ => hf a) (fun _ h => absurd h (by decide))

/-- New events that are no exits. -/
theorem log {f : Machine → Machine} (hp : ∀ m, (f m).place = m.place)
    (ht : ∀ m, ∃ es, (f m).trace = es ++ m.trace ∧ ExitFree es) :
    ExitSpec (fun _ => false) (modify f : Exec Unit) := by
  intro m
  obtain ⟨es, he, hfree⟩ := ht m
  exact ⟨hp m, es, he, Ends.of_exitFree hfree⟩

end ExitSpec

/-! The parts of a step. -/

/-- An exit is the newest event and the service's result says so. -/
lemma exitSpec_exitWith (value : Word) :
    ExitSpec (fun b => !b) (do exitWith value; pure false : Exec Bool) := by
  intro m
  refine ⟨rfl, [.exit m.place], rfl, fun q hq => ?_, fun _ => ⟨[], rfl, fun _ => List.not_mem_nil⟩⟩
  cases List.mem_singleton.mp hq
  exact Or.inl rfl

theorem exitSpec_doSyscall (env : Env) : ExitSpec (fun b => !b) (doSyscall env) := by
  refine ExitSpec.get_bind fun m => ?_
  split
  · exact ⟨[], rfl, Ends.of_exitFree (fun _ => List.not_mem_nil)⟩
  · exact exitSpec_exitWith _ m
  · exact exitSpec_exitWith _ m
  · exact ExitSpec.bind (ExitSpec.keeps (printRel_samePath.otherService env _))
      (fun _ => ExitSpec.pure rfl) m

/-- What a jump relies on for its delay slot. -/
def SlotSpec {ν : Type} (slot : ν → Exec ν) : Prop :=
  ∀ s m, m.place = .slot → ∃ es b,
    (final ((slot s).run m)).trace = es ++ m.trace ∧ Ends .slot es b

section

variable {ν : Type} {slot : ν → Exec ν} (hslot : SlotSpec slot)

include hslot

lemma exitSpec_jumpInst (env : Env) (s : ν) (target : JumpTarget) :
    ExitSpec (fun _ => false) (jumpInst env slot s target) := by
  unfold jumpInst
  intro m
  by_cases hd : env.delayedBranches
  · rw [if_pos hd]
    obtain ⟨es, b, ht, hends⟩ := hslot s { m with runningInDelaySlot := true, place := .slot } rfl
    rw [ExitSpecFrom]
    simp only [EStateM.run_bind, EStateM.run_get, EStateM.run_set]
    cases hr : (slot s).run { m with runningInDelaySlot := true, place := .slot } with
    | ok s' t =>
      rw [hr] at ht
      exact ⟨rfl, es, ht, hends.of_slot⟩
    | error e t =>
      rw [hr] at ht
      exact ⟨es, ht, hends.of_slot⟩
  · rw [if_neg hd]
    refine ExitSpec.bind (ExitSpec.keeps (Keeps.modify fun m => ?_)) (fun _ => ExitSpec.pure rfl) m
    exact printRel_samePath.pc m _

/-- The flow of a step that an exit stopped. -/
def isStop : Flow × ν → Bool
  | (.stop, _) => true
  | _ => false

omit hslot in
/-- What follows a step goes on, unless the step was stopped. -/
lemma exitSpec_flow {β : Type} {st : β → Bool} {x : Exec (Flow × ν)} {f : Flow × ν → Exec β}
    (hx : ExitSpec isStop x) (hnext : ∀ s, ExitSpec st (f (.next, s)))
    (hpause : ∀ s, ExitSpec st (f (.pause, s)))
    (hstop : ∀ s, ∃ b, f (.stop, s) = pure b ∧ st b = true) : ExitSpec st (x >>= f) := by
  refine ExitSpec.bind_stop hx (fun r hr => ?_) (fun r hr => ?_)
  · obtain ⟨flow, s⟩ := r
    cases flow with
    | next => exact hnext s
    | pause => exact hpause s
    | stop => cases hr
  · obtain ⟨flow, s⟩ := r
    cases flow with
    | next => cases hr
    | pause => cases hr
    | stop => exact hstop s

omit hslot in
lemma exitSpec_next {x : Exec Unit} (hx : Keeps samePath x) (s : ν) :
    ExitSpec isStop (do x; pure (.next, s) : Exec (Flow × ν)) :=
  ExitSpec.bind (ExitSpec.keeps hx) fun _ => ExitSpec.pure rfl

theorem exitSpec_perform (env : Env) (s : ν) (a : Action) :
    ExitSpec isStop (perform env slot s a) := by
  have hR := printRel_samePath
  cases a with
  | regs g => exact exitSpec_next (Keeps.modify fun _ => rfl) s
  | raise e => exact exitSpec_next (Keeps.modify fun m => samePath_raise m e) s
  | ctc1 fs v => exact exitSpec_next (Keeps.modify fun m => hR.ctc1 m fs v) s
  | load w addr mask dest =>
    exact ExitSpec.bind (ExitSpec.keeps (hR.memRead w addr)) fun v =>
      exitSpec_next (Keeps.modify fun m => hR.loadInst env _ _ m) s
  | loadPart addr merge rt => exact exitSpec_next (hR.loadPart env _ _ _) s
  | loadDouble addr ft => exact exitSpec_next (hR.loadDouble env _ _) s
  | store w addr v => exact exitSpec_next (hR.memWrite _ _ _ _) s
  | storePart addr merge => exact exitSpec_next (hR.storePart env _ _) s
  | storeDouble addr lo hi => exact exitSpec_next (hR.storeDouble env _ _ _) s
  | branch g test target nullify =>
    refine ExitSpec.bind (ExitSpec.keeps (Keeps.modify fun _ => rfl)) fun _ => ?_
    cases test with
    | true => exact ExitSpec.bind (exitSpec_jumpInst hslot env s _) fun _ => ExitSpec.pure rfl
    | false => exact exitSpec_next (Keeps.modify fun m => hR.pc m _) s
  | jump g target =>
    refine ExitSpec.bind (ExitSpec.keeps (Keeps.modify fun _ => rfl)) fun _ => ?_
    exact ExitSpec.bind (exitSpec_jumpInst hslot env s _) fun _ => ExitSpec.pure rfl
  | debugBreak =>
    exact ExitSpec.bind (ExitSpec.keeps (Keeps.modify fun m => samePath_raise m .bp))
      fun _ => ExitSpec.pure rfl
  | syscall =>
    refine ExitSpec.bind_stop (exitSpec_doSyscall env) (fun b hb => ?_) (fun b hb => ?_)
    · cases b with
      | true => exact ExitSpec.pure rfl
      | false => exact absurd hb (by decide)
    · cases b with
      | true => exact absurd hb (by decide)
      | false => exact ⟨_, rfl, rfl⟩
  | halt h => exact fun m => ⟨[], rfl, Ends.of_exitFree (fun _ => List.not_mem_nil)⟩

end

section

variable (env : Env) (display : Bool) {slot : Narrator → Exec Narrator} (hslot : SlotSpec slot)

include hslot

omit hslot in
lemma samePath_doDelayedUpdate (m : Machine) : samePath.rel m (m.doDelayedUpdate env) := by
  unfold Machine.doDelayedUpdate
  split
  · dsimp only
    split
    next d v _ => cases d <;> rfl
    next => rfl
  · rfl

omit hslot in
lemma exitFree_instEvents (i : Inst) (m : Machine) : ExitFree (instEvents i m) := by
  intro p hp
  unfold instEvents at hp
  split at hp <;> simp at hp

lemma exitSpec_execInst (s : Narrator) (i : Inst) : ExitSpec isStop (execInst env slot s i) := by
  have hR := printRel_samePath
  refine ExitSpec.bind
    (ExitSpec.keeps (Keeps.modify fun m => samePath_doDelayedUpdate env m)) fun _ => ?_
  refine ExitSpec.bind (ExitSpec.keeps Keeps.get) fun m => ?_
  refine ExitSpec.bind (ExitSpec.keeps (hR.explainBefore env s i _)) fun s => ?_
  refine ExitSpec.bind
    (ExitSpec.log (fun _ => rfl) fun m => ⟨_, rfl, exitFree_instEvents i m⟩) fun _ => ?_
  exact ExitSpec.bind (ExitSpec.keeps Keeps.get) fun m => exitSpec_perform hslot env s _

omit hslot in
lemma exitSpec_logRaised :
    ExitSpec (fun _ => false) (modify fun m => logRaised { m with pc := m.pc + 4 } : Exec Unit) := by
  refine ExitSpec.log (fun m => ?_) fun m => ?_
  · unfold logRaised
    split
    · rfl
    · rfl
  · unfold logRaised
    split
    · exact ⟨[.raised], rfl, fun p hp => by cases List.mem_singleton.mp hp⟩
    · exact ⟨[], rfl, fun p => List.not_mem_nil⟩

omit hslot in
lemma exitSpec_poll : ExitSpec (fun _ => false) (poll env) := by
  have hR := printRel_samePath
  refine ExitSpec.bind (ExitSpec.keeps (Keeps.onlyIf (hR.devices _))) fun _ => ?_
  have hint : ∀ m : Machine, ∃ c b f, { m with trace := .interrupt m.status m.cause :: m.trace
      : Machine }.raiseException .int = { m with
        trace := .interrupt m.status m.cause :: m.trace
        cp0 := c, exceptionOccurred := b, firstBadException := f } :=
    fun m => Machine.raiseException_eq _ _
  refine ExitSpec.log (fun m => ?_) fun m => ?_
  · unfold takeInterrupt
    split
    · obtain ⟨c, b, f, h⟩ := hint m
      simp only [h]
      rfl
    · rfl
  · unfold takeInterrupt
    split
    · obtain ⟨c, b, f, h⟩ := hint m
      refine ⟨[.interrupt m.status m.cause], ?_, fun p hp => by cases List.mem_singleton.mp hp⟩
      simp only [h]
      rfl
    · exact ⟨[], rfl, fun p => List.not_mem_nil⟩

omit hslot in
lemma exitSpec_finishStep (s : Narrator) (i : Inst) :
    ExitSpec (fun _ => false) (finishStep env display s i) := by
  have hR := printRel_samePath
  refine ExitSpec.bind exitSpec_logRaised fun _ => ?_
  refine ExitSpec.keeps (Keeps.bind (hR.explainAfter env s i) fun _ => Keeps.get_bind fun m => ?_)
  exact Keeps.bind (Keeps.onlyIf (hR.instToString _ _)) (fun _ => Keeps.modify hR.deliver) m

lemma exitSpec_step (s : Narrator) : ExitSpec isStop (step env display slot s) := by
  have hR := printRel_samePath
  refine ExitSpec.bind (ExitSpec.keeps (hR.stepHead env)) fun _ => ?_
  refine ExitSpec.bind (ExitSpec.keeps (hR.fetch env)) fun r => ?_
  cases r with
  | none =>
    refine ExitSpec.bind (ExitSpec.log (fun _ => rfl) fun m => ?_) fun _ => ExitSpec.pure rfl
    exact ⟨[.raised], rfl, fun p hp => by cases List.mem_singleton.mp hp⟩
  | some i =>
    refine exitSpec_flow (exitSpec_execInst env hslot s i) (fun s => ?_) (fun s => ?_) (fun s => ?_)
    · exact ExitSpec.bind (exitSpec_finishStep env display s i) fun _ => ExitSpec.pure rfl
    · exact ExitSpec.pure rfl
    · exact ⟨_, rfl, rfl⟩

lemma exitSpec_runLoop (n k : ℕ) (s : Narrator) :
    ExitSpec (fun r => !r.1) (runLoop env display slot s k n) := by
  have hR := printRel_samePath
  induction n generalizing k s with
  | zero => exact ExitSpec.pure rfl
  | succ n ih =>
    refine ExitSpec.bind (x := onlyIf (k = 0) (poll env)) ?_ fun _ => ?_
    · unfold onlyIf
      split
      · exact exitSpec_poll env
      · exact ExitSpec.pure rfl
    refine exitSpec_flow (exitSpec_step env display hslot s) (fun s => ?_) (fun s => ?_) (fun s => ?_)
    · exact ih _ s
    · exact ExitSpec.pure rfl
    · exact ⟨_, rfl, rfl⟩

end

/-! Whole runs. -/

lemma runSpim_succ (env : Env) (display : Bool) (depth : ℕ) (pc : Word) (n : ℕ) (s : Narrator) :
    runSpim env display (depth+1) pc n s = (do
      modify fun m => { m with pc := pc }
      runLoop env display (runSlot env display depth) s 0 n) := rfl

lemma slotSpec_runSlot {env : Env} {display : Bool} {depth : ℕ}
    (h : ∀ pc n s, ExitSpec (fun r => !r.1) (runSpim env display depth pc n s)) :
    SlotSpec (runSlot env display depth) := by
  intro s m hm
  have hrun := h (m.pc + 4) 1 s m
  rw [ExitSpecFrom, hm] at hrun
  simp only [runSlot, EStateM.run_bind, EStateM.run_get]
  cases hr : (runSpim env display depth (m.pc + 4) 1 s).run m with
  | ok r m' =>
    rw [hr] at hrun
    obtain ⟨-, es, ht, hends⟩ := hrun
    exact ⟨es, _, ht, hends⟩
  | error e m' =>
    rw [hr] at hrun
    obtain ⟨es, ht, hends⟩ := hrun
    exact ⟨es, _, ht, hends⟩

theorem exitSpec_runSpim (env : Env) (display : Bool) (depth : ℕ) (pc : Word) (n : ℕ)
    (s : Narrator) : ExitSpec (fun r => !r.1) (runSpim env display depth pc n s) := by
  induction depth generalizing pc n s with
  | zero => exact fun m => ⟨[], rfl, Ends.of_exitFree (fun _ => List.not_mem_nil)⟩
  | succ depth ih =>
    rw [runSpim_succ]
    refine ExitSpec.bind (ExitSpec.keeps (Keeps.modify fun m => rfl)) fun _ => ?_
    exact exitSpec_runLoop env display (slotSpec_runSlot ih) n 0 s

/-! run_program. -/

/-- The part of a run from its call on, whatever its result. -/
lemma runSpim_ends (env : Env) (display : Bool) (depth : ℕ) (pc : Word) (n : ℕ) (s : Narrator)
    (m : Machine) : ∃ es b, (final ((runSpim env display depth pc n s).run m)).trace = es ++ m.trace ∧
      Ends m.place es b := by
  have hrun := exitSpec_runSpim env display depth pc n s m
  rw [ExitSpecFrom] at hrun
  cases hr : (runSpim env display depth pc n s).run m with
  | ok r m' =>
    rw [hr] at hrun
    obtain ⟨-, es, ht, hends⟩ := hrun
    exact ⟨es, _, ht, hends⟩
  | error e m' =>
    rw [hr] at hrun
    obtain ⟨es, ht, hends⟩ := hrun
    exact ⟨es, _, ht, hends⟩

lemma trace_of_keeps {α : Type} {x : Exec α} (h : Keeps samePath x) (m : Machine) :
    (final (x.run m)).trace = m.trace := congrArg Prod.fst ((h m).final id)

/-- The step over a breakpoint. -/
lemma stepOver_ends (env : Env) (display : Bool) (depth : ℕ) (pc : Word) (s : Narrator)
    (m : Machine) : ∃ es b, (final ((stepOver env display depth pc s).run m)).trace = es ++ m.trace ∧
      Ends .over es b := by
  have hR := printRel_samePath
  simp only [stepOver, EStateM.run_bind, EStateM.run_get]
  generalize (if m.pc = 0 then pc else m.pc) = addr
  have hdel := trace_of_keeps (hR.deleteBreakpoint env.tbl addr) m
  cases hd : (deleteBreakpoint env.tbl addr).run m with
  | error e t =>
    rw [hd] at hdel
    exact ⟨[], false, hdel, Ends.of_exitFree (fun _ => List.not_mem_nil)⟩
  | ok u t =>
    rw [hd, final_ok] at hdel
    simp only [EStateM.run_modify]
    obtain ⟨es, b, ht, hends⟩ := runSpim_ends env display depth addr 1 s
      { t with exceptionOccurred := false, place := .over }
    refine ⟨es, b, ?_, hends⟩
    rw [← hdel]
    cases hr : (runSpim env display depth addr 1 s).run
        { t with exceptionOccurred := false, place := .over } with
    | error e t' =>
      rw [hr] at ht
      exact ht
    | ok r t' =>
      rw [hr, final_ok] at ht
      have hadd := trace_of_keeps (hR.addBreakpoint env.tbl addr) t'
      rw [ht] at hadd
      simp only
      cases ha : (addBreakpoint env.tbl addr).run t' with
      | error e t'' =>
        rw [ha] at hadd
        exact hadd
      | ok r t'' =>
        rw [ha] at hadd
        exact hadd

/-- After an exit no instruction executes, and the run ends with nothing to continue. -/
def ExitFinal (es : List Event) (continuable : Bool) : Prop :=
  ∀ p newer older, es = newer ++ .exit p :: older →
    (∀ pc a, Event.exec pc a ∉ newer) ∧ continuable = false

lemma ExitFinal.of_exitFree {es : List Event} (h : ExitFree es) (b : Bool) : ExitFinal es b := by
  intro p newer older he
  refine absurd ?_ (h p)
  rw [he]
  exact List.mem_append_right _ List.mem_cons_self

lemma ExitFinal.of_newest {p : Place} {es : List Event} (h : ExitFree es) :
    ExitFinal (.exit p :: es) false := by
  intro q newer older he
  cases newer with
  | nil => exact ⟨fun _ _ => List.not_mem_nil, rfl⟩
  | cons e newer =>
    obtain ⟨-, rfl⟩ := List.cons.inj he
    exact absurd (List.mem_append_right _ List.mem_cons_self) (h q)

/-- The result of a run and its events, when no exit is asked for in a delay slot or in a step
over a breakpoint. -/
def FinalResult (m : Machine) : EStateM.Result Halt Machine (Bool × Bool) → Prop
  | .ok (_, continuable) m' => ∃ es, m'.trace = es ++ m.trace ∧
      (.exit .slot ∉ es → .exit .over ∉ es → ExitFinal es continuable)
  | .error _ m' => ∃ es, m'.trace = es ++ m.trace ∧
      (.exit .slot ∉ es → .exit .over ∉ es → ExitFree es)

lemma finalResult_runMain (env : Env) (display : Bool) (depth : ℕ) (pc : Word) (steps : ℕ)
    (s : Narrator) (m : Machine) :
    FinalResult m ((runMain env display depth pc steps s).run m) := by
  have hrun := exitSpec_runSpim env display depth pc steps s
    { m with exceptionOccurred := false, place := .main }
  rw [ExitSpecFrom] at hrun
  simp only [runMain, EStateM.run_bind, EStateM.run_modify]
  cases hr : (runSpim env display depth pc steps s).run
      { m with exceptionOccurred := false, place := .main } with
  | error e t =>
    rw [hr] at hrun
    obtain ⟨es, ht, hends⟩ := hrun
    exact ⟨es, ht, fun hs _ => hends.2 hs⟩
  | ok r t =>
    rw [hr] at hrun
    obtain ⟨-, es, ht, hends⟩ := hrun
    obtain ⟨continuable, s'⟩ := r
    have hfinal : .exit .slot ∉ es → ExitFinal es continuable := by
      intro hs
      have hend := hends.2 hs
      cases continuable with
      | true => exact ExitFinal.of_exitFree hend true
      | false =>
        obtain ⟨rest, rfl, hrest⟩ := hend
        exact ExitFinal.of_newest hrest
    simp only [EStateM.run_get]
    split
    · exact ⟨es, ht, fun hs _ => hfinal hs⟩
    · exact ⟨es, ht, fun hs _ => hfinal hs⟩

lemma ExitFinal.append {es es' : List Event} {b : Bool} (h : ExitFree es) (h' : ExitFinal es' b) :
    ExitFinal (es' ++ es) b := by
  intro p newer older he
  obtain ⟨mid, -, hes⟩ | ⟨mid, hes', hmid⟩ := List.append_eq_append_iff.mp he
  · refine absurd ?_ (h p)
    rw [hes]
    exact List.mem_append_right _ List.mem_cons_self
  · cases mid with
    | nil =>
      refine absurd ?_ (h p)
      rw [List.nil_append] at hmid
      rw [← hmid]
      exact List.mem_cons_self
    | cons e mid =>
      obtain ⟨rfl, -⟩ := List.cons.inj hmid
      exact h' p newer mid hes'

/-- A run that follows a step over a breakpoint. -/
lemma FinalResult.after {m t : Machine} {es : List Event} {b : Bool}
    {r : EStateM.Result Halt Machine (Bool × Bool)} (ht : t.trace = es ++ m.trace)
    (hends : Ends .over es b) (h : FinalResult t r) : FinalResult m r := by
  have hfree : ∀ {es' : List Event}, .exit .slot ∉ es' ++ es → .exit .over ∉ es' ++ es →
      ExitFree es := by
    intro es' hs ho
    have hend := hends.2 (fun hm => hs (List.mem_append_right _ hm))
    cases b with
    | false => exact hend
    | true =>
      obtain ⟨rest, rfl, -⟩ := hend
      exact absurd (List.mem_append_right _ List.mem_cons_self) ho
  cases r with
  | ok r m' =>
    obtain ⟨es', ht', h'⟩ := h
    refine ⟨es' ++ es, by rw [ht', ht, List.append_assoc], fun hs ho => ?_⟩
    exact ExitFinal.append (hfree hs ho) (h' (fun hm => hs (List.mem_append_left _ hm))
      (fun hm => ho (List.mem_append_left _ hm)))
  | error e m' =>
    obtain ⟨es', ht', h'⟩ := h
    refine ⟨es' ++ es, by rw [ht', ht, List.append_assoc], fun hs ho q hq => ?_⟩
    rcases List.mem_append.mp hq with hq | hq
    · exact h' (fun hm => hs (List.mem_append_left _ hm))
        (fun hm => ho (List.mem_append_left _ hm)) q hq
    · exact hfree hs ho q hq

/-- In any run of run_program in which no exit service is executed in a delay slot or in the step
over a breakpoint, nothing executes after an exit service before the run ends uncontinuable. -/
theorem exit_is_final (env : Env) (display : Bool) (depth : ℕ) (pc : Word) (steps : ℕ)
    (contBkpt : Bool) (s : Narrator) (m : Machine) :
    FinalResult m ((runProgram env display depth pc steps contBkpt s).run m) := by
  have hR := printRel_samePath
  have hover : Keeps samePath
      (if contBkpt then instIsBreakpoint env.tbl pc else pure false : Exec Bool) :=
    Keeps.ite (fun _ => hR.instIsBreakpoint _ _) (fun _ => Keeps.pure _)
  have htrace := trace_of_keeps hover m
  rw [runProgram, EStateM.run_bind]
  cases ho : (if contBkpt then instIsBreakpoint env.tbl pc else pure false : Exec Bool).run m with
  | error e t =>
    rw [ho] at htrace
    exact ⟨[], htrace, fun _ _ _ => List.not_mem_nil⟩
  | ok onBkpt t =>
    rw [ho, final_ok] at htrace
    have hstart : t.trace = [] ++ m.trace := htrace
    refine FinalResult.after hstart (Ends.of_exitFree (fun _ => List.not_mem_nil)) ?_
    cases onBkpt with
    | false => exact finalResult_runMain env display depth pc steps s t
    | true =>
      obtain ⟨es, b, ht, hends⟩ := stepOver_ends env display depth pc s t
      simp only [if_true, EStateM.run_bind, EStateM.run_get]
      cases hso : (stepOver env display depth pc s).run t with
      | error e t' =>
        rw [hso] at ht
        exact FinalResult.after ht hends ⟨[], rfl, fun _ _ _ => List.not_mem_nil⟩
      | ok r t' =>
        rw [hso] at ht
        exact FinalResult.after ht hends (finalResult_runMain env display depth t'.pc _ r.2 t')

/-- What a run that returns leaves: whether it can be continued, and its trace. -/
def returned : EStateM.Result Halt Machine (Bool × Bool) → Option (Bool × List Event)
  | .ok (_, continuable) m' => some (continuable, m'.trace)
  | .error _ _ => none

/-- A run from `m` that returned without obeying its exits. -/
def LostExit (m : Machine) (r : EStateM.Result Halt Machine (Bool × Bool)) : Prop :=
  ∃ continuable es, returned r = some (continuable, es ++ m.trace) ∧ ¬ ExitFinal es continuable

lemma LostExit.of_returned {m : Machine} {r : EStateM.Result Halt Machine (Bool × Bool)}
    (p : Place) (es older : List Event) (hm : m.trace = [])
    (h : returned r = some (true, es ++ .exit p :: older)) : LostExit m r := by
  refine ⟨true, es ++ .exit p :: older, by rw [h, hm, List.append_nil], fun hf => ?_⟩
  exact absurd (hf p es older rfl).2 (by decide)

/-- A jump over its delay slot, an exit in the slot, and the jump's target. -/
def exitInSlot : Machine :=
  { Machine.ofText [makeJTypeInst .j 0x100002, makeRTypeInst .syscall 0 0 0,
      makeITypeInst .addiu 8 0 0] with gpr := fun r => if r = 2 then 10 else 0 }

/-- An exit under a breakpoint. -/
def exitUnderBreakpoint : Machine :=
  { Machine.ofText [makeRTypeInst .syscall 0 0 0, makeITypeInst .addiu 8 0 0] with
    gpr := fun r => if r = 2 then 10 else 0
    textSeg := fun k => if k = 0 then some breakInst else some 2
    bkpts := [(0x400000, 1)] }

/-- The target of the jump executes after the exit, the breakpoint is hit again after it, and
both runs can be continued. -/
theorem exit_lost :
    LostExit exitInSlot ((runProgram { Env.quiet with delayedBranches := true } false 2
      0x400000 2 false {}).run exitInSlot) ∧
    LostExit exitUnderBreakpoint ((runProgram Env.quiet false 2 0x400000 2 true {}).run
      exitUnderBreakpoint) := by
  constructor
  · apply LostExit.of_returned .slot [.exec 0x400008 none]
      [.exec 0x400004 none, .exec 0x400000 none] rfl
    decide +kernel
  · apply LostExit.of_returned .over [.exec 0x400000 none] [.exec 0x400000 none] rfl
    decide +kernel

end Spimulator
