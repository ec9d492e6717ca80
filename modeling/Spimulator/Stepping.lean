import Spimulator.Library.PolledLoop
import Spimulator.ExitFinal

/-! Where run_spim polls, and when one call does what two calls for parts of its steps do. -/
namespace Spimulator
open Frame PolledLoop

/-- The steps of a call at whose head it polls: the first, and the head of each chunk. -/
def pollsAt (env : Env) (i : ℕ) : Bool :=
  if ¬ env.bareMachine ∧ env.mappedIO then i % ioInterval = 0 else i = 0

/-- The steps left in the chunk that step `i` of a call is in, when `n` steps remain. -/
def chunkLeft (env : Env) (i n : ℕ) : ℕ :=
  if pollsAt env i then 0
  else if ¬ env.bareMachine ∧ env.mappedIO then min (ioInterval - i % ioInterval) n else n

/-- The polled loop that the two loops of run_spim make up. -/
def stepLoop (env : Env) (display : Bool) (slot : Narrator → Exec Narrator) (polls : ℕ → Bool)
    (s : Narrator) (i n : ℕ) : Exec (Flow × Narrator) :=
  loop .next (poll env) (step env display slot) polls s i n

/-- What run_spim returns: false only after a stop. -/
def endRun (r : Flow × Narrator) : Exec (Bool × Narrator) := pure (r.1 ≠ .stop, r.2)

lemma pollsAt_mapped {env : Env} (hm : ¬ env.bareMachine ∧ env.mappedIO) (i : ℕ) :
    pollsAt env i = true ↔ i % 100 = 0 := by
  rw [pollsAt, if_pos hm, decide_eq_true_eq]
  rfl

lemma pollsAt_unmapped {env : Env} (hm : ¬ (¬ env.bareMachine ∧ env.mappedIO)) (i : ℕ) :
    pollsAt env i = true ↔ i = 0 := by
  rw [pollsAt, if_neg hm, decide_eq_true_eq]

lemma chunkLeft_mapped {env : Env} (hm : ¬ env.bareMachine ∧ env.mappedIO) (i n : ℕ) :
    chunkLeft env i n = if i % 100 = 0 then 0 else min (100 - i % 100) n := by
  rw [chunkLeft, if_congr (pollsAt_mapped hm i) rfl rfl, if_pos hm]
  rfl

lemma chunkLeft_unmapped {env : Env} (hm : ¬ (¬ env.bareMachine ∧ env.mappedIO)) (i n : ℕ) :
    chunkLeft env i n = if i = 0 then 0 else n := by
  rw [chunkLeft, if_congr (pollsAt_unmapped hm i) rfl rfl, if_neg hm]

lemma chunkLeft_zero_iff (env : Env) (i n : ℕ) :
    chunkLeft env i (n+1) = 0 ↔ pollsAt env i = true := by
  by_cases hm : ¬ env.bareMachine ∧ env.mappedIO
  · rw [chunkLeft_mapped hm, pollsAt_mapped hm]
    split <;> omega
  · rw [chunkLeft_unmapped hm, pollsAt_unmapped hm]
    split <;> omega

/-- The chunk's remainder after step `i`. -/
lemma chunkLeft_succ (env : Env) (i n : ℕ) :
    (if chunkLeft env i (n+1) = 0 then stepSize env (n+1) else chunkLeft env i (n+1)) - 1 =
      chunkLeft env (i+1) n := by
  rw [if_congr (chunkLeft_zero_iff env i n) rfl rfl, stepSize]
  by_cases hm : ¬ env.bareMachine ∧ env.mappedIO
  · rw [if_congr (pollsAt_mapped hm i) rfl rfl, if_pos hm, chunkLeft_mapped hm,
      chunkLeft_mapped hm, ioInterval]
    have hdiv := Nat.div_add_mod i 100
    by_cases hi : i % 100 = 0
    · have hi' : (i+1) % 100 = 1 := by omega
      rw [if_pos hi, hi', if_neg (by decide)]
      omega
    · rw [if_neg hi, if_neg hi]
      split <;> omega
  · rw [if_congr (pollsAt_unmapped hm i) rfl rfl, if_neg hm, chunkLeft_unmapped hm,
      chunkLeft_unmapped hm, if_neg (Nat.succ_ne_zero i)]
    split <;> omega

theorem runLoop_eq (env : Env) (display : Bool) (slot : Narrator → Exec Narrator) (s : Narrator)
    (i n : ℕ) : runLoop env display slot s (chunkLeft env i n) n =
      stepLoop env display slot (pollsAt env) s i n >>= endRun := by
  induction n generalizing s i with
  | zero =>
    simp only [runLoop, stepLoop, loop, pure_bind, endRun]
    rfl
  | succ n ih =>
    rw [runLoop, stepLoop, loop, bind_assoc]
    have hpoll : onlyIf (chunkLeft env i (n+1) = 0) (poll env) =
        onlyIf (pollsAt env i = true) (poll env) := by
      unfold onlyIf
      rw [if_congr (chunkLeft_zero_iff env i n) rfl rfl]
    rw [hpoll]
    refine bind_congr fun _ => ?_
    rw [bind_assoc]
    refine bind_congr fun r => ?_
    obtain ⟨flow, s'⟩ := r
    cases flow with
    | next =>
      simp only [chunkLeft_succ, resume, if_true]
      exact ih s' (i+1)
    | pause => rfl
    | stop => rfl

/-! The exception flag after a step. -/

/-- A step that goes on has delivered its exceptions; a breakpoint leaves its own undelivered. -/
def FlagShows (r : Flow × Narrator) (t : Machine) : Prop :=
  (r.1 = .next → t.exceptionOccurred = false) ∧ (r.1 = .pause → t.exceptionOccurred = true)

lemma deliver_flag (m : Machine) : (deliver m).exceptionOccurred = false := by
  unfold deliver
  split
  · rfl
  · simpa using ‹¬ m.exceptionOccurred = true›

lemma raiseException_flag {m : Machine} {e : ExcCode} (he : e ≠ .int) :
    (m.raiseException e).exceptionOccurred = true := by
  rw [Machine.raiseException, if_pos (Or.inl he)]
  obtain ⟨f, hf⟩ := Machine.recordFirstBad_eq { m with exceptionOccurred := true } e
  obtain ⟨c, hc⟩ :=
    Machine.recordEpc_eq { m with exceptionOccurred := true, firstBadException := f }
  simp only [hf, hc]
  rfl

/-- Only a breakpoint makes the switch return true. -/
lemma perform_pause (env : Env) (slot : Narrator → Exec Narrator) (s : Narrator) (a : Action) :
    Returns (fun r t => r.1 = .pause → t.exceptionOccurred = true) (perform env slot s a) := by
  have hnext : ∀ {x : Exec Unit}, Returns
      (fun (r : Flow × Narrator) t => r.1 = .pause → t.exceptionOccurred = true)
      (x >>= fun _ => pure (.next, s)) := by
    intro x
    refine Returns.last fun _ => ?_
    rintro m r t ⟨⟩ h
    cases h
  have hjump : ∀ (target : JumpTarget), Returns
      (fun (r : Flow × Narrator) t => r.1 = .pause → t.exceptionOccurred = true)
      (jumpInst env slot s target >>= fun s => pure (.next, s)) := by
    intro target
    refine Returns.last fun s => ?_
    rintro m r t ⟨⟩ h
    cases h
  cases a with
  | debugBreak =>
    refine Returns.bind (Q := fun _ t => t.exceptionOccurred = true)
      (Returns.modify fun m => raiseException_flag (by decide)) ?_
    rintro _ t ht r t' ⟨⟩ -
    exact ht
  | syscall =>
    refine Returns.last fun continuing => ?_
    rintro m r t ⟨⟩ h
    cases continuing <;> cases h
  | branch g test target nullify =>
    refine Returns.last fun _ => ?_
    cases test with
    | true => exact hjump _
    | false => exact hnext
  | jump g target => exact Returns.last fun _ => hjump _
  | halt h => exact Returns.throw h
  | load w addr mask dest => exact Returns.last fun _ => hnext
  | regs | raise | ctc1 | loadPart | loadDouble | store | storePart | storeDouble => exact hnext

lemma step_flag (env : Env) (display : Bool) (slot : Narrator → Exec Narrator) (s : Narrator) :
    Returns FlagShows (step env display slot s) := by
  refine Returns.last fun _ => Returns.last fun r => ?_
  cases r with
  | none =>
    rintro m r t ⟨⟩
    exact ⟨fun _ => rfl, nofun⟩
  | some i =>
    refine Returns.bind
      (Q := fun r t => r.1 = .pause → t.exceptionOccurred = true) ?_ ?_
    · exact Returns.last fun _ => Returns.last fun _ => Returns.last fun s => Returns.last fun _ =>
        Returns.last fun m => perform_pause env slot s _
    · rintro ⟨flow, s'⟩ m hm
      cases flow with
      | next =>
        refine Returns.bind (Q := fun _ t => t.exceptionOccurred = false) ?_ ?_ m
        · exact Returns.last fun _ => Returns.last fun _ => Returns.last fun _ =>
            Returns.last fun _ => Returns.modify deliver_flag
        · rintro _ t ht r t' ⟨⟩
          exact ⟨fun _ => ht, nofun⟩
      | pause =>
        rintro r t ⟨⟩
        exact ⟨nofun, fun _ => hm rfl⟩
      | stop =>
        rintro r t ⟨⟩
        exact ⟨nofun, nofun⟩

/-- A run that began with the flag clear ends with the flag of its last step. -/
lemma stepLoop_flag {env : Env} {display : Bool} {slot : Narrator → Exec Narrator}
    {polls : ℕ → Bool} {s : Narrator} {i n : ℕ} {m t : Machine} {r : Flow × Narrator}
    (hm : m.exceptionOccurred = false)
    (h : (stepLoop env display slot polls s i n).run m = .ok r t) : FlagShows r t := by
  unfold stepLoop at h
  induction n generalizing s i m r t with
  | zero =>
    cases h
    exact ⟨fun _ => hm, nofun⟩
  | succ n ih =>
    have hstep : Returns FlagShows
        (loop .next (poll env) (step env display slot) polls s i (n+1)) := by
      refine Returns.last fun _ => Returns.bind (step_flag env display slot s) ?_
      rintro ⟨flow, s'⟩ m' hm' r t h
      by_cases hf : flow = .next
      · rw [resume, if_pos hf] at h
        exact ih (hm'.1 hf) h
      · rw [resume, if_neg hf] at h
        cases h
        exact hm'
    exact hstep m r t h

/-! Splitting a call. -/

/-- What a poll meets when it does nothing: idle devices and no interrupt to take. -/
def Settled (env : Env) (m : Machine) : Prop :=
  (¬ env.bareMachine ∧ env.mappedIO → m.recvBufferFullTimer = 0 ∧
    env.host.inputAvailable m.hostCalls = false ∧ m.transBufferFullTimer = 0 ∧
    m.transControl &&& readyBit ≠ 0) ∧ ¬ interruptPending m

instance (env : Env) (m : Machine) : Decidable (Settled env m) :=
  inferInstanceAs (Decidable (_ ∧ _))

lemma poll_settled {env : Env} {m : Machine} (h : Settled env m) :
    (poll env).run m = .ok () m := by
  obtain ⟨hdev, hint⟩ := h
  have htake : takeInterrupt m = m := if_neg hint
  unfold poll
  by_cases hm : ¬ env.bareMachine ∧ env.mappedIO
  · obtain ⟨hrecv, hinput, htrans, hready⟩ := hdev hm
    have hcheck : ( checkMemoryMappedIO env.host).run m = .ok () m := by
      have hdone : m.transmitDone = m := by
        rw [Machine.transmitDone, if_neg (by omega), if_neg hready]
      simp only [ checkMemoryMappedIO, EStateM.run_bind, EStateM.run_get, hrecv, Nat.lt_irrefl,
        if_false]
      rw [onlyIf_neg (by simp [hinput])]
      simp only [EStateM.run_pure, EStateM.run_modify, hdone]
    rw [onlyIf_pos hm, EStateM.run_bind, hcheck]
    simp only [EStateM.run_modify, htake]
  · rw [onlyIf_neg hm, EStateM.run_bind, EStateM.run_pure]
    simp only [EStateM.run_modify, htake]

/-- A call for `m` steps and, unless a breakpoint or an exit ended it, a call for `n` steps from
the PC reached. -/
def twoCalls (env : Env) (display : Bool) (depth : ℕ) (pc : Word) (m n : ℕ) (s : Narrator) :
    Exec (Bool × Narrator) := do
  let (continuable, s) ← runSpim env display depth pc m s
  let t ← get
  if continuable ∧ ¬ t.exceptionOccurred then runSpim env display depth t.pc n s
  else pure (continuable, s)

lemma runSpim_eq (env : Env) (display : Bool) (depth : ℕ) (pc : Word) (n : ℕ) (s : Narrator)
    (m : Machine) : (runSpim env display (depth+1) pc n s).run m =
      (stepLoop env display (runSlot env display depth) (pollsAt env) s 0 n >>= endRun).run
        { m with pc := pc } := by
  have hstart : chunkLeft env 0 n = 0 := by
    rw [chunkLeft, if_pos]
    unfold pollsAt
    split <;> rfl
  rw [runSpim_succ, EStateM.run_bind, EStateM.run_modify]
  have hloop := runLoop_eq env display (runSlot env display depth) s 0 n
  rw [hstart] at hloop
  simp only [hloop]

/-- One call for m+n steps does what a call for m steps and then one for n steps do, when every
poll that only one of the two ways makes meets a settled machine. -/
theorem stepping_equals_running (env : Env) (display : Bool) (depth : ℕ) (pc : Word) (m n : ℕ)
    (s : Narrator) (start : Machine) (hflag : start.exceptionOccurred = false)
    (hpolls : ∀ j < n, pollsAt env (m+j) ≠ pollsAt env j → ∀ s' t,
      (runSpim env display depth pc (m+j) s).run start = .ok (true, s') t →
      t.exceptionOccurred = false → Settled env t) :
    (runSpim env display depth pc (m+n) s).run start =
      (twoCalls env display depth pc m n s).run start := by
  cases depth with
  | zero => rfl
  | succ depth =>
    rw [twoCalls, EStateM.run_bind]
    simp only [runSpim_eq] at hpolls ⊢
    rw [EStateM.run_bind, EStateM.run_bind]
    have hadd := loop_add .next (poll env) (step env display (runSlot env display depth))
      (pollsAt env) s 0 m n
    rw [stepLoop, hadd, EStateM.run_bind]
    cases hr : (loop .next (poll env) (step env display (runSlot env display depth)) (pollsAt env)
        s 0 m).run { start with pc := pc } with
    | error e t => simp only [stepLoop, hr]
    | ok r t =>
      obtain ⟨flow, s'⟩ := r
      have hshows : FlagShows (flow, s') t :=
        stepLoop_flag (m := { start with pc := pc }) hflag hr
      simp only [stepLoop, hr, endRun, EStateM.run_pure]
      cases flow with
      | stop => rfl
      | pause =>
        have hstop : ¬ (decide (Flow.pause ≠ Flow.stop) = true ∧ ¬ t.exceptionOccurred = true) :=
          fun h => h.2 (hshows.2 rfl)
        rw [EStateM.run_bind, EStateM.run_get]
        simp only [if_neg hstop]
        rfl
      | next =>
        have hrest : (loop .next (poll env) (step env display (runSlot env display depth))
            (pollsAt env) s' (0+m) n).run t =
            (loop .next (poll env) (step env display (runSlot env display depth))
              (pollsAt env) s' 0 n).run t := by
          apply loop_congr
          rintro j hj hne u ⟨s'', hu⟩
          rw [Nat.zero_add, Nat.zero_add] at hne
          have hrun : (stepLoop env display (runSlot env display depth) (pollsAt env) s 0
              (m+j)).run { start with pc := pc } = .ok (.next, s'') u := by
            rw [stepLoop, loop_add, EStateM.run_bind, hr]
            exact hu
          refine poll_settled (hpolls j hj hne s'' u ?_ ((stepLoop_flag ?_ hrun).1 rfl))
          · simp only [EStateM.run_bind, hrun]
            rfl
          · exact hflag
        have hgo : decide (Flow.next ≠ Flow.stop) = true ∧ ¬ t.exceptionOccurred = true :=
          ⟨rfl, by rw [hshows.1 rfl]; decide⟩
        rw [EStateM.run_bind, EStateM.run_get]
        simp only [resume, if_true, hrest, if_pos hgo]
        rw [runSpim_eq, stepLoop, EStateM.run_bind]
        rfl

/-- What holds of the machine that a run leaves if it returns. -/
def leaves (p : Machine → Bool) : EStateM.Result Halt Machine (Bool × Narrator) → Bool
  | .ok _ m => p m
  | .error _ _ => true

/-- Two additions, for a split in the middle. -/
def twoAdds : Machine :=
  Machine.ofText [makeITypeInst .addiu 8 8 1, makeITypeInst .addiu 8 8 1]

theorem stepping_equals_running_twoAdds :
    (runSpim Env.quiet false 1 0x400000 2 {}).run twoAdds =
      (twoCalls Env.quiet false 1 0x400000 1 1 {}).run twoAdds := by
  refine stepping_equals_running Env.quiet false 1 0x400000 1 1 {} twoAdds rfl ?_
  intro j hj _ s' t hrun _
  obtain rfl : j = 0 := by omega
  have hleaves : leaves (fun m => decide (Settled Env.quiet m))
      ((runSpim Env.quiet false 1 0x400000 (1+0) {}).run twoAdds) = true := by decide +kernel
  rw [hrun] at hleaves
  exact of_decide_eq_true hleaves

/-- A program that makes an interrupt pending and then enables it. -/
def enablesInterrupt : Machine :=
  { Machine.ofText [makeRCoTypeInst .mtc0 0 13 8, makeRCoTypeInst .mtc0 0 12 9,
      makeITypeInst .addiu 10 10 1] with
    gpr := fun r => if r = 8 then 0x100 else if r = 9 then 0xff01 else 0 }

/-- One call runs on past the point where the interrupt is enabled; a call that starts there takes
the interrupt. -/
theorem split_takes_interrupt : ¬ ∀ (env : Env) (display : Bool) (depth : ℕ) (pc : Word) (m n : ℕ)
    (s : Narrator) (start : Machine), (∀ k, env.host.inputAvailable k = false) →
    (∀ k, env.host.timerExpired k = false) → start.exceptionOccurred = false →
    (runSpim env display depth pc (m+n) s).run start =
      (twoCalls env display depth pc m n s).run start := by
  intro h
  have hsplit := h Env.quiet false 1 0x400000 2 1 {} enablesInterrupt (fun _ => rfl) (fun _ => rfl)
    rfl
  have hone : leaves (fun m => m.pc = 0x40000c)
      ((runSpim Env.quiet false 1 0x400000 (2+1) {}).run enablesInterrupt) = true := by
    decide +kernel
  have htwo : leaves (fun m => m.pc = 0x40000c)
      ((twoCalls Env.quiet false 1 0x400000 2 1 {}).run enablesInterrupt) = false := by
    decide +kernel
  rw [hsplit, htwo] at hone
  cases hone

end Spimulator
