import Spimulator.Library.Failure
import Spimulator.Library.CommandRun
import Spimulator.DataMemory
import Spimulator.Load

/-! How a run can end other than by returning: which halts are run-time errors of the simulated
program, and when the switch of run_spim gives the simulator up. -/
namespace Spimulator
open Frame Failure CommandRun

/-- The instruction has a case of its own in the switch. -/
def Inst.implemented (i : Inst) : Bool := i.opcode.any Opcode.executed

/-- The sbrk service asked for a data segment of a size that no int can hold. -/
def Visit.exhausts (v : Visit) : Prop :=
  v.inst.opcode = some .syscall ∧ serviceOf (v.state.gpr regV0) = some .sbrk ∧
    ¬ (0 ≤ (v.state.dataTop - dataBot).toInt + roundUp (v.state.gpr regA0).toInt ∧
      (v.state.dataTop - dataBot).toInt + roundUp (v.state.gpr regA0).toInt < 2^31)

/-- The stack takes up one GiB, half of what an int can hold. -/
def Machine.stackHuge (m : Machine) : Prop := 2^30 ≤ (stackTop - m.stackBot).toNat

/-- A call of fatal_error. -/
def Halt.fatal : Halt → Bool
  | .unknownInstruction | .reallocFailed | .mallocFailed => true
  | _ => false

/-- The halt is no fatal_error, or the newest instruction at the switch is one without a case or an
sbrk of too many bytes, or the stack is huge. -/
def AtSwitch (h : Halt) (m : Machine) : Prop :=
  match h with
  | .unknownInstruction => ∃ v vs, m.visits = v :: vs ∧ v.inst.implemented = false
  | .reallocFailed => ∃ v vs, m.visits = v :: vs ∧ v.exhausts
  | .mallocFailed => m.stackHuge
  | _ => True

lemma atSwitch_of_not_fatal {h : Halt} (hh : h.fatal = false) (m : Machine) : AtSwitch h m := by
  cases h <;> first
    | exact trivial
    | cases hh

abbrev Survives {α : Type} (x : Exec α) : Prop := FailsOnly AtSwitch x

namespace Survives

/-- A halt that is no fatal_error. -/
lemma halt {α : Type} {h : Halt} (hh : h.fatal = false) : Survives (throw h : Exec α) :=
  FailsOnly.throw (atSwitch_of_not_fatal hh)

lemma modify (f : Machine → Machine) : Survives (modify f : Exec Unit) := FailsOnly.modify f

lemma set (m : Machine) : Survives (MonadStateOf.set m : Exec PUnit) := FailsOnly.set m

/-! Memory and devices. -/

lemma ioRead (addr : Word) : Survives ( readMemoryMappedIO addr) := by
  refine FailsOnly.get_bind fun m => ?_
  refine FailsOnly.ite (FailsOnly.pure _) (FailsOnly.ite (FailsOnly.pure _) ?_)
  refine FailsOnly.ite (FailsOnly.pure _) (FailsOnly.ite ?_ (halt rfl))
  exact FailsOnly.bind (modify _) fun _ => FailsOnly.pure _

lemma ioWrite (addr value : Word) : Survives ( writeMemoryMappedIO addr value) := by
  refine FailsOnly.get_bind fun m => ?_
  refine FailsOnly.ite (FailsOnly.ite (set _) (set _)) (FailsOnly.ite ?_ ?_)
  · exact FailsOnly.ite (set _) (FailsOnly.pure _)
  refine FailsOnly.ite (FailsOnly.ite (set _) (set _)) ?_
  exact FailsOnly.ite (FailsOnly.pure _) (halt rfl)

lemma getConsoleChar (h : Host) : Survives (getConsoleChar h) := by
  refine FailsOnly.get_bind fun m => FailsOnly.bind (set _) fun _ => ?_
  exact FailsOnly.ite (halt rfl) (FailsOnly.pure _)

lemma checkIO (h : Host) : Survives ( checkMemoryMappedIO h) := by
  refine FailsOnly.get_bind fun m => FailsOnly.ite (FailsOnly.bind (set _) fun _ => modify _) ?_
  refine FailsOnly.bind (FailsOnly.onlyIf ?_) fun _ => modify _
  exact FailsOnly.bind (getConsoleChar h) fun _ => modify _

lemma textEncoding (addr : Word) : Survives (textEncoding addr) := by
  refine FailsOnly.get_bind fun m => ?_
  cases m.textSeg (Machine.textIndex addr) with
  | none => exact halt rfl
  | some r => exact FailsOnly.pure _

/-- A stack below one GiB can be doubled. -/
lemma expandStack {n : ℤ} (hn : n ≤ 2^24 + 4) : Survives (expandStack n) := by
  intro m
  refine FailsFrom.get_bind (FailsFrom.ite (fun _ => FailsFrom.throw trivial) fun hno => ?_)
  refine FailsFrom.ite (fun hneg => FailsFrom.throw ?_) fun _ => set _ m
  by_contra hsmall
  have hlt : (stackTop - m.stackBot).toNat < 2^30 := Nat.lt_of_not_le hsmall
  have hup := le_roundUp n
  have hmax := roundUp_lt n
  rw [hostInt_of_lt (v := roundUp n) (by omega) (by omega)] at hneg
  rw [hostInt_of_lt (by omega) (by omega)] at hneg
  omega

/-- The bytes asked for to reach an address below the stack. -/
lemma below_le {m : Machine} {a : Word} (h : m.belowStack a) :
    (m.stackBot - a + 4).toInt ≤ 2^24 + 4 := by
  obtain ⟨hlt, hint⟩ := below_toInt h
  have hgt := BitVec.lt_def.mp h.2.2
  have hk : (0x1000000 : Word).toNat = 0x1000000 := rfl
  have hs := m.stackBot.isLt
  rw [BitVec.toNat_sub, hk] at hgt
  omega

lemma badMemRead (addr : Word) (w : Width) : Survives (badMemRead addr w) := by
  refine FailsOnly.get_bind fun m => FailsOnly.ite ?_ (FailsOnly.ite ?_
    (FailsOnly.iteOf (fun hbelow => ?_) fun _ => ?_))
  · exact FailsOnly.bind (modify _) fun _ => FailsOnly.pure _
  · cases w with
    | byte => exact FailsOnly.bind (textEncoding _) fun _ => FailsOnly.pure _
    | half => exact FailsOnly.bind (textEncoding _) fun _ => FailsOnly.pure _
    | word => cases m.textSeg (Machine.textIndex addr) <;> exact FailsOnly.pure _
  · exact FailsOnly.bind (expandStack (below_le hbelow)) fun _ => FailsOnly.pure _
  · exact FailsOnly.ite (ioRead _) (FailsOnly.bind (modify _) fun _ => FailsOnly.pure _)

lemma memRead (w : Width) (addr : Word) : Survives (memRead w addr) :=
  FailsOnly.get_bind fun _ => FailsOnly.ite (FailsOnly.pure _) <| FailsOnly.ite (FailsOnly.pure _) <|
    FailsOnly.ite (FailsOnly.pure _) (badMemRead _ _)

lemma badMemWrite (tbl : AOpcodeTbl) (addr value : Word) (w : Width) :
    Survives (badMemWrite tbl addr value w) := by
  refine FailsOnly.get_bind fun m => FailsOnly.ite (modify _) (FailsOnly.ite (set _) ?_)
  refine FailsOnly.iteOf (fun hbelow => ?_) fun _ => FailsOnly.ite (ioWrite _ _) (modify _)
  exact FailsOnly.bind (expandStack (below_le hbelow)) fun _ =>
    FailsOnly.get_bind fun _ => FailsOnly.ite (set _) (modify _)

lemma memWrite (tbl : AOpcodeTbl) (w : Width) (addr value : Word) :
    Survives (memWrite tbl w addr value) :=
  FailsOnly.get_bind fun _ => FailsOnly.ite (set _) <| FailsOnly.ite (set _) <|
    FailsOnly.ite (set _) (badMemWrite _ _ _ _)

lemma memReadInst (tbl : AOpcodeTbl) (addr : Word) : Survives (memReadInst tbl addr) := by
  refine FailsOnly.get_bind fun m => FailsOnly.ite (FailsOnly.pure _) ?_
  refine FailsOnly.ite (FailsOnly.pure _) (FailsOnly.bind (modify _) fun _ => ?_)
  exact FailsOnly.get_bind fun m => FailsOnly.bind (set _) fun _ => FailsOnly.pure _

lemma memWriteInst (tbl : AOpcodeTbl) (addr : Word) (r : Option InstRef) :
    Survives (memWriteInst tbl addr r) := by
  refine FailsOnly.get_bind fun m => FailsOnly.ite (set _) (FailsOnly.ite (set _) ?_)
  refine FailsOnly.bind (modify _) fun _ => FailsOnly.get_bind fun m => ?_
  cases r with
  | none => exact halt rfl
  | some r => exact memWrite _ _ _ _

/-! Breakpoints, printing and the narrator. -/

lemma instIsBreakpoint (tbl : AOpcodeTbl) (addr : Word) : Survives (instIsBreakpoint tbl addr) :=
  FailsOnly.bind (memReadInst _ _) fun _ => FailsOnly.pure _

lemma addBreakpoint (tbl : AOpcodeTbl) (addr : Word) : Survives (addBreakpoint tbl addr) := by
  refine FailsOnly.bind (FailsOnly.bind (modify _) fun _ => ?_) fun old => ?_
  · refine FailsOnly.bind (memReadInst _ _) fun old => FailsOnly.ite (FailsOnly.pure _) ?_
    exact FailsOnly.bind (memWriteInst _ _ _) fun _ => FailsOnly.get_bind fun _ => FailsOnly.pure _
  · cases old with
    | none => exact FailsOnly.pure _
    | some r => exact modify _

lemma restoreInsts (tbl : AOpcodeTbl) (addr : Word) (bs : List (Word × InstRef)) :
    Survives (restoreInsts tbl addr bs) := by
  induction bs with
  | nil => exact FailsOnly.pure _
  | cons b bs ih => exact FailsOnly.bind (memWriteInst _ _ _) fun _ => ih

lemma deleteBreakpoint (tbl : AOpcodeTbl) (addr : Word) : Survives (deleteBreakpoint tbl addr) :=
  FailsOnly.get_bind fun _ => FailsOnly.bind (restoreInsts _ _ _) fun _ => modify _

lemma formatAnInst (tbl : AOpcodeTbl) (addr : Word) (n : ℕ) :
    Survives (formatAnInst tbl addr n) := by
  induction n with
  | zero => exact halt rfl
  | succ n ih =>
    refine FailsOnly.ite (FailsOnly.pure _) (FailsOnly.bind (instIsBreakpoint _ _) fun b => ?_)
    refine FailsOnly.ite (FailsOnly.bind (deleteBreakpoint _ _) fun _ => ?_) (FailsOnly.pure _)
    exact FailsOnly.bind (memReadInst _ _) fun _ => FailsOnly.bind ih fun _ => addBreakpoint _ _

lemma formatInst (tbl : AOpcodeTbl) (addr : Word) : Survives (formatInst tbl addr) :=
  FailsOnly.get_bind fun _ => formatAnInst _ _ _

lemma instToString (tbl : AOpcodeTbl) (addr : Word) : Survives (instToString tbl addr) := by
  refine FailsOnly.bind (modify _) fun _ => FailsOnly.bind (memReadInst _ _) fun _ => ?_
  exact FailsOnly.get_bind fun _ => FailsOnly.ite (FailsOnly.pure _) (formatInst _ _)

lemma formatInsts (tbl : AOpcodeTbl) (n : ℕ) (addr : Word) :
    Survives (formatInsts tbl n addr) := by
  induction n generalizing addr with
  | zero => exact FailsOnly.pure _
  | succ n ih =>
    refine FailsOnly.bind (memReadInst _ _) fun r => ?_
    cases r with
    | none => exact ih _
    | some r => exact FailsOnly.bind (formatInst _ _) fun _ => ih _

lemma peek (w : Width) (addr : Word) : Survives (peek w addr) :=
  FailsOnly.get_bind fun _ => FailsOnly.bind (memRead _ _) fun _ => modify _

lemma peekAll (ps : List (Width × Word)) : Survives (peekAll ps) := by
  induction ps with
  | nil => exact FailsOnly.pure _
  | cons p ps ih => exact FailsOnly.bind (peek _ _) fun _ => ih

lemma explainBefore (env : Env) (s : Narrator) (i : Inst) (addr : Word) :
    Survives (explainBefore env s i addr) := by
  refine FailsOnly.ite (FailsOnly.pure _) (FailsOnly.bind (FailsOnly.onlyIf ?_) fun _ => ?_)
  · exact FailsOnly.get_bind fun _ => formatInsts _ _ _
  · refine FailsOnly.get_bind fun m => ?_
    cases storeAddr i m with
    | none => exact FailsOnly.pure _
    | some a => exact FailsOnly.bind (peek _ _) fun _ => FailsOnly.pure _

lemma explainAfter (env : Env) (s : Narrator) (i : Inst) : Survives (explainAfter env s i) :=
  FailsOnly.ite (FailsOnly.pure _) <|
    FailsOnly.bind (instToString _ _) fun _ => FailsOnly.onlyIf (peekAll _)

/-! The services. -/

lemma memReference (addr : Word) : Survives (memReference addr) :=
  FailsOnly.get_bind fun _ => FailsOnly.ite (FailsOnly.pure _) <| FailsOnly.ite (FailsOnly.pure _) <|
    FailsOnly.ite (FailsOnly.pure _) <| FailsOnly.ite (FailsOnly.pure _) <|
      FailsOnly.ite (FailsOnly.pure _) (halt rfl)

lemma putBytes (r : MemRef) (bs : List Byte) : Survives (putBytes r bs) := by
  cases r with
  | text => exact FailsOnly.ite (FailsOnly.pure _) (halt rfl)
  | data off | stack off | kData off => exact modify _

lemma readInput (size : ℤ) : Survives (readInput size) :=
  FailsOnly.get_bind fun _ => FailsOnly.bind (set _) fun _ => FailsOnly.pure _

lemma askHost : Survives askHost :=
  FailsOnly.get_bind fun _ => FailsOnly.bind (set _) fun _ => FailsOnly.pure _

lemma readService (env : Env) (sv : Service) : Survives (readService env sv) := by
  refine FailsOnly.get_bind fun m => ?_
  cases sv with
  | readInt => exact FailsOnly.bind (set _) fun _ => modify _
  | readFloat | readDouble | readCharacter =>
    exact FailsOnly.bind (readInput _) fun _ => modify _
  | readString =>
    refine FailsOnly.bind (memReference _) fun r => FailsOnly.bind (readInput _) fun line => ?_
    exact FailsOnly.bind (putBytes _ _) fun _ => modify _
  | _ => exact FailsOnly.pure _

lemma fileService (env : Env) (sv : Service) : Survives (fileService env sv) := by
  refine FailsOnly.get_bind fun m => ?_
  cases sv with
  | «open» =>
    exact FailsOnly.bind (memReference _) fun _ => FailsOnly.bind askHost fun _ => modify _
  | read =>
    refine FailsOnly.bind (memReference _) fun _ => FailsOnly.bind (memReference _) fun r => ?_
    refine FailsOnly.bind askHost fun n => ?_
    exact FailsOnly.bind (putBytes _ _) fun _ => modify _
  | write =>
    refine FailsOnly.bind (memReference _) fun _ => FailsOnly.bind (memReference _) fun _ => ?_
    exact FailsOnly.bind askHost fun _ => modify _
  | close => exact FailsOnly.bind askHost fun _ => modify _
  | _ => exact FailsOnly.pure _

lemma otherService (env : Env) {sv : Service} (hsv : sv ≠ .sbrk) :
    Survives (otherService env sv) := by
  refine FailsOnly.get_bind fun m => ?_
  cases sv with
  | printInt | printFloat | printDouble | printCharacter => exact FailsOnly.pure _
  | printString => exact FailsOnly.bind (memReference _) fun _ => FailsOnly.pure _
  | sbrk => exact absurd rfl hsv
  | «open» | read | write | close => exact fileService env _
  | _ => exact readService env _

/-- The data segment is asked for by the instruction at the switch. -/
lemma expandData {m : Machine} {v : Visit} {vs : List Visit} (hv : m.visits = v :: vs)
    (hop : v.inst.opcode = some .syscall) (hstate : v.state = m.toCore)
    (hsv : serviceOf (m.gpr regV0) = some .sbrk) :
    FailsFrom AtSwitch (expandData (m.gpr regA0).toInt) m := by
  refine FailsFrom.get_bind (FailsFrom.ite (fun _ => FailsFrom.throw trivial) fun hno => ?_)
  refine FailsFrom.ite (fun hneg => FailsFrom.throw ?_) fun _ => modify _ m
  refine ⟨v, vs, hv, hop, by rw [hstate]; exact hsv, ?_⟩
  rw [hstate]
  rintro ⟨hlow, hhigh⟩
  rw [hostInt_add_hostInt, hostInt_of_lt (by omega) hhigh] at hneg
  exact absurd hneg (Int.not_lt.mpr hlow)

/-- A service that is asked for by the instruction at the switch. -/
lemma doSyscall (env : Env) {m : Machine} {v : Visit} {vs : List Visit} (hv : m.visits = v :: vs)
    (hop : v.inst.opcode = some .syscall) (hstate : v.state = m.toCore) :
    FailsFrom AtSwitch (doSyscall env) m := by
  refine FailsFrom.get_bind ?_
  cases hsv : serviceOf (m.gpr regV0) with
  | none => exact FailsFrom.throw trivial
  | some sv =>
    cases sv with
    | exit | exit2 => exact FailsOnly.bind (modify _) (fun _ => FailsOnly.pure _) m
    | sbrk =>
      refine FailsFrom.bind (FailsFrom.get_bind ?_) fun _ t _ => FailsOnly.pure _ t
      exact FailsFrom.bind (expandData hv hop hstate hsv) fun _ t _ => modify _ t
    | _ => exact FailsOnly.bind (otherService env (by simp)) (fun _ => FailsOnly.pure _) m

end Survives

/-! The switch. -/

/-- No fatal_error, and a syscall only for a syscall. -/
def Action.goesOn (i : Inst) : Action → Prop
  | .halt h => h.fatal = false
  | .syscall => i.opcode = some .syscall
  | _ => True

section

variable {i : Inst} {a b : Action}

lemma goesOn_ite {c : Prop} [Decidable c] (ha : a.goesOn i) (hb : b.goesOn i) :
    (if c then a else b).goesOn i := by
  split
  · exact ha
  · exact hb

lemma goesOn_evenRegs (rs : List RegNo) (ha : a.goesOn i) : (evenRegs rs a).goesOn i :=
  goesOn_ite rfl ha

lemma goesOn_compareFp (m : Machine) (fpu : Fpu) (v1 v2 : BitVec 64) :
    (m.compareFp i fpu v1 v2).goesOn i := goesOn_ite (goesOn_ite trivial trivial) trivial

lemma dispatch_goesOn (env : Env) (m : Machine) (himp : i.implemented = true) :
    (dispatch env i m).goesOn i := by
  cases h : i.opcode with
  | none =>
    rw [Inst.implemented, h] at himp
    cases himp
  | some op =>
    rw [Inst.implemented, h] at himp
    cases op
    all_goals first
      | cases himp
        done
      | simp only [dispatch, h]
        first
        | exact trivial
        | exact h
        | exact goesOn_ite trivial trivial
        | exact goesOn_evenRegs _ trivial
        | exact goesOn_evenRegs _ (goesOn_evenRegs _ trivial)
        | exact goesOn_compareFp _ _ _ _
        | exact goesOn_evenRegs _ (goesOn_compareFp _ _ _ _)
        | exact goesOn_ite (goesOn_evenRegs _ (goesOn_evenRegs _ trivial)) trivial

end

/-- The switch gives up exactly at the instructions without a case. -/
theorem dispatch_unknown_iff (env : Env) (i : Inst) (m : Machine) :
    dispatch env i m = .halt .unknownInstruction ↔ i.implemented = false := by
  have hgives : i.implemented = false → dispatch env i m = .halt .unknownInstruction := by
    intro himp
    cases h : i.opcode with
    | none => simp only [dispatch, h]
    | some op =>
      rw [Inst.implemented, h] at himp
      cases op
      all_goals first
        | cases himp
          done
        | simp only [dispatch, h]
  refine ⟨fun hd => ?_, hgives⟩
  cases himp : i.implemented with
  | false => rfl
  | true =>
    have hg := dispatch_goesOn env m himp
    rw [hd] at hg
    cases hg

namespace Survives

section

variable {ν : Type} {env : Env} {slot : ν → Exec ν} (hs : ∀ s, Survives (slot s))

include hs

lemma jumpInst (s : ν) (target : JumpTarget) : Survives (jumpInst env slot s target) := by
  refine FailsOnly.ite (FailsOnly.get_bind fun m => FailsOnly.bind (set _) fun _ => ?_) ?_
  · exact FailsOnly.bind (hs s) fun s => FailsOnly.bind (modify _) fun _ => FailsOnly.pure _
  · exact FailsOnly.bind (modify _) fun _ => FailsOnly.pure _

lemma perform (s : ν) {i : Inst} {a : Action} (ha : a.goesOn i) (hsys : a ≠ .syscall) :
    Survives (perform env slot s a) := by
  have hnext : ∀ {x : Exec Unit}, Survives x → Survives (x >>= fun _ => pure (Flow.next, s)) :=
    fun hx => FailsOnly.bind hx fun _ => FailsOnly.pure _
  cases a with
  | regs g => exact hnext (modify _)
  | raise e => exact hnext (modify _)
  | ctc1 fs v => exact hnext (modify _)
  | load w addr mask dest => exact FailsOnly.bind (memRead _ _) fun v => hnext (modify _)
  | loadPart addr merge rt => exact hnext (FailsOnly.bind (memRead _ _) fun _ => modify _)
  | loadDouble addr ft =>
    refine hnext (FailsOnly.bind (FailsOnly.onlyIf (modify _)) fun _ => ?_)
    refine FailsOnly.bind (memRead _ _) fun _ => FailsOnly.bind (modify _) fun _ => ?_
    exact FailsOnly.bind (memRead _ _) fun _ => modify _
  | store w addr v => exact hnext (memWrite _ _ _ _)
  | storePart addr merge => exact hnext (FailsOnly.bind (memRead _ _) fun _ => memWrite _ _ _ _)
  | storeDouble addr lo hi =>
    refine hnext (FailsOnly.bind (FailsOnly.onlyIf (modify _)) fun _ => ?_)
    exact FailsOnly.bind (memWrite _ _ _ _) fun _ => memWrite _ _ _ _
  | branch g test target nullify =>
    refine FailsOnly.bind (modify _) fun _ => FailsOnly.ite ?_ ?_
    · exact FailsOnly.bind (jumpInst hs _ _) fun _ => FailsOnly.pure _
    · exact FailsOnly.bind (modify _) fun _ => FailsOnly.pure _
  | jump g target =>
    refine FailsOnly.bind (modify _) fun _ => ?_
    exact FailsOnly.bind (jumpInst hs _ _) fun _ => FailsOnly.pure _
  | debugBreak => exact FailsOnly.bind (modify _) fun _ => FailsOnly.pure _
  | syscall => exact absurd rfl hsys
  | halt h => exact halt ha

end

/-! Steps and runs. -/

lemma fetch (env : Env) : Survives (fetch env) := by
  refine FailsOnly.bind (modify _) fun _ => FailsOnly.get_bind fun m => ?_
  refine FailsOnly.bind (memReadInst _ _) fun r => FailsOnly.get_bind fun m => ?_
  refine FailsOnly.ite (FailsOnly.pure _) ?_
  cases r with
  | none => exact halt rfl
  | some r =>
    dsimp only
    split
    · exact FailsOnly.pure _
    · exact FailsOnly.ite (halt rfl) (FailsOnly.pure _)

lemma stepHead (env : Env) : Survives (stepHead env) :=
  FailsOnly.bind (modify _) fun _ => FailsOnly.bind askHost fun _ => FailsOnly.onlyIf (modify _)

lemma finishStep (env : Env) (display : Bool) (s : Narrator) (i : Inst) :
    Survives (finishStep env display s i) := by
  refine FailsOnly.bind (modify _) fun _ => FailsOnly.bind (explainAfter _ _ _) fun _ => ?_
  refine FailsOnly.get_bind fun m => FailsOnly.bind (FailsOnly.onlyIf ?_) fun _ => modify _
  exact instToString _ _

end Survives

/-- The switch is entered with the instruction at the head of the history. -/
lemma survives_switch {env : Env} {slot : Narrator → Exec Narrator} (hs : ∀ s, Survives (slot s))
    (s : Narrator) (i : Inst) : Survives (do
      modify (logInst i)
      let m ← get
      perform env slot s (dispatch env i m)) := by
  intro m e t h
  change (perform env slot s (dispatch env i (logInst i m))).run (logInst i m) = .error e t at h
  cases himp : i.implemented with
  | false =>
    rw [(dispatch_unknown_iff env i _).mpr himp] at h
    cases h
    exact ⟨_, _, rfl, himp⟩
  | true =>
    have hgo := dispatch_goesOn env (logInst i m) himp
    generalize dispatch env i (logInst i m) = a at h hgo
    by_cases hsys : a = .syscall
    · subst a
      have hfrom : FailsFrom AtSwitch (doSyscall env) (logInst i m) :=
        Survives.doSyscall env (v := ⟨i, m.toCore⟩) rfl hgo rfl
      exact FailsFrom.bind hfrom (fun _ t _ => FailsOnly.pure _ t) e t h
    · exact Survives.perform hs s hgo hsys _ e t h

namespace Survives

lemma step {env : Env} (display : Bool) {slot : Narrator → Exec Narrator}
    (hs : ∀ s, Survives (slot s)) (s : Narrator) : Survives (step env display slot s) := by
  refine FailsOnly.bind (stepHead env) fun _ => FailsOnly.bind (fetch env) fun r => ?_
  cases r with
  | none => exact FailsOnly.bind (modify _) fun _ => FailsOnly.pure _
  | some i =>
    refine FailsOnly.bind ?_ fun r => ?_
    · refine FailsOnly.bind (modify _) fun _ => FailsOnly.get_bind fun m => ?_
      exact FailsOnly.bind (explainBefore _ _ _ _) fun s => survives_switch hs s i
    · obtain ⟨flow, s⟩ := r
      cases flow with
      | next => exact FailsOnly.bind (finishStep _ _ _ _) fun _ => FailsOnly.pure _
      | pause => exact FailsOnly.pure _
      | stop => exact FailsOnly.pure _

lemma poll (env : Env) : Survives (poll env) :=
  FailsOnly.bind (FailsOnly.onlyIf ( checkIO _)) fun _ => modify _

lemma runLoop {env : Env} (display : Bool) {slot : Narrator → Exec Narrator}
    (hs : ∀ s, Survives (slot s)) (n k : ℕ) (s : Narrator) :
    Survives (runLoop env display slot s k n) := by
  induction n generalizing k s with
  | zero => exact FailsOnly.pure _
  | succ n ih =>
    refine FailsOnly.bind (FailsOnly.onlyIf (poll env)) fun _ => ?_
    refine FailsOnly.bind (step display hs s) fun r => ?_
    obtain ⟨flow, s⟩ := r
    cases flow with
    | next => exact ih _ s
    | pause => exact FailsOnly.pure _
    | stop => exact FailsOnly.pure _

/-- run_spim, by induction on how deep its calls for delay slots go. -/
lemma runSpim (env : Env) (display : Bool) (depth : ℕ) (pc : Word) (n : ℕ) (s : Narrator) :
    Survives (runSpim env display depth pc n s) := by
  induction depth generalizing pc n s with
  | zero => exact halt rfl
  | succ depth ih =>
    refine FailsOnly.bind (modify _) fun _ => runLoop display (fun s => ?_) _ _ _
    exact FailsOnly.get_bind fun m => FailsOnly.bind (ih _ _ _) fun _ => FailsOnly.pure _

/-! run_program. -/

lemma stepOver (env : Env) (display : Bool) (depth : ℕ) (pc : Word) (s : Narrator) :
    Survives (stepOver env display depth pc s) := by
  refine FailsOnly.get_bind fun m => FailsOnly.bind (deleteBreakpoint _ _) fun _ => ?_
  refine FailsOnly.bind (modify _) fun _ => FailsOnly.bind (runSpim env display depth _ 1 s) ?_
  exact fun r => FailsOnly.bind (addBreakpoint _ _) fun _ => FailsOnly.pure _

lemma runMain (env : Env) (display : Bool) (depth : ℕ) (pc : Word) (steps : ℕ) (s : Narrator) :
    Survives (runMain env display depth pc steps s) := by
  refine FailsOnly.bind (modify _) fun _ => FailsOnly.bind (runSpim _ _ _ _ _ _) fun r => ?_
  refine FailsOnly.get_bind fun m => FailsOnly.ite ?_ (FailsOnly.pure _)
  exact FailsOnly.bind (modify _) fun _ => FailsOnly.pure _

lemma runProgram (env : Env) (display : Bool) (depth : ℕ) (pc : Word) (steps : ℕ)
    (contBkpt : Bool) (s : Narrator) :
    Survives (runProgram env display depth pc steps contBkpt s) := by
  refine FailsOnly.bind ?_ fun onBkpt => FailsOnly.ite ?_ (runMain _ _ _ _ _ _)
  · exact FailsOnly.ite (instIsBreakpoint _ _) (FailsOnly.pure _)
  · refine FailsOnly.bind (stepOver _ _ _ _ _) fun r => FailsOnly.get_bind fun m => ?_
    exact runMain _ _ _ _ _ _

end Survives

/-- `add $9, $8, $8` and a jump back to it. -/
def addsForever : Machine :=
  Machine.ofText [makeRTypeInst .add 9 8 8, makeITypeInst .beq 0 0 0xffff]

/-- The run ends in the fatal_error of the switch. -/
def endsFatally (m : Machine) : Bool :=
  match (runProgram Env.quiet false 1 0x400000 8 false {}).run m with
  | .error .unknownInstruction _ => true
  | _ => false

/-- `main: deret` -/
def oneDeret : List Lexeme :=
  [.ident "main" none, .punct ':', .ident "deret" (some (.op .deret)), .nl]

/-- A program that stores -1 over its fourth instruction. -/
def storesInText : Machine :=
  Machine.ofText [makeITypeInst .lui 8 0 0x40, makeITypeInst .addi 9 0 0xffff,
    makeITypeInst .sw 9 8 0xc, makeRTypeInst .add 9 8 8]

end Spimulator
