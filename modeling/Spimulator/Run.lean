import Spimulator.Explain
import Spimulator.Syscall

/-! run_spim: the execution of what the switch asks for, one step, and the loops around it. -/
namespace Spimulator
open Frame

/-- How a case leaves the switch: falls out of it, or returns true or false from run_spim. -/
inductive Flow
  | next | pause | stop
  deriving DecidableEq, Repr

namespace Machine

def setDest (m : Machine) (d : LoadDest) (v : Word) : Machine :=
  match d with
  | .gpr r => m.setGpr r v
  | .fpr r => m.setFpr r v

/-- LOAD_INST_BASE: the result of a load, now or one instruction later. -/
def loadInst (env : Env) (d : LoadDest) (v : Word) (m : Machine) : Machine :=
  if env.delayedLoads then { m with delayedLoad1 := some (d, v) } else m.setDest d v

/-- DO_DELAYED_UPDATE -/
def doDelayedUpdate (env : Env) (m : Machine) : Machine :=
  if env.delayedLoads then
    let m := match m.delayedLoad2 with
      | some (d, v) => m.setDest d v
      | none => m
    { m with delayedLoad2 := m.delayedLoad1, delayedLoad1 := none }
  else m

def jumpTarget (m : Machine) : JumpTarget → Word
  | .addr a => a
  | .region t => (m.pc &&& 0xf0000000) ||| (t <<< 2)
  | .epc => m.epc

/-- ctc1: a write of unsupported bits to FCSR is an exception, and a write all the same. -/
def ctc1 (m : Machine) (fs : RegNo) (v : Word) : Machine :=
  let m := m.setFcr fs v
  if fs = 31 ∧ v &&& ~~~fcsrMask ≠ 0 then m.raiseException .fpe else m

end Machine

section

variable {ν : Type} (env : Env) (slot : ν → Exec ν)

/-- JUMP_INST: with delayed branches the next instruction runs first. -/
def jumpInst (s : ν) (target : JumpTarget) : Exec ν := do
  if env.delayedBranches then
    let m ← get
    set { m with runningInDelaySlot := true, place := .slot }
    let s ← slot s
    modify fun m' => { m' with
      runningInDelaySlot := false
      place := m.place
      pc := m'.jumpTarget target - 4 }
    pure s
  else
    modify fun m => { m with pc := m.jumpTarget target - 4 }
    pure s

/-- ldc1 reads twice even when its address is not aligned. -/
def loadDouble (addr : Word) (ft : RegNo) : Exec Unit := do
  onlyIf (addr &&& 3 ≠ 0) (modify fun m => m.raiseAddr .adEL addr)
  let v ← memReadWord addr
  modify (Machine.loadInst env (.fpr ft) v)
  let v ← memReadWord (addr + 4)
  modify (Machine.loadInst env (.fpr (ft+1)) v)

def storeDouble (addr lo hi : Word) : Exec Unit := do
  onlyIf (addr &&& 3 ≠ 0) (modify fun m => m.raiseAddr .adEL addr)
  memWriteWord env.tbl addr lo
  memWriteWord env.tbl (addr + 4) hi

/-- lwl and lwr merge the word they read unless the read failed. -/
def loadPart (addr : Word) (merge : Word → Word) (rt : RegNo) : Exec Unit := do
  let word ← memReadWord (addr &&& 0xfffffffc)
  modify fun m => m.loadInst env (.gpr rt) (if m.exceptionOccurred then word else merge word)

/-- swl and swr write back the word they read. -/
def storePart (addr : Word) (merge : Word → Word) : Exec Unit := do
  let data ← memReadWord (addr &&& 0xfffffffc)
  memWriteWord env.tbl (addr &&& 0xfffffffc) (merge data)

/-- Carrying out a case of the switch. -/
def perform (s : ν) (a : Action) : Exec (Flow × ν) := do
  match a with
  | .regs g =>
    modify fun m => m.setRegs g
    pure (.next, s)
  | .raise e =>
    modify fun m => m.raiseException e
    pure (.next, s)
  | .ctc1 fs v =>
    modify fun m => m.ctc1 fs v
    pure (.next, s)
  | .load w addr mask dest =>
    let v ← memRead w addr
    modify (Machine.loadInst env dest (v &&& mask))
    pure (.next, s)
  | .loadPart addr merge rt =>
    loadPart env addr merge rt
    pure (.next, s)
  | .loadDouble addr ft =>
    loadDouble env addr ft
    pure (.next, s)
  | .store w addr v =>
    memWrite env.tbl w addr v
    pure (.next, s)
  | .storePart addr merge =>
    storePart env addr merge
    pure (.next, s)
  | .storeDouble addr lo hi =>
    storeDouble env addr lo hi
    pure (.next, s)
  | .branch g test target nullify =>
    modify fun m => m.setRegs g
    if test then
      let s ← jumpInst env slot s (.addr (if env.delayedBranches then target + 4 else target))
      pure (.next, s)
    else
      modify fun m => { m with pc := if nullify then m.pc + 4 else m.pc }
      pure (.next, s)
  | .jump g target =>
    modify fun m => m.setRegs g
    let s ← jumpInst env slot s target
    pure (.next, s)
  | .debugBreak =>
    modify fun m => m.raiseException .bp
    pure (.pause, s)
  | .syscall =>
    let continuing ← doSyscall env
    pure (if continuing then .next else .stop, s)
  | .halt h => throw h

end

/-! One step. -/

/-- The timer of coprocessor 0. -/
def bumpCP0Timer (m : Machine) : Machine :=
  let m := m.setCp0 9 (m.count + 1)
  if m.count = m.compare then m.raiseInterrupt 7 else m

/-- $0 is cleared and the timer polled at the head of a step. -/
def stepHead (env : Env) : Exec Unit := do
  modify fun m => m.setGpr 0 0
  let n ← askHost
  onlyIf (env.host.timerExpired n) (modify bumpCP0Timer)

/-- The instruction at PC, or none when fetching it was an exception. -/
def fetch (env : Env) : Exec (Option Inst) := do
  modify fun m => { m with exceptionOccurred := false }
  let m ← get
  let r ← memReadInst env.tbl m.pc
  let m ← get
  if m.exceptionOccurred then pure none
  else
    match r with
    | none => throw (.nonInstruction m.pc)
    | some r =>
      let i := m.insts r
      match i.expr.bind ImmExpr.symbol with
      | none => pure (some i)
      | some l => if (m.labels l).addr = 0 then throw (.undefinedSymbol m.pc) else pure (some i)

section

variable (env : Env) (display : Bool) (slot : Narrator → Exec Narrator)

/-- What the history shows of an instruction at the switch. -/
def instEvents (i : Inst) (m : Machine) : List Event :=
  match i.opcode with
  | some .mtc0 => [.mtc0 i.fs, .exec m.pc none]
  | some .eret => [.eret, .exec m.pc none]
  | _ => [.exec m.pc (storeAddr i m)]

def logInst (i : Inst) (m : Machine) : Machine :=
  { m with trace := instEvents i m ++ m.trace, visits := ⟨i, m.toCore⟩ :: m.visits }

/-- From the fetched instruction to the end of the switch. -/
def execInst (s : Narrator) (i : Inst) : Exec (Flow × Narrator) := do
  modify (Machine.doDelayedUpdate env)
  let m ← get
  let s ← explainBefore env s i m.pc
  modify (logInst i)
  let m ← get
  perform env slot s (dispatch env i m)

def logRaised (m : Machine) : Machine :=
  if m.exceptionOccurred then { m with trace := .raised :: m.trace } else m

def deliver (m : Machine) : Machine := if m.exceptionOccurred then m.handleException else m

/-- An exception in fetching the instruction. -/
def fetchFault (m : Machine) : Machine := { m with trace := .raised :: m.trace }.handleException

/-- After the switch. -/
def finishStep (s : Narrator) (i : Inst) : Exec Unit := do
  modify fun m => logRaised { m with pc := m.pc + 4 }
  explainAfter env s i
  let m ← get
  onlyIf display (printInst env.tbl m.pc)
  modify deliver

def step (s : Narrator) : Exec (Flow × Narrator) := do
  stepHead env
  let r ← fetch env
  match r with
  | none =>
    modify fetchFault
    pure (.next, s)
  | some i =>
    let (flow, s) ← execInst env slot s i
    match flow with
    | .next =>
      finishStep env display s i
      pure (.next, s)
    | .pause => pure (.pause, s)
    | .stop => pure (.stop, s)

/-- An interrupt that is enabled, not masked and pending. -/
def interruptPending (m : Machine) : Prop :=
  m.status &&& statusIE ≠ 0 ∧ m.exl = false ∧ (m.cause &&& causeIP) &&& (m.status &&& statusIM) ≠ 0

instance (m : Machine) : Decidable (interruptPending m) := inferInstanceAs (Decidable (_ ∧ _ ∧ _))

def takeInterrupt (m : Machine) : Machine :=
  if interruptPending m then
    let m := { m with trace := .interrupt m.status m.cause :: m.trace }
    (m.raiseException .int).handleException
  else m

/-- The head of a chunk of steps: devices, then interrupts. -/
def poll : Exec Unit := do
  onlyIf (¬ env.bareMachine ∧ env.mappedIO) ( checkMemoryMappedIO env.host)
  modify takeInterrupt

/-- The length of a chunk when `n` steps remain. -/
def stepSize (n : ℕ) : ℕ := if ¬ env.bareMachine ∧ env.mappedIO then min ioInterval n else n

/-- The two loops of run_spim, with `n` steps to run and `k` of them left in the chunk. -/
def runLoop (s : Narrator) (k : ℕ) : ℕ → Exec (Bool × Narrator)
  | 0 => pure (true, s)
  | n+1 => do
    onlyIf (k = 0) (poll env)
    let (flow, s) ← step env display slot s
    match flow with
    | .next => runLoop s ((if k = 0 then stepSize env (n+1) else k) - 1) n
    | .pause => pure (true, s)
    | .stop => pure (false, s)

end

/-- run_spim. A jump's delay slot is run by a call one level deeper; the host's stack bounds how
deep such calls can go. -/
def runSpim (env : Env) (display : Bool) : (depth : ℕ) → Word → ℕ → Narrator →
    Exec (Bool × Narrator)
  | 0, _, _, _ => throw .hostStack
  | depth+1, initialPC, stepsToRun, s => do
    modify fun m => { m with pc := initialPC }
    runLoop env display (fun s => do
      let m ← get
      let (_, s) ← runSpim env display depth (m.pc + 4) 1 s
      pure s) s 0 stepsToRun

/-- The call that a jump makes to run its delay slot. -/
def runSlot (env : Env) (display : Bool) (depth : ℕ) (s : Narrator) : Exec Narrator := do
  let m ← get
  let (_, s) ← runSpim env display depth (m.pc + 4) 1 s
  pure s

/-! run_program. -/

/-- Running the instruction under a breakpoint, with the breakpoint taken out. -/
def stepOver (env : Env) (display : Bool) (depth : ℕ) (pc : Word) (s : Narrator) :
    Exec (Bool × Narrator) := do
  let m ← get
  let addr := if m.pc = 0 then pc else m.pc
  deleteBreakpoint env.tbl addr
  modify fun m => { m with exceptionOccurred := false, place := .over }
  let (continuable, s) ← runSpim env display depth addr 1 s
  addBreakpoint env.tbl addr
  pure (continuable, s)

/-- Whether a breakpoint was hit, and whether execution can continue. -/
def runMain (env : Env) (display : Bool) (depth : ℕ) (pc : Word) (steps : ℕ) (s : Narrator) :
    Exec (Bool × Bool) := do
  modify fun m => { m with exceptionOccurred := false, place := .main }
  let (continuable, _) ← runSpim env display depth pc steps s
  let m ← get
  if m.exceptionOccurred ∧ m.exCode = ExcCode.bp.code then
    modify fun m => m.setCp0 12 (m.status &&& ~~~statusEXL)
    pure (true, continuable)
  else pure (false, continuable)

/-- run_program. The result of the step over a breakpoint is overwritten by that of the run. -/
def runProgram (env : Env) (display : Bool) (depth : ℕ) (pc : Word) (steps : ℕ) (contBkpt : Bool)
    (s : Narrator) : Exec (Bool × Bool) := do
  let onBkpt ← (do if contBkpt then instIsBreakpoint env.tbl pc else pure false : Exec Bool)
  if onBkpt then
    let (_, s) ← stepOver env display depth pc s
    let m ← get
    runMain env display depth m.pc (steps - 1) s
  else runMain env display depth pc steps s

/-- A run that is yet to start, with no history. -/
def Core.start (c : Core) : Machine := { toCore := c }

/-! A quiet environment and small programs, for runs on fixed inputs. -/

/-- A host whose timer never expires and whose files and console are empty. -/
def Host.idle : Host where
  timerExpired _ := false
  inputAvailable _ := false
  staleChar _ := 0
  openFile _ := 0xffffffff
  readFile _ _ := (0, [])
  writeFile _ := 0
  closeFile _ := 0

/-- Arithmetic for programs that do no floating-point operations. -/
def Fpu.none : Fpu where
  ofSingle _ := 0
  toSingle _ := 0
  ofInt _ := 0
  ofIntSingle _ := 0
  toInt _ := 0
  fabs _ := 0
  sqrt _ := 0
  ceil _ := 0
  floor _ := 0
  addHalf _ := 0
  neg _ := 0
  add _ _ := 0
  sub _ _ := 0
  mul _ _ := 0
  div _ _ := 0
  negS _ := 0
  addS _ _ := 0
  subS _ _ := 0
  mulS _ _ := 0
  divS _ _ := 0
  atof _ := 0
  isNaN _ := false
  lt _ _ := false
  eq _ _ := false

def Env.quiet : Env := { tbl := .first, fpu := .none, host := .idle }

/-- A machine whose user text holds the given instructions, with record `k+1` at word `k`. -/
def Machine.ofText (is : List Inst) : Machine where
  insts r := match r with
    | 0 => makeRTypeInst .brk 1 0 0
    | k+1 => is.getD k {}
  nextInst := is.length + 1
  textSeg k := if k < is.length then some (k+1) else none
  textTop := textBot + BitVec.ofNat 32 (4 * is.length)

end Spimulator
