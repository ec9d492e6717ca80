import Mathlib.Logic.Function.Basic
import Spimulator.Instruction

/-! The state of the simulated machine: the globals of memory.c, registers.h, run.c, syscall.c
and spim-utils.c that execution reads or writes, and the options and the host it runs under. -/
namespace Spimulator

/-- An instruction record, named by its allocation number. -/
abbrev InstRef := ℕ

/-- Register numbers are the bytes that instruction records hold. -/
abbrev RegNo := Byte

inductive ExcCode
  | int | mod | tlbl | tlbs | adEL | adES | ibe | dbe | sys | bp | ri | cpU | ov | tr | fpe
  | c2e | mdmx | watch | mcheck | cacheErr
  deriving DecidableEq, Repr

def ExcCode.code : ExcCode → Word
  | .int => 0 | .mod => 1 | .tlbl => 2 | .tlbs => 3 | .adEL => 4 | .adES => 5 | .ibe => 6
  | .dbe => 7 | .sys => 8 | .bp => 9 | .ri => 10 | .cpU => 11 | .ov => 12 | .tr => 13
  | .fpe => 15 | .c2e => 18 | .mdmx => 22 | .watch => 23 | .mcheck => 24 | .cacheErr => 30

/-- A pending use of a label that is not yet defined; no instruction means a data word. -/
structure LabelUse where
  instruction : Option InstRef
  addr : Word
  deriving DecidableEq, Repr

/-- Symbol table information on a label; address 0 means not yet defined. -/
structure Label where
  name : String
  addr : Word := 0
  globalFlag : Bool := false
  gpFlag : Bool := false
  constFlag : Bool := false
  uses : List LabelUse := []
  deriving DecidableEq, Repr

def Label.isDefined (l : Label) : Bool := l.addr ≠ 0

/-- The register files of registers.h. -/
structure Regs where
  gpr : RegNo → Word := fun _ => 0
  hi : Word := 0
  lo : Word := 0
  -- the overlaid views of the floating-point registers, as words
  fpr : RegNo → Word := fun _ => 0
  cp0 : RegNo → Word := fun _ => 0
  fcr : RegNo → Word := fun _ => 0
  cp0Control : RegNo → Word := fun _ => 0

/-- The register that a delayed load writes when it arrives. -/
inductive LoadDest
  | gpr (r : RegNo)
  | fpr (r : RegNo)
  deriving DecidableEq, Repr

/-- Where run_spim was called from: the main run of run_program, its step over a breakpoint, or
the delay slot of a jump. -/
inductive Place
  | main | over | slot
  deriving DecidableEq, Repr

/-- What the run has done: an instruction reached the switch of run_spim (with the address that
sw, sh or sb stores to), an mtc0 to a register or an eret did, an instruction left the switch or
its fetch with an exception raised, an interrupt was delivered (with Status and Cause before it),
or a syscall asked the simulator to stop. -/
inductive Event
  | exec (pc : Word) (storeAddr : Option Word)
  | mtc0 (r : RegNo)
  | eret
  | raised
  | interrupt (status cause : Word)
  | exit (place : Place)
  deriving DecidableEq, Repr

/-- Why the simulator gave up: run_error and fatal_error, by the message they print, a control-C
from the console, and the host faults that C leaves undefined. -/
inductive Halt
  | expandData (addlBytes : ℤ) (newSize : ℤ)
  | expandStack (addlBytes : ℤ) (newSize : ℤ)
  | reallocFailed
  | mallocFailed
  | outOfBounds
  | unusedIORead (addr : Word)
  | unusedIOWrite (addr : Word)
  | nonInstruction (pc : Word)
  | undefinedSymbol (pc : Word)
  | unknownSyscall (n : Word)
  | oddDouble
  | unknownInstruction
  | interrupted
  | nullInstruction
  | hostMemory
  | hostStack
  deriving DecidableEq, Repr

/-- The state that the simulator keeps. -/
structure Core extends Regs where
  pc : Word := 0
  exceptionOccurred : Bool := false
  firstBadException : Option ExcCode := none
  runningInDelaySlot : Bool := false
  delayedLoad1 : Option (LoadDest × Word) := none
  delayedLoad2 : Option (LoadDest × Word) := none
  spimReturnValue : Word := 0
  -- text segments hold pointers to instruction records
  insts : InstRef → Inst := fun _ => {}
  nextInst : InstRef := 1
  textSeg : ℕ → Option InstRef := fun _ => none
  textTop : Word := 0x400000
  kTextSeg : ℕ → Option InstRef := fun _ => none
  kTextTop : Word := 0x80000000
  -- data segments hold bytes
  dataSeg : ℕ → Byte := fun _ => 0
  dataTop : Word := 0x10000000
  dataSizeLimit : ℤ := 0
  stackSeg : ℕ → Byte := fun _ => 0
  stackBot : Word := 0x80000000
  stackSizeLimit : ℤ := 0
  kDataSeg : ℕ → Byte := fun _ => 0
  kDataTop : Word := 0x90000000
  -- memory-mapped devices
  recvControl : Word := 0
  recvBuffer : Word := 0
  recvBufferFullTimer : ℕ := 0
  transControl : Word := 1
  transBuffer : Word := 0
  transBufferFullTimer : ℕ := 0
  -- the characters that the transmitter has put on the console, newest first
  transmitted : List Byte := []
  bkpts : List (Word × InstRef) := []
  labels : LabelRef → Label := fun _ => { name := "" }
  -- the console's unread input, and how often the host has been asked
  consoleIn : List Byte := []
  hostCalls : ℕ := 0

/-- An instruction at the switch of run_spim, and the state that it finds there. -/
structure Visit where
  inst : Inst
  state : Core

/-- The simulator with the history of its run, newest first, and where it is. -/
structure Machine extends Core where
  trace : List Event := []
  visits : List Visit := []
  place : Place := .main

/-- The record break_inst, allocated before any other. -/
def breakInst : InstRef := 0

abbrev Exec := EStateM Halt Machine

/-! Options and host. -/

/-- The floating-point arithmetic of the host, on the bits of single and double values. -/
structure Fpu where
  ofSingle : Word → BitVec 64
  toSingle : BitVec 64 → Word
  ofInt : Word → BitVec 64
  ofIntSingle : Word → Word
  toInt : BitVec 64 → Word
  fabs : BitVec 64 → BitVec 64
  sqrt : BitVec 64 → BitVec 64
  ceil : BitVec 64 → BitVec 64
  floor : BitVec 64 → BitVec 64
  addHalf : BitVec 64 → BitVec 64
  neg : BitVec 64 → BitVec 64
  add : BitVec 64 → BitVec 64 → BitVec 64
  sub : BitVec 64 → BitVec 64 → BitVec 64
  mul : BitVec 64 → BitVec 64 → BitVec 64
  div : BitVec 64 → BitVec 64 → BitVec 64
  negS : Word → Word
  addS : Word → Word → Word
  subS : Word → Word → Word
  mulS : Word → Word → Word
  divS : Word → Word → Word
  atof : List Byte → BitVec 64
  isNaN : BitVec 64 → Bool
  lt : BitVec 64 → BitVec 64 → Bool
  eq : BitVec 64 → BitVec 64 → Bool

/-- The answers of the operating system, each to the n-th question asked of it; whether input is
available is known after n questions. -/
structure Host where
  timerExpired : ℕ → Bool
  inputAvailable : ℕ → Bool
  staleChar : ℕ → Byte
  openFile : ℕ → Word
  readFile : ℕ → Word → Word × List Byte
  writeFile : ℕ → Word
  closeFile : ℕ → Word

/-- The options of the command line and the host. -/
structure Env where
  bareMachine : Bool := false
  delayedBranches : Bool := false
  delayedLoads : Bool := false
  mappedIO : Bool := false
  explainLevel : ℕ := 0
  tbl : AOpcodeTbl
  fpu : Fpu
  host : Host

/-! Constants. -/

def kilo : ℕ := 1024
def mega : ℕ := kilo * kilo
def bytesPerWord : ℕ := 4
def textBot : Word := 0x400000
def dataBot : Word := 0x10000000
def stackTop : Word := 0x80000000
def kTextBot : Word := 0x80000000
def kDataBot : Word := 0x90000000
def mmIOBot : Word := 0xffff0000
def mmIOTop : Word := 0xffffffff
def exceptionAddr : Word := 0x80000180
def ioInterval : ℕ := 100
def recvInterval : ℕ := 100
def transLatency : ℕ := 100

def statusIE : Word := 0x1
def statusEXL : Word := 0x2
def statusUM : Word := 0x10
def statusIM : Word := 0xff00
def statusCU : Word := 0xf0000000
def statusMask : Word := 0xf000ff13
def causeBD : Word := 0x80000000
def causeIP : Word := 0xff00
def causeIP7 : Word := 0x8000
def causeExcCode : Word := 0x7c
def causeMask : Word := 0x8000ff7c
def configMask : Word := 0xfc380
def fcsrMask : Word := 0xfe800000

/-! Registers. -/

namespace Regs

def setGpr (g : Regs) (r : RegNo) (v : Word) : Regs :=
  { g with gpr := Function.update g.gpr r v }
def setFpr (g : Regs) (r : RegNo) (v : Word) : Regs :=
  { g with fpr := Function.update g.fpr r v }
def setCp0 (g : Regs) (r : RegNo) (v : Word) : Regs :=
  { g with cp0 := Function.update g.cp0 r v }
def setFcr (g : Regs) (r : RegNo) (v : Word) : Regs :=
  { g with fcr := Function.update g.fcr r v }

end Regs

namespace Machine

def badVAddr (m : Machine) : Word := m.cp0 8
def count (m : Machine) : Word := m.cp0 9
def compare (m : Machine) : Word := m.cp0 11
def status (m : Machine) : Word := m.cp0 12
def cause (m : Machine) : Word := m.cp0 13
def epc (m : Machine) : Word := m.cp0 14
def fcsr (m : Machine) : Word := m.fcr 31

def exl (m : Machine) : Bool := m.status &&& statusEXL ≠ 0
def bd (m : Machine) : Bool := m.cause &&& causeBD ≠ 0
def exCode (m : Machine) : Word := (m.cause &&& causeExcCode) >>> 2

def setRegs (m : Machine) (g : Regs) : Machine := { m with toRegs := g }
def setGpr (m : Machine) (r : RegNo) (v : Word) : Machine := m.setRegs (m.toRegs.setGpr r v)
def setFpr (m : Machine) (r : RegNo) (v : Word) : Machine := m.setRegs (m.toRegs.setFpr r v)
def setCp0 (m : Machine) (r : RegNo) (v : Word) : Machine := m.setRegs (m.toRegs.setCp0 r v)
def setFcr (m : Machine) (r : RegNo) (v : Word) : Machine := m.setRegs (m.toRegs.setFcr r v)

def raiseInterrupt (m : Machine) (level : ℕ) : Machine :=
  m.setCp0 13 (m.cause ||| (1#32 <<< (level+8)))
def clearInterrupt (m : Machine) (level : ℕ) : Machine :=
  m.setCp0 13 (m.cause &&& ~~~(1#32 <<< (level+8)))

end Machine
end Spimulator
