import Spimulator.Ast
import Spimulator.Library.Frame

/-! The state of the assembler: the machine it assembles into, and the globals of scanner.c,
parser.c, symbol-table.c, data.c and instruction.c. -/
namespace Spimulator
open Frame

/-- The messages that error and parse_error print, without the line they name. -/
inductive Report
  | parse (msg : String)
  | duplicateLabel (name : String)
  | evaluatedUndefined (name : String)
  | resolvingUndefined (name : String)
  | immediateRange (v : Word)
  | immediateTooLarge
  | jumpRegion (pc : Word)
  | invalidInstAddress (addr : Word)
  | localUndefined (name : String)
  | cannotOpen
  deriving DecidableEq, Repr

/-- What an observer of the assembler is told: the definition of a label, by its entry, an
instruction in text with its encoding, and a datum with its value. -/
inductive Observed
  | labelDef (addr : Word) (l : LabelRef) (global : Bool)
  | textInst (addr encoding : Word)
  | dataInt (kind : DataIntKind) (addr value : Word)
  | dataDouble (addr : Word) (value : BitVec 64)
  | dataString (addr : Word) (bytes : List Byte) (nullTerm : Bool)
  deriving DecidableEq, Repr

/-- What the assembler has done: a datum stored at its address, an instruction stored in text, a
symbol's address used for a value, a node emitted, a data directive's alignment while parsing in
a data section, a message, an event that an observer is told. -/
inductive AsmEvent
  | stored (addr : Word) (bytes : List Byte)
  | instStored (addr : Word) (r : InstRef)
  | used (l : LabelRef) (addr : Word)
  | emitted (n : NodeRef)
  | parseAligned (alignment : ℕ)
  | report (r : Report)
  | fired (e : Observed)
  deriving DecidableEq, Repr

/-- Why the assembler gave up: the simulator did, a text segment or the kernel data cannot grow,
fatal_error on an opcode without an immediate form, a loop that never ends, the trap of a
division overflow, or fatal_error on an exception handler that cannot be read. -/
inductive AsmHalt
  | machine (h : Halt)
  | expandText
  | expandKText
  | expandKData
  | noImmediateOp
  | endless
  | divide
  | noHandler
  deriving DecidableEq, Repr

structure Scanner where
  input : List Lexeme := []
  -- tokens scanned ahead of their use
  tokBuf : List Token := []
  forceIdNext : Bool := false

/-- Location counters and their flags; both instruction.c and data.c have their own in_kernel. -/
structure Location where
  textInKernel : Bool := false
  nextTextPc : Word := 0
  nextKTextPc : Word := 0
  dataInKernel : Bool := false
  nextDataPc : Word := 0
  nextKDataPc : Word := 0
  gpMidpoint : Word := 0
  enableDataAutoAlignment : Bool := true

structure SymbolTable where
  -- every label in the hash table, newest first
  table : List LabelRef := []
  nextLabel : LabelRef := 0
  localLabels : List LabelRef := []

structure Parser where
  dataDir : Bool := false
  textDir : Bool := true
  autoAlign : Bool := true
  nullTerm : Bool := false
  parseErrorOccurred : Bool := false
  parseErrorsSeen : ℕ := 0
  exprUnresolvedLabel : Option LabelRef := none
  thisLineLabels : List LabelRef := []
  currentPseudo : Option (List InstNode) := none
  currentFile : Option (List (NodeRef × AstNode)) := none
  nextNode : NodeRef := 0

structure Asm extends Scanner, Location, SymbolTable, Parser where
  machine : Machine := {}
  kDataSizeLimit : ℤ := 0
  -- what has been done, newest first
  events : List AsmEvent := []

abbrev Assemble := EStateM AsmHalt Asm

structure AsmEnv extends Env where
  acceptPseudoInsts : Bool := true
  printAstOnly : Bool := false

namespace Asm

def setMachine (s : Asm) (m : Machine) : Asm := { s with machine := m }
def log (s : Asm) (e : AsmEvent) : Asm := { s with events := e :: s.events }
def label (s : Asm) (l : LabelRef) : Label := s.machine.labels l
def setLabel (s : Asm) (l : LabelRef) (x : Label) : Asm :=
  s.setMachine { s.machine with labels := Function.update s.machine.labels l x }
def setInst (s : Asm) (r : InstRef) (i : Inst) : Asm :=
  s.setMachine { s.machine with insts := Function.update s.machine.insts r i }

end Asm

/-- A computation of the simulator, run on the machine of the assembler. -/
def onMachine {α : Type} (x : Exec α) : Assemble α := fun s =>
  match x.run s.machine with
  | .ok a m => .ok a (s.setMachine m)
  | .error e m => .error (.machine e) (s.setMachine m)

section

variable {α : Type} {x : Exec α} {s t : Asm} {a : α} {m : Machine}

lemma onMachine_run (h : x.run s.machine = .ok a m) :
    (onMachine x).run s = .ok a (s.setMachine m) := by
  rw [EStateM.run, onMachine, h]

lemma onMachine_error {e : Halt} (h : x.run s.machine = .error e m) :
    (onMachine x).run s = .error (.machine e) (s.setMachine m) := by
  rw [EStateM.run, onMachine, h]

lemma ok_of_onMachine (h : (onMachine x).run s = .ok a t) :
    ∃ m, x.run s.machine = .ok a m ∧ t = s.setMachine m := by
  cases hr : x.run s.machine with
  | ok b m =>
    rw [onMachine_run hr] at h
    cases h
    exact ⟨m, rfl, rfl⟩
  | error e m =>
    rw [onMachine_error hr] at h
    cases h

lemma error_of_onMachine {e : AsmHalt} (h : (onMachine x).run s = .error e t) :
    ∃ k, e = .machine k := by
  cases hr : x.run s.machine with
  | ok b m =>
    rw [onMachine_run hr] at h
    cases h
  | error k m =>
    rw [onMachine_error hr] at h
    cases h
    exact ⟨k, rfl⟩

end

def logEvent (e : AsmEvent) : Assemble Unit := modify fun s => s.log e

def report (r : Report) : Assemble Unit := logEvent (.report r)

/-- The asm_fire functions, with an observer installed. -/
def fire (e : Observed) : Assemble Unit := logEvent (.fired e)

/-- parse_error_at and parse_error -/
def parseErrorWith (r : Report) : Assemble Unit := do
  modify fun s => { s with parseErrorOccurred := true, parseErrorsSeen := s.parseErrorsSeen + 1 }
  report r

def parseErrorAt (msg : String) : Assemble Unit := parseErrorWith (.parse msg)

end Spimulator
