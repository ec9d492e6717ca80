import Spimulator.Parser

/-! spim-utils.c: loading source files into the world that initialize_world prepares. -/
namespace Spimulator
open Frame

/-- A file as it is opened: its source, or `none` where it cannot be opened. -/
abbrev SourceFile := Option (List Lexeme)

/-- The part of read_assembly_file after the file is opened; also the embedded handler's. -/
def loadSource (env : AsmEnv) (input : List Lexeme) : Assemble Unit := do
  modify (parserInit input)
  parseFile env
  let s ← get
  flushLocalLabels (¬ s.parseErrorOccurred)
  modify Asm.endOfAssemblyFile

def readAssemblyFile (env : AsmEnv) : SourceFile → Assemble Bool
  | none => do
    report .cannotOpen
    pure false
  | some input => do
    loadSource env input
    pure true

/-- ASM_CMD of the top level: the rest of the command line is parsed into the tree there is. -/
def asmCommand (env : AsmEnv) (line : List Lexeme) : Assemble Unit := do
  modify (Asm.scannerInit line)
  parseFile env

/-! Sessions. -/

/-- The calls of a session: parser_init and parse_file, a new source for the scanner, and what
read_assembly_file does at the end of a file. -/
inductive SessionCall
  | parserInit (input : List Lexeme)
  | parseFile (env : AsmEnv)
  | source (input : List Lexeme)
  | endFile

def endFile : Assemble Unit := do
  let s ← get
  flushLocalLabels (¬ s.parseErrorOccurred)
  modify Asm.endOfAssemblyFile

def SessionCall.run : SessionCall → Assemble Unit
  | .parserInit input => modify (Spimulator.parserInit input)
  | .parseFile env => Spimulator.parseFile env
  | .source input => modify (Asm.scannerInit input)
  | .endFile => Spimulator.endFile

/-! initialize_world -/

structure Sizes where
  text : ℕ
  data : ℕ
  dataLimit : ℤ
  stack : ℕ
  stackLimit : ℤ
  kText : ℕ
  kData : ℕ
  kDataLimit : ℤ

/-- The sizes of spim.h, unless the command line gives others. -/
def Sizes.initial : Sizes where
  text := 256 * kilo
  data := 256 * kilo
  dataLimit := mega
  stack := 64 * kilo
  stackLimit := 256 * kilo
  kText := 64 * kilo
  kData := 64 * kilo
  kDataLimit := mega

/-- The exception handler to load: the embedded one, or files. -/
inductive Handler
  | none
  | embedded (input : List Lexeme)
  | files (fs : List SourceFile)

def Machine.initializeRegisters (m : Machine) : Machine :=
  let g : Regs := { m.toRegs with gpr := fun _ => 0, fpr := fun _ => 0, hi := 0, lo := 0 }
  let g := g.setGpr 29 (stackTop - 4 - 4096)
  let g := (((g.setCp0 8 0).setCp0 9 0).setCp0 11 0)
  let g := g.setCp0 12 (0x30000000 ||| statusIM ||| statusUM)
  let g := ((g.setCp0 13 0).setCp0 14 0).setCp0 16 0
  let g := (g.setFcr 0 0x00009800).setFcr 31 0
  { m.setRegs g with pc := 0 }

/-- Memory, registers, symbol table and location counters of a new world. -/
def freshWorld (env : AsmEnv) (z : Sizes) : Assemble Unit := do
  modify fun s =>
    { s with
      machine := (makeMemory z.text z.data z.dataLimit z.stack z.stackLimit z.kText z.kData
        s.machine).initializeRegisters
      kDataSizeLimit := z.kDataLimit
      table := []
      localLabels := []
      nextKTextPc := kTextBot
      nextKDataPc := kDataBot }
  Data.dataBeginsAtPoint env dataBot
  modify fun s => { s with nextTextPc := textBot, textInKernel := false }

/-- The world of a new process, before the exception handler is loaded. -/
def Asm.fresh (env : AsmEnv) : Asm := final ((freshWorld env .initial).run {})

def loadHandlerFiles (env : AsmEnv) : List SourceFile → Assemble Unit
  | [] => pure ()
  | f :: fs => do
    let loaded ← readAssemblyFile env f
    if loaded then loadHandlerFiles env fs else throw .noHandler

/-- The handler is loaded on the extended machine; `main` then counts as declared global. -/
def loadHandler (env : AsmEnv) (h : Handler) : Assemble Unit := do
  let extended : AsmEnv := { env with bareMachine := false, acceptPseudoInsts := true }
  match h with
  | .none => pure ()
  | .embedded input =>
    loadSource extended input
    declareMain
  | .files fs =>
    loadHandlerFiles extended fs
    declareMain
where
  declareMain : Assemble Unit :=
    onlyIf (env.bareMachine = false) (do
      let _ ← makeLabelGlobal "main"
      let _ ← recordLabel env.toEnv "main" 0 false
      pure ())

def initializeWorld (env : AsmEnv) (z : Sizes) (h : Handler) : Assemble Unit := do
  freshWorld env z
  loadHandler env h
  modify (Asm.scannerInit [])
  onMachine (modify fun m => { m with bkpts := [] })

end Spimulator
