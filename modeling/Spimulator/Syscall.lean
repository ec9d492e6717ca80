import Spimulator.Memory

/-! do_syscall of syscall.c and the console input of spim.c. What the print services write to the
console is not part of the state; the addresses they check are. -/
namespace Spimulator
open ByteStore

/-! References into the simulator's own storage. -/

/-- What mem_reference returns: a place in the bytes of a data segment, or a place in the array
of pointers that a text segment is. -/
inductive MemRef
  | text
  | data (off : ℕ)
  | stack (off : ℕ)
  | kData (off : ℕ)
  deriving DecidableEq, Repr

def memReference (addr : Word) : Exec MemRef := do
  let m ← get
  if m.inText addr then pure .text
  else if m.inData addr then pure (.data (addr - dataBot).toNat)
  else if m.inStack addr then pure (.stack (addr - m.stackBot).toNat)
  else if m.inKText addr then pure .text
  else if m.inKData addr then pure (.kData (addr - kDataBot).toNat)
  else throw .outOfBounds

/-- The host writing bytes at a reference. Overwriting pointers ends in a fault of the host. -/
def putBytes (r : MemRef) (bs : List Byte) : Exec Unit :=
  match r with
  | .text => if bs = [] then pure () else throw .hostMemory
  | .data off => modify fun m => { m with dataSeg := writeList m.dataSeg off bs }
  | .stack off => modify fun m => { m with stackSeg := writeList m.stackSeg off bs }
  | .kData off => modify fun m => { m with kDataSeg := writeList m.kDataSeg off bs }

/-! Console input. -/

/-- At most `n` bytes of the input, up to and including a newline, and what is left. -/
def takeLine : ℕ → List Byte → List Byte × List Byte
  | 0, input => ([], input)
  | _+1, [] => ([], [])
  | n+1, c :: rest =>
    if c = 10 then ([c], rest)
    else
      let (line, left) := takeLine n rest
      (c :: line, left)

/-- The bytes that read_input stores (the terminating NUL apart) for a buffer of a given size. -/
def readInput (size : ℤ) : Exec (List Byte) := do
  let m ← get
  let (line, left) := takeLine (size-1).toNat m.consoleIn
  set { m with consoleIn := left }
  pure line

def isBlank (c : Byte) : Bool := c = 32 ∨ c = 9 ∨ c = 10 ∨ c = 13
def isDigit (c : Byte) : Bool := 48 ≤ c ∧ c ≤ 57

/-- An optional sign, and the input after it. -/
def readSign : List Byte → ℤ × List Byte
  | 45 :: rest => (-1, rest)
  | 43 :: rest => (1, rest)
  | input => (1, input)

/-- The byte that ends the digits is consumed with them. -/
def readIntInput (input : List Byte) : Option ℤ × List Byte :=
  let (sign, input) := readSign (input.dropWhile isBlank)
  let digits := input.takeWhile isDigit
  let left := (input.dropWhile isDigit).tail
  (if digits = [] then none
    else some (sign * digits.foldl (fun v c => v*10 + ((c.toNat : ℤ) - 48)) 0), left)

/-! The services. -/

def regRes : RegNo := 2
def regV0 : RegNo := 2
def regA0 : RegNo := 4
def regA1 : RegNo := 5
def regA2 : RegNo := 6
def regA3 : RegNo := 7
def regFres : RegNo := 0

inductive Service
  | printInt | printFloat | printDouble | printString | readInt | readFloat | readDouble
  | readString | sbrk | exit | printCharacter | readCharacter | open | read | write | close
  | exit2
  deriving DecidableEq, Repr

def serviceOf (n : Word) : Option Service :=
  match n with
  | 1 => some .printInt | 2 => some .printFloat | 3 => some .printDouble | 4 => some .printString
  | 5 => some .readInt | 6 => some .readFloat | 7 => some .readDouble | 8 => some .readString
  | 9 => some .sbrk | 10 => some .exit | 11 => some .printCharacter | 12 => some .readCharacter
  | 13 => some .open | 14 => some .read | 15 => some .write | 16 => some .close
  | 17 => some .exit2 | _ => none

/-- The next question to the host, and its number. -/
def askHost : Exec ℕ := do
  let m ← get
  set { m with hostCalls := m.hostCalls + 1 }
  pure m.hostCalls

/-- exit and exit2, which return 0 from do_syscall. -/
def exitWith (value : Word) : Exec Unit :=
  modify fun m => { m with
    spimReturnValue := value
    trace := .exit m.place :: m.trace }

/-- The services that read from the console. -/
def readService (env : Env) (s : Service) : Exec Unit := do
  let m ← get
  match s with
  | .readInt =>
    let (value, left) := readIntInput m.consoleIn
    set ({ m with consoleIn := left }.setGpr regRes (BitVec.ofInt 32 (value.getD 0)))
    modify fun m => m.setGpr regA3 (if value.isSome then 0 else 1)
  | .readFloat =>
    let line ← readInput 256
    modify fun m => m.setFpr regFres (env.fpu.toSingle (env.fpu.atof line))
  | .readDouble =>
    let line ← readInput 256
    let v := env.fpu.atof line
    modify fun m => (m.setFpr regFres (v.setWidth 32)).setFpr (regFres+1) (v.extractLsb' 32 32)
  | .readString =>
    let r ← memReference (m.gpr regA0)
    let size := (m.gpr regA1).toInt
    let line ← readInput size
    putBytes r (if 0 < size then line ++ [0] else [])
    modify fun m => m.setGpr regA3 (if line = [] then 1 else 0)
  | .readCharacter =>
    let line ← readInput 2
    modify fun m => m.setGpr regRes
      (match line with
      | [] => 0xffffffff
      | c :: _ => c.setWidth 32)
  | _ => pure ()

/-- The services on files of the host. -/
def fileService (env : Env) (s : Service) : Exec Unit := do
  let m ← get
  match s with
  | .open =>
    let _ ← memReference (m.gpr regA0)
    let n ← askHost
    modify fun m => m.setGpr regRes (env.host.openFile n)
  | .read =>
    let _ ← memReference (m.gpr regA1 + m.gpr regA2 - 1)
    let r ← memReference (m.gpr regA1)
    let n ← askHost
    let (count, bytes) := env.host.readFile n (m.gpr regA2)
    putBytes r bytes
    modify fun m => m.setGpr regRes count
  | .write =>
    let _ ← memReference (m.gpr regA1 + m.gpr regA2 - 1)
    let _ ← memReference (m.gpr regA1)
    let n ← askHost
    modify fun m => m.setGpr regRes (env.host.writeFile n)
  | .close =>
    let n ← askHost
    modify fun m => m.setGpr regRes (env.host.closeFile n)
  | _ => pure ()

/-- The services that return to the program. -/
def otherService (env : Env) (s : Service) : Exec Unit := do
  let m ← get
  match s with
  | .printInt | .printFloat | .printDouble | .printCharacter => pure ()
  | .printString =>
    let _ ← memReference (m.gpr regA0)
    pure ()
  | .sbrk =>
    expandData (m.gpr regA0).toInt
    modify fun m' => m'.setGpr regRes m.dataTop
  | .open | .read | .write | .close => fileService env s
  | _ => readService env s

/-- Whether execution goes on. -/
def doSyscall (env : Env) : Exec Bool := do
  let m ← get
  match serviceOf (m.gpr regV0) with
  | none => throw (.unknownSyscall (m.gpr regV0))
  | some .exit =>
    exitWith 0
    pure false
  | some .exit2 =>
    exitWith (m.gpr regA0)
    pure false
  | some s =>
    otherService env s
    pure true

lemma doSyscall_run (env : Env) {m : Machine} {sv : Service}
    (h : serviceOf (m.gpr regV0) = some sv) (hexit : sv ≠ .exit) (hexit2 : sv ≠ .exit2) :
    (doSyscall env).run m = (do otherService env sv; pure true : Exec Bool).run m := by
  rw [doSyscall, EStateM.run_bind, EStateM.run_get]
  simp only [h]

end Spimulator
