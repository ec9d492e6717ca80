import Spimulator.SymbolTable

/-! data.c: storing data at the data location counter. -/
namespace Spimulator.Data
open Frame ByteStore

/-- The bytes of a value, low end first. -/
def leBytes {n : ℕ} (v : BitVec n) (count : ℕ) : List Byte := (List.range count).map (byteOf v)

/-- A datum that is about to be stored at the data location counter. -/
def placing (bytes : List Byte) (store : Assemble Unit) : Assemble Unit := do
  let s ← get
  logEvent (.stored s.currentDataPc bytes)
  store

section

variable (tbl : AOpcodeTbl)

/-! data_store_depth, the first argument, counts the calls of store functions that have not
returned; only the outermost tells the observer. -/

def storeByte (depth : ℕ) (value : Word) : Assemble Unit := do
  let s ← get
  onMachine (memWriteByte tbl s.currentDataPc value)
  incrementDataPc 1
  onlyIf (depth = 0) (fire (.dataInt .byte s.currentDataPc value))

def storeHalf (depth : ℕ) (value : Word) : Assemble Unit := do
  let s ← get
  (if s.currentDataPc &&& 0x1 ≠ 0 then do
      storeByte tbl (depth + 1) (value &&& 0xff)
      storeByte tbl (depth + 1) ((value.sshiftRight 8) &&& 0xff)
    else do
      onMachine (memWriteHalf tbl s.currentDataPc value)
      incrementDataPc 2 : Assemble Unit)
  onlyIf (depth = 0) (fire (.dataInt .half s.currentDataPc value))

def storeWord (depth : ℕ) (value : Word) : Assemble Unit := do
  let s ← get
  (if s.currentDataPc &&& 0x3 ≠ 0 then do
      storeHalf tbl (depth + 1) (value &&& 0xffff)
      storeHalf tbl (depth + 1) ((value.sshiftRight 16) &&& 0xffff)
    else do
      onMachine (memWriteWord tbl s.currentDataPc value)
      incrementDataPc 4 : Assemble Unit)
  onlyIf (depth = 0) (fire (.dataInt .word s.currentDataPc value))

def storeBytes (depth : ℕ) : List Byte → Assemble Unit
  | [] => pure ()
  | b :: bs => do
    storeByte tbl depth (b.signExtend 32)
    storeBytes depth bs

def storeString (depth : ℕ) (bytes : List Byte) (nullTerminate : Bool) : Assemble Unit := do
  let s ← get
  storeBytes tbl (depth + 1) bytes
  onlyIf (nullTerminate = true) (storeByte tbl (depth + 1) 0)
  onlyIf (depth = 0) (fire (.dataString s.currentDataPc bytes nullTerminate))

def storeDouble (depth : ℕ) (value : BitVec 64) : Assemble Unit := do
  let s ← get
  (if s.currentDataPc &&& 0x7 ≠ 0 then do
      storeWord tbl (depth + 1) (value.setWidth 32)
      storeWord tbl (depth + 1) (value.extractLsb' 32 32)
    else do
      onMachine (memWriteWord tbl s.currentDataPc (value.setWidth 32))
      incrementDataPc 4
      let s ← get
      onMachine (memWriteWord tbl s.currentDataPc (value.extractLsb' 32 32))
      incrementDataPc 4 : Assemble Unit)
  onlyIf (depth = 0) (fire (.dataDouble s.currentDataPc value))

/-- store_float, with the value already rounded to single precision. It does not count as a call,
and does not tell the observer itself. -/
def storeFloat (depth : ℕ) (vp : Word) : Assemble Unit := do
  let s ← get
  if s.currentDataPc &&& 0x3 ≠ 0 then
    storeHalf tbl depth (vp &&& 0xffff)
    storeHalf tbl depth ((vp.sshiftRight 16) &&& 0xffff)
  else
    onMachine (memWriteWord tbl s.currentDataPc vp)
    incrementDataPc 4

end

/-- data_begins_at_point. The globals of small data start below the first datum. -/
def dataBeginsAtPoint (env : AsmEnv) (addr : Word) : Assemble Unit :=
  modify fun s =>
    if env.bareMachine then { s with nextDataPc := addr }
    else
      { s with
        gpMidpoint := addr + 0x8000
        nextDataPc := addr + 0x10000
        machine := s.machine.setGpr 28 (addr + 0x8000) }

end Spimulator.Data
