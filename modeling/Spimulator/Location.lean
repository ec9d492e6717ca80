import Spimulator.Assembler
import Spimulator.Memory

/-! The location counters of data.c and instruction.c. -/
namespace Spimulator
open Frame

/-- Rounding up to a multiple of 1u << alignment; the host shifts by the low five bits. -/
def alignUp (alignment pc : Word) : Word :=
  let sh := alignment.toNat % 32
  (pc + (1#32 <<< sh) - 1) &&& (0xffffffff#32 <<< sh)

/-- ROUND_UP on addresses -/
def roundUpTo (v b : Word) : Word := (v + b - 1) &&& ~~~(b - 1)

namespace Asm

def currentDataPc (s : Asm) : Word := if s.dataInKernel then s.nextKDataPc else s.nextDataPc
def currentTextPc (s : Asm) : Word := if s.textInKernel then s.nextKTextPc else s.nextTextPc

def setDataPc (s : Asm) (addr : Word) : Asm :=
  if s.dataInKernel then { s with nextKDataPc := addr } else { s with nextDataPc := addr }
def setTextPc (s : Asm) (addr : Word) : Asm :=
  if s.textInKernel then { s with nextKTextPc := addr } else { s with nextTextPc := addr }

/-- The labels of the current line follow the location counter. -/
def fixCurrentLabelAddress (s : Asm) (newAddr : Word) : Asm :=
  s.setMachine { s.machine with
    labels := fun l =>
      if l ∈ s.thisLineLabels then { s.machine.labels l with addr := newAddr }
      else s.machine.labels l }

def alignData (s : Asm) (alignment : Word) : Asm :=
  if alignment = 0 then { s with enableDataAutoAlignment := false }
  else
    let s := s.setDataPc (alignUp alignment s.currentDataPc)
    s.fixCurrentLabelAddress s.currentDataPc

def setDataAlignment (s : Asm) (alignment : Word) : Asm :=
  if s.enableDataAutoAlignment then s.alignData alignment else s

/-- Alignment 0 only sets a flag of instruction.c that nothing reads. -/
def alignText (s : Asm) (alignment : Word) : Asm :=
  if alignment = 0 then s
  else
    let s := s.setTextPc (alignUp alignment s.currentTextPc)
    s.fixCurrentLabelAddress s.currentTextPc

def endOfAssemblyFile (s : Asm) : Asm :=
  { s with dataInKernel := false, enableDataAutoAlignment := true }

end Asm

/-- expand_k_data zeroes the bytes from a quarter of the old size to a quarter of the new; what
realloc adds is left as it was. -/
def expandKData (addlBytes : ℤ) : Assemble Unit := do
  let s ← get
  let delta := hostInt (roundUp addlBytes)
  let oldSize := (s.machine.kDataTop - kDataBot).toInt
  let newSize := hostInt (oldSize + delta)
  if addlBytes < 0 ∨ newSize > s.kDataSizeLimit then throw .expandKData
  else if newSize < 0 then throw (.machine .reallocFailed)
  else
    set (s.setMachine { s.machine with
      kDataTop := s.machine.kDataTop + BitVec.ofInt 32 delta
      kDataSeg := fun i =>
        if oldSize / 4 ≤ i ∧ i < newSize / 4 then 0 else s.machine.kDataSeg i })

/-- The bytes by which a segment is expanded so that the location counter is inside. -/
def expansion (pc top : Word) : ℤ := (roundUpTo (pc - top + 1) 0x10000).toInt

def incrementDataPc (delta : Word) : Assemble Unit := do
  modify fun s => s.setDataPc (s.currentDataPc + delta)
  let s ← get
  if s.dataInKernel then
    onlyIf (s.machine.kDataTop ≤ s.nextKDataPc)
      (expandKData (expansion s.nextKDataPc s.machine.kDataTop))
  else
    onlyIf (s.machine.dataTop ≤ s.nextDataPc)
      (onMachine (expandData (expansion s.nextDataPc s.machine.dataTop)))

def incrementTextPc (delta : Word) : Assemble Unit := do
  modify fun s => s.setTextPc (s.currentTextPc + delta)
  let s ← get
  if s.textInKernel then onlyIf (s.machine.kTextTop ≤ s.nextKTextPc) (throw .expandKText)
  else onlyIf (s.machine.textTop ≤ s.nextTextPc) (throw .expandText)

end Spimulator
