import Spimulator.Breakpoint
import Spimulator.Dispatch

/-! The narrator of explain.c: what it remembers between the two calls around an instruction, and
what it reads from the machine. The text it prints is not part of the state. -/
namespace Spimulator
open Frame

structure Narrator where
  listingShown : Bool := false
  snapGpr : RegNo → Word := fun _ => 0
  snapPc : Word := 0
  snapMem : Option Word := none

/-- The address that sw, sh or sb stores to. -/
def storeAddr (i : Inst) (m : Machine) : Option Word :=
  match i.opcode with
  | some .sw | some .sh | some .sb => some (effAddr i m)
  | _ => none

/-- peek_word, peek_half and peek_byte put back the exception flag and BadVAddr. -/
def peek (w : Width) (addr : Word) : Exec Unit := do
  let m ← get
  let _ ← memRead w addr
  modify fun m' => { m'.setCp0 8 m.badVAddr with exceptionOccurred := m.exceptionOccurred }

/-- Before the switch. The word that a store overwrites is read whatever the store's width. -/
def explainBefore (env : Env) (s : Narrator) (i : Inst) (addr : Word) : Exec Narrator := do
  if env.explainLevel = 0 then pure s
  else
    onlyIf (¬ s.listingShown) (printTextListing env.tbl)
    let m ← get
    match storeAddr i m with
    | none => pure { listingShown := true, snapGpr := m.gpr, snapPc := addr }
    | some a =>
      peek .word a
      pure { listingShown := true, snapGpr := m.gpr, snapPc := addr, snapMem := some a }

/-- The memory that the narration of an instruction shows. -/
def narrated (s : Narrator) (i : Inst) : List (Width × Word) :=
  let ea := s.snapGpr i.base + i.ioffset.signExtend 32
  match i.opcode with
  | some .lb | some .lbu => [(.byte, ea)]
  | some .lh | some .lhu => [(.half, ea)]
  | some .lw | some .ll | some .lwc1 => [(.word, ea)]
  | some .lwl | some .lwr => [(.word, ea &&& ~~~3#32)]
  | some .ldc1 => [(.word, ea), (.word, ea + 4)]
  | some .sb => s.snapMem.toList.map (fun a => (.byte, a))
  | some .sh => s.snapMem.toList.map (fun a => (.half, a))
  | some .sw | some .sc | some .swl | some .swr => s.snapMem.toList.map (fun a => (.word, a))
  | _ => []

def peekAll : List (Width × Word) → Exec Unit
  | [] => pure ()
  | p :: ps => do
    peek p.1 p.2
    peekAll ps

/-- After the switch. Level 1 prints the header only, which fetches the instruction again. -/
def explainAfter (env : Env) (s : Narrator) (i : Inst) : Exec Unit := do
  if env.explainLevel = 0 then pure ()
  else
    instToString env.tbl s.snapPc
    onlyIf (2 ≤ env.explainLevel) (peekAll (narrated s i))

end Spimulator
