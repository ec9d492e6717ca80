import Spimulator.Library.Frame
import Spimulator.Machine

/-! raise_exception of run.c and handle_exception of syscall.c. -/
namespace Spimulator

def roundDown (v : Word) : Word := v &&& ~~~3#32

namespace Machine

/-- Setting EPC and Cause.BD when EXL is clear. -/
def recordEpc (m : Machine) : Machine :=
  if m.exl then m
  else if m.runningInDelaySlot then
    (m.setCp0 14 (roundDown (m.pc-4))).setCp0 13 (m.cause ||| causeBD)
  else m.setCp0 14 (roundDown m.pc)

def recordFirstBad (m : Machine) (excode : ExcCode) : Machine :=
  if m.firstBadException = none ∧ excode ≠ .int ∧ excode ≠ .sys ∧ excode ≠ .bp then
    { m with firstBadException := some excode }
  else m

/-- Interrupts are ignored unless IE is set and EXL is clear. -/
def raiseException (m : Machine) (excode : ExcCode) : Machine :=
  if excode ≠ .int ∨ (m.status &&& statusIE ≠ 0 ∧ ¬ m.exl) then
    let m := { m with exceptionOccurred := true }
    let m := (m.recordFirstBad excode).recordEpc
    let m := m.setCp0 13 ((m.cause &&& ~~~causeExcCode) ||| (excode.code <<< 2))
    m.setCp0 12 (m.status ||| statusEXL)
  else m

lemma recordEpc_eq (m : Machine) : ∃ c, m.recordEpc = { m with cp0 := c } := by
  unfold recordEpc
  split
  · exact ⟨_, rfl⟩
  · split
    · exact ⟨_, rfl⟩
    · exact ⟨_, rfl⟩

lemma recordFirstBad_eq (m : Machine) (e : ExcCode) :
    ∃ f, m.recordFirstBad e = { m with firstBadException := f } := by
  unfold recordFirstBad
  split
  · exact ⟨_, rfl⟩
  · exact ⟨_, rfl⟩

/-- An exception changes coprocessor 0 and the two exception flags only. -/
theorem raiseException_eq (m : Machine) (e : ExcCode) :
    ∃ c b f, m.raiseException e =
      { m with cp0 := c, exceptionOccurred := b, firstBadException := f } := by
  unfold raiseException
  split
  · obtain ⟨f, hf⟩ := recordFirstBad_eq { m with exceptionOccurred := true } e
    obtain ⟨c, hc⟩ := recordEpc_eq { m with exceptionOccurred := true, firstBadException := f }
    simp only [hf, hc]
    exact ⟨_, _, _, rfl⟩
  · exact ⟨_, _, _, rfl⟩

/-- RAISE_EXCEPTION with an assignment of BadVAddr. -/
def raiseAddr (m : Machine) (excode : ExcCode) (addr : Word) : Machine :=
  (m.raiseException excode).setCp0 8 addr

/-- Messages aside, every exception code does the same. -/
def handleException (m : Machine) : Machine :=
  { m with exceptionOccurred := false, pc := exceptionAddr }

end Machine
end Spimulator
