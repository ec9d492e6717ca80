import Spimulator.Library.Agree
import Spimulator.Memory

/-! What a read of memory depends on: neither the history of the run, nor the registers of the
program, nor the load that was queued last. -/
namespace Spimulator
open Frame

namespace Machine

/-- The machine with the history, the registers outside the coprocessors and the queued load of
another. -/
def onto (m h : Machine) : Machine := { m with
  trace := h.trace, visits := h.visits, place := h.place, gpr := h.gpr, fpr := h.fpr
  delayedLoad1 := h.delayedLoad1 }

variable (m h : Machine)

lemma onto_setCp0 (r : RegNo) (v : Word) : (m.onto h).setCp0 r v = (m.setCp0 r v).onto h := rfl
lemma onto_clearInterrupt (l : ℕ) :
    (m.onto h).clearInterrupt l = (m.clearInterrupt l).onto h := rfl
lemma onto_moveStack (a b c : ℕ) : (m.onto h).moveStack a b c = (m.moveStack a b c).onto h := rfl

lemma onto_recordFirstBad (e : ExcCode) :
    (m.onto h).recordFirstBad e = (m.recordFirstBad e).onto h := by
  have hbad : (m.onto h).firstBadException = m.firstBadException := rfl
  unfold recordFirstBad
  rw [hbad]
  split
  · rfl
  · rfl

lemma onto_recordEpc : (m.onto h).recordEpc = m.recordEpc.onto h := by
  have hexl : (m.onto h).exl = m.exl := rfl
  have hslot : (m.onto h).runningInDelaySlot = m.runningInDelaySlot := rfl
  unfold recordEpc
  rw [hexl, hslot]
  split
  · rfl
  · split
    · rfl
    · rfl

lemma onto_raiseException (e : ExcCode) :
    (m.onto h).raiseException e = (m.raiseException e).onto h := by
  have hexl : (m.onto h).exl = m.exl := rfl
  have hstatus : (m.onto h).status = m.status := rfl
  have hflag : ∀ b, { m.onto h with exceptionOccurred := b } =
      { m with exceptionOccurred := b : Machine }.onto h := fun _ => rfl
  unfold raiseException
  simp only [hexl, hstatus, hflag, onto_recordFirstBad, onto_recordEpc]
  split
  · rfl
  · rfl

lemma onto_raiseAddr (e : ExcCode) (addr : Word) :
    (m.onto h).raiseAddr e addr = (m.raiseAddr e addr).onto h := by
  rw [raiseAddr, onto_raiseException, onto_setCp0, raiseAddr]

end Machine

/-- The machines differ in what a read of memory does not look at. -/
def SameForReads (m t : Machine) : Prop := ∃ h, t = m.onto h

lemma agree_raising (m h : Machine) (e : ExcCode) (addr : Word) :
    Agree SameForReads (modify fun m => m.raiseAddr e addr : Exec Unit)
      (modify fun m => m.raiseAddr e addr) m (m.onto h) :=
  Agree.modify ⟨h, m.onto_raiseAddr h e addr⟩

lemma agree_expandStack (m h : Machine) (n : ℤ) :
    Agree SameForReads (expandStack n) (expandStack n) m (m.onto h) := by
  have hbot : (m.onto h).stackBot = m.stackBot := rfl
  have hlim : (m.onto h).stackSizeLimit = m.stackSizeLimit := rfl
  rw [Agree, expandStack, EStateM.run_bind, EStateM.run_get, EStateM.run_bind, EStateM.run_get]
  dsimp only
  rw [hbot, hlim]
  generalize hostInt (roundUp n) = delta
  generalize BitVec.toNat (stackTop - m.stackBot) = old
  generalize hostInt (old + max delta old) = size
  by_cases hc : n < 0 ∨ size > m.stackSizeLimit
  · rw [if_pos hc, if_pos hc]
    exact ⟨rfl, h, rfl⟩
  by_cases hneg : size < 0
  · rw [if_neg hc, if_neg hc, if_pos hneg, if_pos hneg]
    exact ⟨rfl, h, rfl⟩
  · rw [if_neg hc, if_neg hc, if_neg hneg, if_neg hneg, Machine.onto_moveStack]
    exact ⟨rfl, h, rfl⟩

lemma agree_readIO (m h : Machine) (addr : Word) :
    Agree SameForReads ( readMemoryMappedIO addr) ( readMemoryMappedIO addr) m (m.onto h) := by
  refine Agree.get_bind ?_
  refine Agree.ite Iff.rfl (fun _ => Agree.pure ⟨h, rfl⟩ _) fun _ => ?_
  refine Agree.ite Iff.rfl (fun _ => Agree.pure ⟨h, rfl⟩ _) fun _ => ?_
  refine Agree.ite Iff.rfl (fun _ => Agree.pure ⟨h, rfl⟩ _) fun _ => ?_
  refine Agree.ite Iff.rfl (fun _ => ?_) fun _ => Agree.throw ⟨h, rfl⟩ _
  exact Agree.bind (Agree.modify ⟨h, rfl⟩) fun _ _ _ _ hp => Agree.pure hp _

lemma agree_textEncoding (m h : Machine) (addr : Word) :
    Agree SameForReads (textEncoding addr) (textEncoding addr) m (m.onto h) := by
  have htext : (m.onto h).textSeg = m.textSeg := rfl
  refine Agree.get_bind ?_
  rw [htext]
  cases m.textSeg (Machine.textIndex addr) with
  | none => exact Agree.throw ⟨h, rfl⟩ _
  | some r => exact Agree.pure ⟨h, rfl⟩ _

lemma agree_badMemRead (m h : Machine) (addr : Word) (w : Width) :
    Agree SameForReads (badMemRead addr w) (badMemRead addr w) m (m.onto h) := by
  have htext : (m.onto h).textSeg = m.textSeg := rfl
  have hpure : ∀ {s t : Machine} (v : Word), SameForReads s t →
      Agree SameForReads (pure v : Exec Word) (pure v) s t := fun v hp => Agree.pure hp v
  refine Agree.get_bind ?_
  refine Agree.ite Iff.rfl (fun _ => ?_) fun _ => ?_
  · exact Agree.bind (agree_raising m h _ addr) fun _ _ _ _ => hpure 0
  refine Agree.ite Iff.rfl (fun _ => ?_) fun _ => ?_
  · cases w with
    | byte => exact Agree.bind (agree_textEncoding m h addr) fun _ _ _ _ => hpure _
    | half => exact Agree.bind (agree_textEncoding m h addr) fun _ _ _ _ => hpure _
    | word =>
      rw [htext]
      cases m.textSeg (Machine.textIndex addr) with
      | none => exact Agree.pure ⟨h, rfl⟩ _
      | some r => exact Agree.pure ⟨h, rfl⟩ _
  refine Agree.ite Iff.rfl (fun _ => ?_) fun _ => ?_
  · exact Agree.bind (agree_expandStack m h _) fun _ _ _ _ => hpure 0
  refine Agree.ite Iff.rfl (fun _ => agree_readIO m h addr) fun _ => ?_
  exact Agree.bind (agree_raising m h _ addr) fun _ _ _ _ => hpure 0

theorem agree_memRead {m t : Machine} (h : SameForReads m t) (w : Width) (addr : Word) :
    Agree SameForReads (memRead w addr) (memRead w addr) m t := by
  obtain ⟨h, rfl⟩ := h
  refine Agree.get_bind ?_
  refine Agree.ite Iff.rfl (fun _ => Agree.pure ⟨h, rfl⟩ _) fun _ => ?_
  refine Agree.ite Iff.rfl (fun _ => Agree.pure ⟨h, rfl⟩ _) fun _ => ?_
  exact Agree.ite Iff.rfl (fun _ => Agree.pure ⟨h, rfl⟩ _) fun _ => agree_badMemRead m h addr w

end Spimulator
