import Spimulator.Library.Path
import Spimulator.ExceptionState

/-! The console devices along runs: their ready bits, countdowns and interrupts, and the characters
that the transmitter puts out. -/
namespace Spimulator
open Frame

/-! Operations on the devices, and what else may happen between them. -/

/-- A poll, or a program's access to the memory-mapped words; a write shows whether the transmitter
was ready for it. -/
inductive DeviceOp
  | poll (host : Host)
  | read (addr : Word)
  | write (addr value : Word) (ready : Bool)
  | other

/-- The bits of Cause that the devices set and clear. -/
def deviceIP : Word := 0xc00

def isReady (control : Word) : Bool := control &&& readyBit ≠ 0
def isEnabled (control : Word) : Bool := control &&& intEnableBit ≠ 0
def isPending (level : ℕ) (cause : Word) : Bool := cause &&& (1#32 <<< (level+8)) ≠ 0

/-- The state of the devices and of their interrupts. -/
structure DeviceView where
  recvControl : Word
  recvBuffer : Word
  recvTimer : ℕ
  transControl : Word
  transBuffer : Word
  transTimer : ℕ
  transmitted : List Byte
  pending : Word

def Machine.deviceView (m : Machine) : DeviceView where
  recvControl := m.recvControl
  recvBuffer := m.recvBuffer
  recvTimer := m.recvBufferFullTimer
  transControl := m.transControl
  transBuffer := m.transBuffer
  transTimer := m.transBufferFullTimer
  transmitted := m.transmitted
  pending := m.cause &&& deviceIP

def DeviceStep (op : DeviceOp) (m t : Machine) : Prop :=
  match op with
  | .poll host => final (( checkMemoryMappedIO host).run m) = t
  | .read addr => final (( readMemoryMappedIO addr).run m) = t
  | .write addr value ready =>
    isReady m.transControl = ready ∧ final (( writeMemoryMappedIO addr value).run m) = t
  | .other => t.deviceView = m.deviceView

/-- The character that an operation puts out: one written to a ready transmitter. -/
def DeviceOp.sent : DeviceOp → Option Byte
  | .write addr value ready => if addr = transBufferAddr ∧ ready then some (value.setWidth 8) else none
  | _ => none

/-! What holds of the devices at any time. -/

structure DevicesOk (m : Machine) : Prop where
  recvPending : isPending recvIntLevel m.cause = (isReady m.recvControl && isEnabled m.recvControl)
  transPending : isPending transIntLevel m.cause =
    (isReady m.transControl && isEnabled m.transControl)
  recvTimer : 0 < m.recvBufferFullTimer → isReady m.recvControl = true
  transTimer : 0 < m.transBufferFullTimer → isReady m.transControl = false

/-- The devices of a new process. -/
structure DevicesInitial (m : Machine) : Prop where
  recvControl : m.recvControl = 0
  recvTimer : m.recvBufferFullTimer = 0
  transControl : m.transControl = 1
  transTimer : m.transBufferFullTimer = 0
  pending : m.cause &&& deviceIP = 0

/-! Bits of the control words and of Cause. -/

lemma getLsbD_bit (i : ℕ) {j : ℕ} (hj : j < 32) :
    (1#32 <<< i).getLsbD j = decide (j = i) := by
  rw [BitVec.getLsbD_shiftLeft, BitVec.getLsbD_one, decide_eq_true hj]
  rcases Nat.lt_trichotomy j i with h | h | h
  · simp [h, Nat.ne_of_lt h]
  · simp [h]
  · have hne : j - i ≠ 0 := by omega
    have hji : j ≠ i := by omega
    simp [hne, hji]

lemma decide_and_bit (v : Word) (i : ℕ) (hi : i < 32) :
    decide (v &&& (1#32 <<< i) ≠ 0) = v.getLsbD i := by
  cases h : v.getLsbD i with
  | true =>
    refine decide_eq_true fun h0 => ?_
    have hbit := congrArg (fun x : Word => x.getLsbD i) h0
    simp only [BitVec.getLsbD_and, getLsbD_bit i hi, h, decide_true, Bool.true_and] at hbit
    exact absurd hbit (by simp)
  | false =>
    refine decide_eq_false fun h0 => h0 (BitVec.eq_of_getLsbD_eq fun j hj => ?_)
    rw [BitVec.getLsbD_and, getLsbD_bit i hj]
    by_cases hij : j = i
    · simp [hij, h]
    · simp [hij]

lemma isReady_eq (v : Word) : isReady v = v.getLsbD 0 := decide_and_bit v 0 (by decide)
lemma isEnabled_eq (v : Word) : isEnabled v = v.getLsbD 1 := decide_and_bit v 1 (by decide)

lemma isPending_eq {level : ℕ} (hl : level < 24) (v : Word) :
    isPending level v = v.getLsbD (level+8) := decide_and_bit v (level+8) (by omega)

@[simp] lemma isReady_setReady (v : Word) : isReady (v ||| readyBit) = true := by
  simp [isReady_eq, readyBit]

@[simp] lemma isReady_clearReady (v : Word) : isReady (v &&& ~~~readyBit) = false := by
  simp [isReady_eq, readyBit]

@[simp] lemma isReady_setEnabled (v : Word) : isReady (v ||| intEnableBit) = isReady v := by
  simp [isReady_eq, intEnableBit]

@[simp] lemma isReady_clearEnabled (v : Word) : isReady (v &&& ~~~intEnableBit) = isReady v := by
  simp [isReady_eq, intEnableBit]

@[simp] lemma isEnabled_setEnabled (v : Word) : isEnabled (v ||| intEnableBit) = true := by
  simp [isEnabled_eq, intEnableBit]

@[simp] lemma isEnabled_clearEnabled (v : Word) : isEnabled (v &&& ~~~intEnableBit) = false := by
  simp [isEnabled_eq, intEnableBit]

@[simp] lemma isEnabled_setReady (v : Word) : isEnabled (v ||| readyBit) = isEnabled v := by
  simp [isEnabled_eq, readyBit]

@[simp] lemma isEnabled_clearReady (v : Word) : isEnabled (v &&& ~~~readyBit) = isEnabled v := by
  simp [isEnabled_eq, readyBit]

lemma isPending_raise {k l : ℕ} (hl : l < 24) (m : Machine) :
    isPending l (m.raiseInterrupt k).cause = (decide (l = k) || isPending l m.cause) := by
  have hc : (m.raiseInterrupt k).cause = m.cause ||| (1#32 <<< (k+8)) := m.cause_setCp0 13 _
  rw [hc, isPending_eq hl, isPending_eq hl, BitVec.getLsbD_or, getLsbD_bit _ (by omega),
    Bool.or_comm]
  simp

lemma isPending_clear {k l : ℕ} (hl : l < 24) (m : Machine) :
    isPending l (m.clearInterrupt k).cause = (!decide (l = k) && isPending l m.cause) := by
  have hc : (m.clearInterrupt k).cause = m.cause &&& ~~~(1#32 <<< (k+8)) := m.cause_setCp0 13 _
  have h32 : l+8 < 32 := by omega
  rw [hc, isPending_eq hl, isPending_eq hl, BitVec.getLsbD_and, BitVec.getLsbD_not,
    getLsbD_bit _ h32, decide_eq_true h32, Bool.true_and, Bool.and_comm]
  simp

/-! What the operations do. -/

lemma readIO_final (addr : Word) (m : Machine) :
    final (( readMemoryMappedIO addr).run m) = if addr = recvBufferAddr then
      ({ m with recvControl := m.recvControl &&& ~~~readyBit, recvBufferFullTimer := 0 :
        Machine }).clearInterrupt recvIntLevel else m := by
  have h1 : recvBufferAddr ≠ transCtrlAddr := by decide
  have h2 : recvBufferAddr ≠ transBufferAddr := by decide
  have h3 : recvBufferAddr ≠ recvCtrlAddr := by decide
  unfold readMemoryMappedIO
  simp only [EStateM.run_bind, EStateM.run_get]
  by_cases h : addr = recvBufferAddr
  · subst h
    simp only [h1, h2, h3, if_false, if_true]
    rfl
  · simp only [h, if_false]
    split
    · rfl
    · split
      · rfl
      · split
        · rfl
        · rfl

/-- A write that is accepted: the characters, the controls and the interrupts after it. -/
lemma writeIO_final (addr value : Word) (m : Machine) :
    final (( writeMemoryMappedIO addr value).run m) =
      if addr = transCtrlAddr then
        if value &&& intEnableBit ≠ 0 then
          if isReady m.transControl then
            { m with transControl := m.transControl ||| intEnableBit : Machine
            }.raiseInterrupt transIntLevel
          else { m with transControl := m.transControl ||| intEnableBit }
        else { m with transControl := m.transControl &&& ~~~intEnableBit : Machine
          }.clearInterrupt transIntLevel
      else if addr = transBufferAddr ∧ isReady m.transControl then
        { m with
          transBuffer := value &&& 0xff
          transControl := m.transControl &&& ~~~readyBit
          transBufferFullTimer := transLatency
          transmitted := value.setWidth 8 :: m.transmitted : Machine }.clearInterrupt transIntLevel
      else if addr = recvCtrlAddr then
        if value &&& intEnableBit ≠ 0 then
          if isReady m.recvControl then
            { m with recvControl := m.recvControl ||| intEnableBit : Machine
            }.raiseInterrupt recvIntLevel
          else { m with recvControl := m.recvControl ||| intEnableBit }
        else { m with recvControl := m.recvControl &&& ~~~intEnableBit : Machine
          }.clearInterrupt recvIntLevel
      else m := by
  have hready : ∀ c, ((c ||| intEnableBit) &&& readyBit ≠ 0) = (isReady c = true) := by
    intro c
    rw [← isReady_setEnabled c, isReady, decide_eq_true_eq]
  have hready' : (m.transControl &&& readyBit ≠ 0) = (isReady m.transControl = true) := by
    rw [isReady, decide_eq_true_eq]
  unfold writeMemoryMappedIO
  simp only [EStateM.run_bind, EStateM.run_get, hready, hready']
  by_cases h1 : addr = transCtrlAddr
  · simp only [h1, if_true]
    by_cases hv : value &&& intEnableBit ≠ 0
    · simp only [if_pos hv]
      rfl
    · simp only [if_neg hv]
      rfl
  simp only [if_neg h1]
  by_cases h2 : addr = transBufferAddr
  · have h3 : transBufferAddr ≠ recvCtrlAddr := by decide
    by_cases hr : isReady m.transControl = true
    · simp only [h2, hr, and_self, if_true]
      rfl
    · simp only [h2, hr, h3, if_true, if_false]
      rfl
  simp only [h2, false_and, if_false]
  by_cases h3 : addr = recvCtrlAddr
  · simp only [h3, if_true]
    by_cases hv : value &&& intEnableBit ≠ 0
    · simp only [if_pos hv]
      rfl
    · simp only [if_neg hv]
      rfl
  · simp only [if_neg h3]
    split
    · rfl
    · rfl

namespace DevicesOk

variable {m t : Machine}

lemma recv (h : DevicesOk m) (hc : t.transControl = m.transControl)
    (ht : t.transBufferFullTimer = m.transBufferFullTimer)
    (hp : isPending transIntLevel t.cause = isPending transIntLevel m.cause)
    (hr : isPending recvIntLevel t.cause = (isReady t.recvControl && isEnabled t.recvControl))
    (hrt : 0 < t.recvBufferFullTimer → isReady t.recvControl = true) : DevicesOk t := by
  refine ⟨hr, ?_, hrt, ?_⟩
  · rw [hp, hc]
    exact h.transPending
  · rw [ht, hc]
    exact h.transTimer

lemma trans (h : DevicesOk m) (hc : t.recvControl = m.recvControl)
    (ht : t.recvBufferFullTimer = m.recvBufferFullTimer)
    (hp : isPending recvIntLevel t.cause = isPending recvIntLevel m.cause)
    (hr : isPending transIntLevel t.cause = (isReady t.transControl && isEnabled t.transControl))
    (hrt : 0 < t.transBufferFullTimer → isReady t.transControl = false) : DevicesOk t := by
  refine ⟨?_, hr, ?_, hrt⟩
  · rw [hp, hc]
    exact h.recvPending
  · rw [ht, hc]
    exact h.recvTimer

/-- The receiver's control changes, and its interrupt goes with it. -/
lemma clearRecv (h : DevicesOk m) (c : Word) (n : ℕ) (hc : (isReady c && isEnabled c) = false)
    (hn : 0 < n → isReady c = true) :
    DevicesOk (({ m with recvControl := c, recvBufferFullTimer := n } : Machine).clearInterrupt
      recvIntLevel) := by
  refine h.recv rfl rfl ?_ ?_ hn
  · rw [isPending_clear (by decide)]
    rfl
  · rw [isPending_clear (by decide)]
    exact hc.symm

lemma clearTrans (h : DevicesOk m) (c b : Word) (n : ℕ) (out : List Byte)
    (hc : (isReady c && isEnabled c) = false) (hn : 0 < n → isReady c = false) :
    DevicesOk (({ m with
        transControl := c, transBuffer := b, transBufferFullTimer := n, transmitted := out } :
      Machine).clearInterrupt transIntLevel) := by
  refine h.trans rfl rfl ?_ ?_ hn
  · rw [isPending_clear (by decide)]
    rfl
  · rw [isPending_clear (by decide)]
    exact hc.symm

lemma raiseRecv (h : DevicesOk m) (c b : Word) (n : ℕ) (hc : (isReady c && isEnabled c) = true) :
    DevicesOk (({ m with recvControl := c, recvBuffer := b, recvBufferFullTimer := n } :
      Machine).raiseInterrupt recvIntLevel) := by
  refine h.recv rfl rfl ?_ ?_ fun _ => (Bool.and_eq_true_iff.mp hc).1
  · rw [isPending_raise (by decide)]
    rfl
  · rw [isPending_raise (by decide)]
    exact hc.symm

lemma raiseTrans (h : DevicesOk m) (c : Word) (hc : (isReady c && isEnabled c) = true)
    (hn : m.transBufferFullTimer = 0) :
    DevicesOk (({ m with transControl := c } : Machine).raiseInterrupt transIntLevel) := by
  refine h.trans rfl rfl ?_ ?_ fun h0 => ?_
  · rw [isPending_raise (by decide)]
    rfl
  · rw [isPending_raise (by decide)]
    exact hc.symm
  · exact absurd h0 (by rw [show _ = 0 from hn]; exact Nat.lt_irrefl 0)

lemma read (h : DevicesOk m) (addr : Word) :
    DevicesOk (final (( readMemoryMappedIO addr).run m)) := by
  rw [readIO_final]
  split
  · exact h.clearRecv _ 0 (by simp) nofun
  · exact h

/-- A new enable bit of a device that is not ready. -/
lemma enableRecv (h : DevicesOk m) (hr : isReady m.recvControl = false) :
    DevicesOk { m with recvControl := m.recvControl ||| intEnableBit } := by
  refine h.recv rfl rfl rfl ?_ fun hn => ?_
  · rw [isReady_setEnabled, hr]
    exact h.recvPending.trans (by rw [hr]; rfl)
  · exact (isReady_setEnabled _).trans (h.recvTimer hn)

lemma enableTrans (h : DevicesOk m) (hr : isReady m.transControl = false) :
    DevicesOk { m with transControl := m.transControl ||| intEnableBit } := by
  refine h.trans rfl rfl rfl ?_ fun _ => ?_
  · rw [isReady_setEnabled, hr]
    exact h.transPending.trans (by rw [hr]; rfl)
  · exact (isReady_setEnabled _).trans hr

lemma transIdle (h : DevicesOk m) (hr : isReady m.transControl = true) :
    m.transBufferFullTimer = 0 := by
  by_contra hn
  have hbusy := h.transTimer (Nat.pos_of_ne_zero hn)
  rw [hr] at hbusy
  cases hbusy

lemma write (h : DevicesOk m) (addr value : Word) :
    DevicesOk (final (( writeMemoryMappedIO addr value).run m)) := by
  rw [writeIO_final]
  split
  · split
    · split
      next hr => exact h.raiseTrans _ (by simp [hr]) (h.transIdle hr)
      next hr => exact h.enableTrans (by simpa using hr)
    · refine h.clearTrans _ m.transBuffer m.transBufferFullTimer m.transmitted (by simp) fun hn => ?_
      rw [isReady_clearEnabled]
      exact h.transTimer hn
  · split
    · exact h.clearTrans _ _ _ _ (by simp) fun _ => by simp
    · split
      · split
        · split
          next hr => exact h.raiseRecv _ m.recvBuffer m.recvBufferFullTimer (by simp [hr])
          next hr => exact h.enableRecv (by simpa using hr)
        · refine h.clearRecv _ m.recvBufferFullTimer (by simp) fun hn => ?_
          rw [isReady_clearEnabled]
          exact h.recvTimer hn
      · exact h

lemma transmitDone (h : DevicesOk m) : DevicesOk m.transmitDone := by
  unfold Machine.transmitDone
  split
  next hn => exact h.trans rfl rfl rfl h.transPending fun _ => h.transTimer hn
  next hn =>
    split
    next hr =>
      have hready : isReady m.transControl = false := decide_eq_false (not_not.mpr hr)
      have hzero : m.transBufferFullTimer = 0 := Nat.eq_zero_of_not_pos hn
      dsimp only
      split
      next he =>
        have hen : isEnabled (m.transControl ||| readyBit) = true := decide_eq_true he
        exact h.raiseTrans _ (by rw [hen]; simp) hzero
      next he =>
        have hen : isEnabled (m.transControl ||| readyBit) = false := decide_eq_false he
        refine h.trans rfl rfl rfl ?_ fun h0 => absurd h0 hn
        rw [hen, Bool.and_false]
        refine h.transPending.trans ?_
        rw [hready, Bool.false_and]
    next => exact h

/-- A poll, also one that a control-C on the console ends. -/
lemma check (host : Host) : Keeps (Rel.stable DevicesOk) ( checkMemoryMappedIO host) := by
  have hhost : ∀ (m : Machine) c n, DevicesOk m →
      DevicesOk { m with consoleIn := c, hostCalls := n } :=
    fun _ _ _ h => ⟨h.recvPending, h.transPending, h.recvTimer, h.transTimer⟩
  have hreceive : Keeps (Rel.stable DevicesOk) (receiveChar host) := by
    refine Keeps.bind ?_ fun c => Keeps.modify fun m h => ?_
    · refine Keeps.get_bind fun m => KeepsFrom.bind (KeepsFrom.set (hhost m _ _)) fun _ _ _ => ?_
      exact KeepsFrom.ite (fun _ => KeepsFrom.throw _) fun _ => KeepsFrom.pure _
    · dsimp only
      split
      next he =>
        have hen : isEnabled (m.recvControl ||| readyBit) = true := decide_eq_true he
        exact h.raiseRecv _ _ _ (by rw [hen]; simp)
      next he =>
        have hen : isEnabled (m.recvControl ||| readyBit) = false := decide_eq_false he
        refine h.recv rfl rfl rfl ?_ fun _ => isReady_setReady _
        rw [isEnabled_setReady] at hen
        rw [isEnabled_setReady, hen, Bool.and_false]
        refine h.recvPending.trans ?_
        rw [hen, Bool.and_false]
  refine Keeps.get_bind fun m => KeepsFrom.ite (fun hn => ?_) fun _ => ?_
  · refine KeepsFrom.bind (KeepsFrom.set fun h => ?_) fun _ t _ =>
      Keeps.modify (fun m h => h.transmitDone) t
    exact h.recv rfl rfl rfl h.recvPending fun _ => h.recvTimer hn
  · exact Keeps.bind (Keeps.onlyIf hreceive) (fun _ => Keeps.modify fun m h => h.transmitDone) m

lemma same (h : DevicesOk m) (hs : t.deviceView = m.deviceView) : DevicesOk t := by
  have hrc : t.recvControl = m.recvControl := congrArg DeviceView.recvControl hs
  have hrt : t.recvBufferFullTimer = m.recvBufferFullTimer := congrArg DeviceView.recvTimer hs
  have htc : t.transControl = m.transControl := congrArg DeviceView.transControl hs
  have htt : t.transBufferFullTimer = m.transBufferFullTimer := congrArg DeviceView.transTimer hs
  have hp : t.cause &&& deviceIP = m.cause &&& deviceIP := congrArg DeviceView.pending hs
  have hbit : ∀ i, deviceIP.getLsbD i = true → t.cause.getLsbD i = m.cause.getLsbD i := by
    intro i hi
    have hpi := congrArg (fun v : Word => v.getLsbD i) hp
    simpa only [BitVec.getLsbD_and, hi, Bool.and_true] using hpi
  refine ⟨?_, ?_, ?_, ?_⟩
  · rw [hrc, ← h.recvPending, isPending_eq (by decide), isPending_eq (by decide)]
    exact hbit _ (by decide)
  · rw [htc, ← h.transPending, isPending_eq (by decide), isPending_eq (by decide)]
    exact hbit _ (by decide)
  · rw [hrt, hrc]
    exact h.recvTimer
  · rw [htt, htc]
    exact h.transTimer

/-- Every operation keeps what holds of the devices. -/
lemma step (op : DeviceOp) (m t : Machine) (hop : DeviceStep op m t) (h : DevicesOk m) :
    DevicesOk t := by
  cases op with
  | poll host =>
    cases hop
    exact (check host m).final id h
  | read addr =>
    cases hop
    exact h.read addr
  | write addr value ready =>
    obtain ⟨-, rfl⟩ := hop
    exact h.write addr value
  | other => exact h.same hop

lemma initial (h : DevicesInitial m) : DevicesOk m := by
  have hbit : ∀ i, deviceIP.getLsbD i = true → m.cause.getLsbD i = false := by
    intro i hi
    have hpi := congrArg (fun v : Word => v.getLsbD i) h.pending
    simpa only [BitVec.getLsbD_and, hi, Bool.and_true, BitVec.ofNat_eq_ofNat, BitVec.getLsbD_zero]
      using hpi
  refine ⟨?_, ?_, ?_, ?_⟩
  · rw [h.recvControl, isPending_eq (by decide), hbit _ (by decide)]
    decide
  · rw [h.transControl, isPending_eq (by decide), hbit _ (by decide)]
    decide
  · rw [h.recvTimer]
    nofun
  · rw [h.transTimer]
    nofun

end DevicesOk

/-! Output. -/

lemma check_transmitted (host : Host) :
    Keeps (Rel.same fun m : Machine => m.transmitted) ( checkMemoryMappedIO host) := by
  have hdone : ∀ m : Machine, m.transmitDone.transmitted = m.transmitted := by
    intro m
    unfold Machine.transmitDone
    split
    · rfl
    · split
      · dsimp only
        split
        · rfl
        · rfl
      · rfl
  have hreceive : Keeps (Rel.same fun m : Machine => m.transmitted) (receiveChar host) := by
    refine Keeps.bind ?_ fun c => Keeps.modify fun m => ?_
    · refine Keeps.get_bind fun m => KeepsFrom.bind (KeepsFrom.set rfl) fun _ _ _ => ?_
      exact KeepsFrom.ite (fun _ => KeepsFrom.throw _) fun _ => KeepsFrom.pure _
    · dsimp only
      split
      · rfl
      · rfl
  refine Keeps.get_bind fun m => KeepsFrom.ite (fun hn => ?_) fun _ => ?_
  · exact KeepsFrom.bind (KeepsFrom.set rfl) fun _ t _ => Keeps.modify hdone t
  · exact Keeps.bind (Keeps.onlyIf hreceive) (fun _ => Keeps.modify hdone) m

/-- A character is put out by a write to a ready transmitter only. -/
lemma transmitted_step (op : DeviceOp) (m t : Machine) (h : DeviceStep op m t) :
    t.transmitted = op.sent.toList ++ m.transmitted := by
  cases op with
  | poll host =>
    cases h
    exact (check_transmitted host m).final id
  | read addr =>
    cases h
    rw [readIO_final]
    split
    · rfl
    · rfl
  | write addr value ready =>
    obtain ⟨rfl, rfl⟩ := h
    rw [writeIO_final, DeviceOp.sent]
    by_cases h1 : addr = transCtrlAddr
    · have h2 : transCtrlAddr ≠ transBufferAddr := by decide
      simp only [h1, h2, if_true, false_and, if_false]
      split
      · split
        · rfl
        · rfl
      · rfl
    · rw [if_neg h1]
      split
      · rfl
      · split
        · split
          · split
            · rfl
            · rfl
          · rfl
        · rfl
  | other => exact congrArg DeviceView.transmitted h

/-- A write leaves the receiver's ready bit, and the transmitter's unless its character is
accepted. -/
lemma write_ready (addr value : Word) (m : Machine) :
    isReady (final (( writeMemoryMappedIO addr value).run m)).recvControl =
      isReady m.recvControl ∧
    (isReady (final (( writeMemoryMappedIO addr value).run m)).transControl =
      isReady m.transControl ∨ (DeviceOp.write addr value (isReady m.transControl)).sent ≠ none) := by
  rw [writeIO_final]
  by_cases h1 : addr = transCtrlAddr
  · rw [if_pos h1]
    split
    · split
      · exact ⟨rfl, Or.inl (isReady_setEnabled _)⟩
      · exact ⟨rfl, Or.inl (isReady_setEnabled _)⟩
    · exact ⟨rfl, Or.inl (isReady_clearEnabled _)⟩
  · rw [if_neg h1]
    split
    next h2 => exact ⟨rfl, Or.inr (by simp [DeviceOp.sent, h2])⟩
    next =>
      split
      · split
        · split
          · exact ⟨isReady_setEnabled _, Or.inl rfl⟩
          · exact ⟨isReady_setEnabled _, Or.inl rfl⟩
        · exact ⟨isReady_clearEnabled _, Or.inl rfl⟩
      · exact ⟨rfl, Or.inl rfl⟩

/-! Runs of the simulator. -/

/-- A run that writes Cause with no mtc0 is a sequence of operations on the devices. -/
def deviceRun : Rel Machine where
  rel m t := (∃ es, t.trace = es ++ m.trace) ∧
    (.mtc0 13 ∉ t.trace → ∃ ops, Path DeviceStep m ops t)
  refl m := ⟨⟨[], rfl⟩, fun _ => ⟨[], .nil m⟩⟩
  trans := by
    rintro m t u ⟨⟨es, ht⟩, h⟩ ⟨⟨es', hu⟩, h'⟩
    refine ⟨⟨es' ++ es, by rw [hu, ht, List.append_assoc]⟩, fun hn => ?_⟩
    obtain ⟨ops, hp⟩ := h fun hm => hn (by rw [hu]; exact List.mem_append_right _ hm)
    obtain ⟨ops', hp'⟩ := h' hn
    exact ⟨ops ++ ops', hp.append hp'⟩

/-- A step that leaves the devices alone, whatever it adds to the history. -/
lemma deviceRun_other {m t : Machine} (es : List Event) (ht : t.trace = es ++ m.trace)
    (hd : t.deviceView = m.deviceView) : deviceRun.rel m t :=
  ⟨⟨es, ht⟩, fun _ => ⟨[.other], .single hd⟩⟩

/-- An operation of the devices that leaves the history alone. -/
lemma deviceRun_op {α : Type} {x : Exec α} (op : Machine → DeviceOp) (hp : Keeps samePath x)
    (hop : ∀ m, DeviceStep (op m) m (final (x.run m))) : Keeps deviceRun x := by
  intro m
  have hm := hop m
  have hpath : (final (x.run m)).trace = m.trace := congrArg Prod.fst ((hp m).final id)
  rw [KeepsFrom]
  cases hr : x.run m with
  | ok a t =>
    rw [hr] at hm hpath
    exact ⟨⟨[], hpath⟩, fun _ => ⟨[op m], .single hm⟩⟩
  | error e t =>
    rw [hr] at hm hpath
    exact deviceRun.toFailed ⟨⟨[], hpath⟩, fun _ => ⟨[op m], .single hm⟩⟩

lemma deviceView_raise (m : Machine) (e : ExcCode) :
    (m.raiseException e).deviceView = m.deviceView := by
  have hrule := (raiseException_rule m e).cause
  have hc : (m.raiseException e).cause &&& deviceIP = m.cause &&& deviceIP := by
    have hmask := congrArg (· &&& deviceIP) hrule
    simp only [BitVec.and_assoc] at hmask
    exact hmask
  obtain ⟨c, b, f, h⟩ := m.raiseException_eq e
  rw [h] at hc ⊢
  simp only [Machine.deviceView, hc]

lemma deviceView_setCause (m : Machine) (v : Word) (h : v &&& deviceIP = m.cause &&& deviceIP) :
    (m.setCp0 13 v).deviceView = m.deviceView := by
  have hc : (m.setCp0 13 v).cause = v := m.cause_setCp0 13 v
  rw [Machine.deviceView, hc, h]
  rfl

lemma accessRel_deviceRun : AccessRel deviceRun where
  data _ _ _ _ _ := deviceRun_other [] rfl rfl
  alloc _ _ := deviceRun_other [] rfl rfl
  patch _ _ _ := deviceRun_other [] rfl rfl
  ioRead addr := deviceRun_op (fun _ => .read addr) (deviceRel_samePath.ioRead addr) fun _ => rfl
  ioWrite addr value := deviceRun_op (fun m => .write addr value (isReady m.transControl))
    (deviceRel_samePath.ioWrite addr value) fun _ => ⟨rfl, rfl⟩
  raise m e _ _ := deviceRun_other [] (congrArg Prod.fst (samePath_raise m e)) (deviceView_raise m e)

lemma printRel_deviceRun : PrintRel deviceRun where
  toAccessRel := accessRel_deviceRun
  regs m g hg := by
    refine deviceRun_other [] rfl ?_
    rw [Machine.deviceView, show (m.setRegs g).cause = m.cause from congrFun hg 13]
    rfl
  tick m := by
    have hcount : (m.setCp0 9 (m.count + 1)).deviceView = m.deviceView := rfl
    unfold bumpCP0Timer
    dsimp only
    split
    · refine deviceRun_other [] rfl (Eq.trans (deviceView_setCause _ _ ?_) hcount)
      have h7 : (1#32 <<< (7+8)) &&& deviceIP = 0 := by decide
      rw [word_or_and, h7, word_or_zero]
    · exact deviceRun_other [] rfl hcount
  pc _ _ := deviceRun_other [] rfl rfl
  flag _ := deviceRun_other [] rfl rfl
  peek := accessRel_deviceRun.peek (fun _ _ => deviceRun_other [] rfl rfl)
    fun _ _ => deviceRun_other [] rfl rfl
  exception m e _ := deviceRun_other [] (congrArg Prod.fst (samePath_raise m e)) (deviceView_raise m e)
  queue _ _ := deviceRun_other [] rfl rfl
  devices h := deviceRun_op (fun _ => .poll h) (deviceRel_samePath.check h) fun _ => rfl
  host _ _ _ := deviceRun_other [] rfl rfl
  dataTop _ _ _ := deviceRun_other [] rfl rfl
  text _ _ _ := deviceRun_other [] rfl rfl
  kText _ _ _ := deviceRun_other [] rfl rfl
  bkpts _ _ := deviceRun_other [] rfl rfl

/-- Writes of other registers than Cause leave the devices' interrupts alone. -/
lemma moveToCp0_deviceView {m : Machine} {i : Inst} {g : Regs} (hg : m.moveToCp0 i = .regs g)
    (h13 : i.fs ≠ 13) : (m.setRegs g).deviceView = m.deviceView := by
  cases hg
  have hc : (m.setCp0 i.fs (m.gpr i.rt)).cause = m.cause :=
    (m.cause_setCp0 i.fs _).trans (if_neg fun h => h13 h.symm)
  have hfs : (m.setCp0 i.fs (m.gpr i.rt)).deviceView = m.deviceView := by
    rw [Machine.deviceView, hc]
    rfl
  split
  next h =>
    refine Eq.trans (deviceView_setCause (m.setCp0 i.fs (m.gpr i.rt)) (m.cause &&& ~~~causeIP7) ?_)
      hfs
    have h7 : ~~~causeIP7 &&& deviceIP = deviceIP := by decide
    rw [hc, BitVec.and_assoc, h7]
  next h => exact hfs
  next h => exact absurd h h13
  next h => exact hfs
  next h => exact hfs

lemma runRel_deviceRun (env : Env) : RunRel env deviceRun where
  toPrintRel := printRel_deviceRun
  enter := by
    refine printRel_deviceRun.enter (fun m => deviceRun_other [.raised] rfl rfl) (fun m => ?_)
      fun i m => deviceRun_other (instEvents i m) rfl rfl
    obtain ⟨g, f, d, d', h⟩ := doDelayedUpdate_eq env m
    rw [h]
    exact deviceRun_other [] rfl rfl
  take m := by
    unfold takeInterrupt
    split
    · let m' : Machine := { m with trace := .interrupt m.status m.cause :: m.trace }
      exact deviceRun_other [.interrupt m.status m.cause]
        (congrArg Prod.fst (samePath_raise m' .int)) (deviceView_raise m' .int)
    · exact deviceRun.refl m
  raised m := by
    unfold logRaised
    split
    · exact deviceRun_other [.raised] rfl rfl
    · exact deviceRun.refl m
  exit v := Keeps.modify fun m => deviceRun_other [.exit m.place] rfl rfl
  mtc0 m i g hx hg := by
    obtain ⟨-, older, ht⟩ := hx
    by_cases h13 : i.fs = 13
    · refine ⟨⟨[], rfl⟩, fun hn => absurd ?_ hn⟩
      rw [show (m.setRegs g).trace = m.trace from rfl, ht, h13]
      exact List.mem_cons_self
    · exact deviceRun_other [] rfl (moveToCp0_deviceView hg h13)
  eret _ _ := deviceRun_other [] rfl rfl
  place _ _ _ := deviceRun_other [] rfl rfl

/-- What holds after any sequence of operations on new devices, whatever else happens. -/
structure DevicesInvariant (m : Machine) : Prop where
  ok : ∀ ops t, Path DeviceStep m ops t → DevicesOk t
  sent : ∀ ops t, Path DeviceStep m ops t →
    t.transmitted = (ops.filterMap DeviceOp.sent).reverse ++ m.transmitted
  ready : ∀ ops t, Path DeviceStep m ops t → ∀ addr value,
    isReady (final (( writeMemoryMappedIO addr value).run t)).recvControl = isReady t.recvControl ∧
    (isReady (final (( writeMemoryMappedIO addr value).run t)).transControl =
      isReady t.transControl ∨ (DeviceOp.write addr value (isReady t.transControl)).sent ≠ none)

/-- From new devices every sequence of operations keeps the invariants, and every run that writes
Cause with no mtc0 is such a sequence. -/
theorem console_device_invariants (env : Env) (display : Bool) (depth : ℕ) (pc : Word)
    (steps : ℕ) (contBkpt : Bool) (s : Narrator) (c : Core) (hc : DevicesInitial c.start) :
    DevicesInvariant c.start ∧
      let t := final ((runProgram env display depth pc steps contBkpt s).run c.start)
      (.mtc0 13 ∉ t.trace → ∃ ops, Path DeviceStep c.start ops t) := by
  constructor
  · refine ⟨fun ops t h => ?_, fun ops t h => ?_, fun ops t _ addr value => write_ready addr value t⟩
    · exact h.invariant DevicesOk.step (DevicesOk.initial hc)
    · exact h.collects transmitted_step
  · have hexl : ∀ m : Machine, deviceRun.rel m (m.setCp0 12 (m.status &&& ~~~statusEXL)) :=
      fun _ => deviceRun_other [] rfl rfl
    have hrun := (runRel_deviceRun env).toLoopRel.runProgram hexl display depth pc steps contBkpt s c.start
    exact (hrun.final id).2

/-- A program that writes a character to the transmitter. -/
def sendsChar : Core :=
  (Machine.ofText [makeITypeInst .lui 8 0 0xffff, makeITypeInst .addiu 9 0 65,
    makeITypeInst .sw 9 8 12]).toCore

theorem console_device_invariants_sendsChar :
    DevicesInvariant sendsChar.start ∧
      let t := final ((runProgram { Env.quiet with mappedIO := true } false 1 0x400000 3 false
        {}).run sendsChar.start)
      (.mtc0 13 ∉ t.trace → ∃ ops, Path DeviceStep sendsChar.start ops t) :=
  console_device_invariants { Env.quiet with mappedIO := true } false 1 0x400000 3 false {} sendsChar
    ⟨rfl, rfl, rfl, rfl, rfl⟩

end Spimulator
