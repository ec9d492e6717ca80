import Spimulator.Load
import Spimulator.RunRel

/-! The exception state of coprocessor 0 along runs: when interrupts are delivered, what an
exception does to EPC and Cause, and which values Status takes. -/
namespace Spimulator
open Frame

lemma word_and_right_comm (a b c : Word) : a &&& b &&& c = a &&& c &&& b := by
  rw [BitVec.and_assoc, BitVec.and_comm b, ← BitVec.and_assoc]

lemma word_or_and (a b c : Word) : (a ||| b) &&& c = a &&& c ||| b &&& c := by
  rw [BitVec.and_comm, BitVec.and_or_distrib_left, BitVec.and_comm c, BitVec.and_comm c]

/-! Status. -/

/-- The bits of Status that are always set: UM and two of the CU bits. -/
def statusFixed : Word := 0x30000000 ||| statusUM

/-- A value within CP0_Status_Mask that has the fixed bits. -/
structure StatusWithin (v : Word) : Prop where
  mask : v &&& ~~~statusMask = 0
  fixed : v &&& statusFixed = statusFixed

instance (v : Word) : Decidable (StatusWithin v) :=
  decidable_of_iff (v &&& ~~~statusMask = 0 ∧ v &&& statusFixed = statusFixed)
    ⟨fun h => ⟨h.1, h.2⟩, fun h => ⟨h.mask, h.fixed⟩⟩

namespace StatusWithin

variable {v : Word}

lemma setExl (h : StatusWithin v) : StatusWithin (v ||| statusEXL) := by
  constructor
  · rw [word_or_and, h.mask]
    decide
  · rw [word_or_and, h.fixed]
    decide

lemma clearExl (h : StatusWithin v) : StatusWithin (v &&& ~~~statusEXL) := by
  constructor
  · rw [word_and_right_comm, h.mask]
    exact BitVec.zero_and
  · rw [word_and_right_comm, h.fixed]
    decide

/-- What mtc0 stores in Status. -/
lemma stored (v : Word) :
    StatusWithin ((v &&& statusMask) ||| ((statusCU &&& 0x30000000) ||| statusUM)) := by
  constructor
  · rw [word_or_and, BitVec.and_assoc]
    have h : statusMask &&& ~~~statusMask = 0 := by decide
    rw [h, show v &&& 0 = 0 from BitVec.and_zero]
    decide
  · rw [word_or_and]
    have h : ((statusCU &&& 0x30000000) ||| statusUM) &&& statusFixed = statusFixed := by decide
    rw [h, BitVec.or_comm]
    apply BitVec.eq_of_getLsbD_eq
    intro i hi
    simp only [BitVec.getLsbD_or, BitVec.getLsbD_and]
    cases statusFixed.getLsbD i <;> simp

end StatusWithin

@[simp] lemma or_statusEXL_ne_zero (v : Word) : (v ||| statusEXL) &&& statusEXL ≠ 0 := by
  intro h
  have hbit := congrArg (fun x : Word => x.getLsbD 1) h
  simp [statusEXL] at hbit

namespace Machine

variable (m : Machine)

lemma status_of_cp0 {m t : Machine} (h : t.cp0 = m.cp0) : t.status = m.status := congrFun h 12

lemma exl_of_status {m t : Machine} (h : t.status = m.status) : t.exl = m.exl := by
  rw [exl, exl, h]

lemma cp0_setCp0 (r k : RegNo) (v : Word) :
    (m.setCp0 r v).cp0 k = if k = r then v else m.cp0 k := Function.update_apply _ _ _ _

@[simp] lemma status_setCp0 (r : RegNo) (v : Word) :
    (m.setCp0 r v).status = if 12 = r then v else m.status := m.cp0_setCp0 r 12 v

@[simp] lemma cause_setCp0 (r : RegNo) (v : Word) :
    (m.setCp0 r v).cause = if 13 = r then v else m.cause := m.cp0_setCp0 r 13 v

@[simp] lemma epc_setCp0 (r : RegNo) (v : Word) :
    (m.setCp0 r v).epc = if 14 = r then v else m.epc := m.cp0_setCp0 r 14 v

end Machine

/-! raise_exception. -/

/-- An exception is taken unless it is an interrupt that Status does not allow. -/
def Taken (m : Machine) (e : ExcCode) : Prop :=
  e ≠ .int ∨ (m.status &&& statusIE ≠ 0 ∧ m.exl = false)

/-- What an exception does to EPC, Cause and Status. -/
structure RaiseRule (m : Machine) (e : ExcCode) (t : Machine) : Prop where
  ignored : ¬ Taken m e → t = m
  epcKept : m.exl = true → t.epc = m.epc
  epc : Taken m e → m.exl = false →
    t.epc = roundDown (if m.runningInDelaySlot then m.pc - 4 else m.pc)
  cause : t.cause &&& ~~~(causeExcCode ||| causeBD) = m.cause &&& ~~~(causeExcCode ||| causeBD)
  code : Taken m e → t.exCode = e.code
  bd : Taken m e → t.bd = (m.bd || (!m.exl && m.runningInDelaySlot))
  status : Taken m e → t.status = m.status ||| statusEXL

lemma exl_eq_false_iff (m : Machine) : m.exl = false ↔ m.status &&& statusEXL = 0 := by
  simp [Machine.exl]

/-- EPC and Cause.BD, when the exception sets them. -/
def Machine.exceptionPc (m : Machine) : Word :=
  roundDown (if m.runningInDelaySlot then m.pc - 4 else m.pc)

def Machine.exceptionCause (m : Machine) : Word :=
  if m.exl = false ∧ m.runningInDelaySlot = true then m.cause ||| causeBD else m.cause

lemma recordEpc_cp0 (m : Machine) (k : RegNo) : m.recordEpc.cp0 k =
    if k = 13 then m.exceptionCause
    else if k = 14 ∧ m.exl = false then m.exceptionPc else m.cp0 k := by
  unfold Machine.recordEpc Machine.exceptionCause Machine.exceptionPc
  cases hx : m.exl with
  | true =>
    by_cases hk : k = 13
    · simp only [hk, if_true, reduceCtorEq, false_and, if_false]
      rfl
    · simp only [hk, if_true, if_false, reduceCtorEq, and_false]
  | false =>
    cases hs : m.runningInDelaySlot with
    | true => simp only [if_true, if_false, and_true, reduceCtorEq, Machine.cp0_setCp0]
    | false =>
      by_cases hk : k = 13
      · have h14 : (13 : RegNo) ≠ 14 := by decide
        simp only [hk, h14, if_true, if_false, and_false, reduceCtorEq, Machine.cp0_setCp0]
        rfl
      · simp only [hk, if_false, and_true, reduceCtorEq, Machine.cp0_setCp0]

/-- The last two assignments of raise_exception, on what recordEpc leaves. -/
lemma mark_cp0 (m r : Machine) (e : ExcCode) (k : RegNo)
    (hr : ∀ k, r.cp0 k = if k = 13 then m.exceptionCause
      else if k = 14 ∧ m.exl = false then m.exceptionPc else m.cp0 k) :
    ((r.setCp0 13 ((r.cause &&& ~~~causeExcCode) ||| (e.code <<< 2))).setCp0 12
      ((r.setCp0 13 ((r.cause &&& ~~~causeExcCode) ||| (e.code <<< 2))).status |||
        statusEXL)).cp0 k =
      if k = 12 then m.status ||| statusEXL
      else if k = 13 then (m.exceptionCause &&& ~~~causeExcCode) ||| (e.code <<< 2)
      else if k = 14 ∧ m.exl = false then m.exceptionPc else m.cp0 k := by
  have hstatus : r.status = m.status := hr 12
  have hcause : r.cause = m.exceptionCause := hr 13
  rw [Machine.cp0_setCp0, Machine.cp0_setCp0, Machine.status_setCp0, if_neg (by decide : ¬ (12 : RegNo) = 13), hstatus,
    hcause, hr k]
  by_cases h13 : k = 13
  · rw [if_pos h13, if_pos h13]
  · rw [if_neg h13, if_neg h13, if_neg h13]

lemma raiseException_cp0 {m : Machine} {e : ExcCode} (h : Taken m e) (k : RegNo) :
    (m.raiseException e).cp0 k =
      if k = 12 then m.status ||| statusEXL
      else if k = 13 then (m.exceptionCause &&& ~~~causeExcCode) ||| (e.code <<< 2)
      else if k = 14 ∧ m.exl = false then m.exceptionPc else m.cp0 k := by
  obtain ⟨f, hf⟩ := Machine.recordFirstBad_eq { m with exceptionOccurred := true } e
  have hrec := recordEpc_cp0 { m with exceptionOccurred := true, firstBadException := f }
  unfold Machine.raiseException
  unfold Taken at h
  rw [if_pos (by simpa using h)]
  simp only [hf]
  exact mark_cp0 m _ e k hrec

lemma code_extract (c : Word) (e : ExcCode) :
    (((c &&& ~~~causeExcCode) ||| (e.code <<< 2)) &&& causeExcCode) >>> 2 = e.code := by
  rw [word_or_and, BitVec.and_assoc]
  have h : ~~~causeExcCode &&& causeExcCode = 0 := by decide
  rw [h, show c &&& 0 = 0 from BitVec.and_zero, show ∀ v : Word, 0 ||| v = v from fun v =>
    BitVec.zero_or]
  cases e <;> decide

lemma word_or_zero (v : Word) : v ||| 0 = v := BitVec.or_zero

lemma mark_other (c : Word) (e : ExcCode) (mask : Word) (h : ~~~causeExcCode &&& mask = mask)
    (he : (e.code <<< 2) &&& mask = 0) :
    ((c &&& ~~~causeExcCode) ||| (e.code <<< 2)) &&& mask = c &&& mask := by
  rw [word_or_and, BitVec.and_assoc, h, he, word_or_zero]

lemma raiseException_rule (m : Machine) (e : ExcCode) : RaiseRule m e (m.raiseException e) := by
  by_cases h : Taken m e
  · have hcause : (m.raiseException e).cause =
        (m.exceptionCause &&& ~~~causeExcCode) ||| (e.code <<< 2) := raiseException_cp0 h 13
    have hstatus : (m.raiseException e).status = m.status ||| statusEXL := raiseException_cp0 h 12
    have hepc : (m.raiseException e).epc = if (14 : RegNo) = 14 ∧ m.exl = false then m.exceptionPc
        else m.epc := raiseException_cp0 h 14
    refine ⟨fun h' => absurd h h', fun hx => ?_, fun _ hx => ?_, ?_, fun _ => ?_, fun _ => ?_,
      fun _ => hstatus⟩
    · rw [hepc, if_neg]
      simp [hx]
    · rw [hepc, if_pos ⟨rfl, hx⟩, Machine.exceptionPc]
    · rw [hcause, mark_other _ e _ (by decide) (by cases e <;> decide)]
      unfold Machine.exceptionCause
      split
      · rw [word_or_and, show causeBD &&& ~~~(causeExcCode ||| causeBD) = 0 by decide, word_or_zero]
      · rfl
    · rw [Machine.exCode, hcause, code_extract]
    · have hmark := mark_other m.exceptionCause e causeBD (by decide) (by cases e <;> decide)
      rw [Machine.bd, Machine.bd, hcause, hmark]
      unfold Machine.exceptionCause
      split
      next hx =>
        have hbd : (m.cause ||| causeBD) &&& causeBD ≠ 0 := by
          intro h0
          have hbit := congrArg (fun v : Word => v.getLsbD 31) h0
          simp [causeBD] at hbit
        rw [decide_eq_true hbd, hx.1, hx.2]
        simp
      next hx =>
        cases hexl : m.exl <;> cases hs : m.runningInDelaySlot <;> simp_all
  · have hm : m.raiseException e = m := by
      unfold Machine.raiseException
      unfold Taken at h
      rw [if_neg (by simpa using h)]
    rw [hm]
    exact ⟨fun _ => rfl, fun _ => rfl, fun h' => absurd h' h, rfl, fun h' => absurd h' h,
      fun h' => absurd h' h, fun h' => absurd h' h⟩

/-! Runs. -/

/-- IE is set, EXL is clear, and an interrupt is pending that IM does not mask. -/
def Enabled (status cause : Word) : Prop :=
  status &&& statusIE ≠ 0 ∧ status &&& statusEXL = 0 ∧
    (cause &&& causeIP) &&& (status &&& statusIM) ≠ 0

/-- Whether, after these events (newest first), an exception or an interrupt has been taken since
the last eret and the last mtc0 to Status. -/
def inHandler (start : Bool) : List Event → Bool
  | [] => start
  | .raised :: _ => true
  | .interrupt _ _ :: _ => true
  | .eret :: _ => false
  | .mtc0 r :: es => if r = 12 then false else inHandler start es
  | .exec _ _ :: es => inHandler start es
  | .exit _ :: es => inHandler start es

/-- Interrupts are delivered only when they are enabled, and never inside a handler. -/
def Guarded (start : Bool) (es : List Event) : Prop :=
  ∀ newer status cause older, es = newer ++ .interrupt status cause :: older →
    Enabled status cause ∧ inHandler start older = false

lemma Guarded.nil (start : Bool) : Guarded start [] := by
  intro newer status cause older h
  cases newer <;> cases h

lemma Guarded.cons {start : Bool} {e : Event} {es : List Event} (h : Guarded start es)
    (he : ∀ status cause, e = .interrupt status cause →
      Enabled status cause ∧ inHandler start es = false) : Guarded start (e :: es) := by
  intro newer status cause older heq
  cases newer with
  | nil =>
    obtain ⟨rfl, rfl⟩ := List.cons.inj heq
    exact he status cause rfl
  | cons e' newer =>
    obtain ⟨-, heq⟩ := List.cons.inj heq
    exact h newer status cause older heq

/-- A machine that started inside a handler or outside of one: in the middle of a run, or between
two calls of run_spim, where the exception flag may be out of date. -/
structure ExcState (start running : Bool) (m : Machine) : Prop where
  guarded : Guarded start m.trace
  handler : inHandler start m.trace = true → m.exl = true
  flag : running = true → m.exceptionOccurred = true → m.exl = true
  status : StatusWithin m.status

namespace ExcState

variable {start running : Bool} {m t : Machine}

/-- A change of neither Status nor the history. -/
lemma of_same (h : ExcState start running m) (ht : t.trace = m.trace) (hs : t.status = m.status)
    (hf : t.exceptionOccurred = true → m.exceptionOccurred = true) : ExcState start running t where
  guarded := ht ▸ h.guarded
  handler hi := (Machine.exl_of_status hs).trans (h.handler (ht ▸ hi))
  flag hr hi := (Machine.exl_of_status hs).trans (h.flag hr (hf hi))
  status := hs ▸ h.status

/-- EXL is set, whatever the exception flag is. -/
lemma of_exl (h : ExcState start running m) (ht : t.trace = m.trace)
    (hs : t.status = m.status ||| statusEXL) : ExcState start running t := by
  have hexl : t.exl = true := by
    rw [Machine.exl, hs]
    exact decide_eq_true (or_statusEXL_ne_zero _)
  exact ⟨ht ▸ h.guarded, fun _ => hexl, fun _ _ => hexl, hs ▸ h.status.setExl⟩

lemma raise (h : ExcState start running m) (e : ExcCode) : ExcState start running (m.raiseException e) := by
  have hrule := raiseException_rule m e
  by_cases he : Taken m e
  · exact h.of_exl (congrArg Prod.fst (samePath_raise m e)) (hrule.status he)
  · rw [hrule.ignored he]
    exact h

end ExcState

def keepsExcState (start running : Bool) : Rel Machine := Rel.stable (ExcState start running)

section

variable (start running : Bool)

lemma deviceRel_excState : DeviceRel (keepsExcState start running) where
  device _ _ _ _ _ _ _ _ h := h.of_same rfl rfl id
  raiseInt m _ h := h.of_same rfl (m.status_setCp0 13 _) id
  clearInt m _ h := h.of_same rfl (m.status_setCp0 13 _) id
  host _ _ _ h := h.of_same rfl rfl id

lemma accessRel_excState : AccessRel (keepsExcState start running) where
  data _ _ _ _ _ h := h.of_same rfl rfl id
  alloc _ _ h := h.of_same rfl rfl id
  patch _ _ _ h := h.of_same rfl rfl id
  ioRead := (deviceRel_excState start running).ioRead
  ioWrite := (deviceRel_excState start running).ioWrite
  raise _ e _ _ h := (h.raise e).of_same rfl (Machine.status_setCp0 _ 8 _) id

end

/-- Accesses do not clear EXL. -/
lemma accessRel_exl : AccessRel (Rel.stable fun m : Machine => m.exl = true) := by
  have hset : ∀ (m : Machine) v, (m.setCp0 13 v).exl = m.exl := fun m v =>
    Machine.exl_of_status (m.status_setCp0 13 v)
  have hdev : DeviceRel (Rel.stable fun m : Machine => m.exl = true) :=
    ⟨fun _ _ _ _ _ _ _ _ => id, fun m _ h => (hset m _).trans h, fun m _ h => (hset m _).trans h,
      fun _ _ _ => id⟩
  refine ⟨fun _ _ _ _ _ => id, fun _ _ => id, fun _ _ _ => id, hdev.ioRead, hdev.ioWrite, ?_⟩
  intro m e a he _
  have hrule := raiseException_rule m e
  refine (Machine.exl_of_status (Machine.status_setCp0 (m.raiseException e) 8 a)).trans ?_
  rw [Machine.exl, hrule.status (Or.inl he)]
  exact decide_eq_true (or_statusEXL_ne_zero _)

/-- peek restores the flag, and EXL is set if it was. -/
lemma peek_excState (start running : Bool) (w : Width) (addr : Word) :
    Keeps (keepsExcState start running) (peek w addr) := by
  intro m
  have hread := (accessRel_excState start running).memRead w addr m
  have hexl := accessRel_exl.memRead w addr m
  rw [KeepsFrom] at hread hexl
  simp only [KeepsFrom, peek, EStateM.run_bind, EStateM.run_get]
  cases hr : (memRead w addr).run m with
  | error e t =>
    rw [hr] at hread
    exact hread
  | ok v t =>
    rw [hr] at hread hexl
    simp only [EStateM.run_modify]
    intro hm
    have ht := hread hm
    have hs := Machine.status_setCp0 t 8 m.badVAddr
    exact ⟨ht.guarded, fun hi => (Machine.exl_of_status hs).trans (ht.handler hi),
      fun hr hf => (Machine.exl_of_status hs).trans (hexl (hm.flag hr hf)), hs ▸ ht.status⟩

lemma printRel_excState (start running : Bool) : PrintRel (keepsExcState start running) where
  toAccessRel := accessRel_excState start running
  regs m g hg h := h.of_same rfl (Machine.status_of_cp0 (m := m) (t := m.setRegs g) hg) id
  tick m h := by
    have hcount : ExcState start running (m.setCp0 9 (m.count + 1)) :=
      h.of_same rfl (m.status_setCp0 9 _) id
    unfold bumpCP0Timer
    dsimp only
    split
    · exact hcount.of_same rfl (Machine.status_setCp0 _ 13 _) id
    · exact hcount
  pc _ _ h := h.of_same rfl rfl id
  flag _ h := h.of_same rfl rfl nofun
  peek := peek_excState start running
  exception m e _ h := h.raise e
  queue _ _ h := h.of_same rfl rfl id
  devices := (deviceRel_excState start running).check
  host _ _ _ h := h.of_same rfl rfl id
  dataTop _ _ _ h := h.of_same rfl rfl id
  text _ _ _ h := h.of_same rfl rfl id
  kText _ _ _ h := h.of_same rfl rfl id
  bkpts _ _ h := h.of_same rfl rfl id

/-! The parts of a step that write the history. -/

section

variable {start running : Bool} {m : Machine}

lemma excState_raised (h : ExcState start running m) (hx : m.exl = true) :
    ExcState start running { m with trace := .raised :: m.trace } :=
  ⟨h.guarded.cons nofun, fun _ => hx, h.flag, h.status⟩

lemma excState_instEvents (h : ExcState start running m) (i : Inst) :
    ExcState start running (logInst i m) := by
  have hexec : ∀ a, Guarded start (.exec m.pc a :: m.trace) := fun a => h.guarded.cons nofun
  unfold logInst instEvents
  split
  · refine ⟨(hexec none).cons nofun, fun hi => h.handler ?_, h.flag, h.status⟩
    simp only [List.cons_append, List.nil_append, inHandler] at hi
    split at hi
    · cases hi
    · exact hi
  · exact ⟨(hexec none).cons nofun, fun hi => h.handler (by cases hi), h.flag, h.status⟩
  · exact ⟨hexec _, fun hi => h.handler hi, h.flag, h.status⟩

/-- An exception that is taken leads into the handler. -/
lemma excState_taken {e : ExcCode} (hg : Guarded start m.trace) (hs : StatusWithin m.status)
    (he : Taken m e) : ExcState start running (m.raiseException e).handleException := by
  have hrule := (raiseException_rule m e).status he
  have htrace : (m.raiseException e).trace = m.trace := congrArg Prod.fst (samePath_raise m e)
  have hexl : (m.raiseException e).exl = true := by
    rw [Machine.exl, hrule]
    exact decide_eq_true (or_statusEXL_ne_zero _)
  refine ⟨?_, fun _ => hexl, fun _ => nofun, ?_⟩
  · change Guarded start (m.raiseException e).trace
    rw [htrace]
    exact hg
  · change StatusWithin (m.raiseException e).status
    rw [hrule]
    exact hs.setExl

/-- An enabled interrupt is one that raise_exception takes. -/
lemma excState_takeInterrupt (h : ExcState start running m) :
    ExcState start running (takeInterrupt m) := by
  unfold takeInterrupt
  split
  next hp =>
    have hout : inHandler start m.trace = false := by
      cases hi : inHandler start m.trace with
      | false => rfl
      | true =>
        have hexl := h.handler hi
        rw [hp.2.1] at hexl
        cases hexl
    have hon : Enabled m.status m.cause :=
      ⟨hp.1, (exl_eq_false_iff m).mp hp.2.1, hp.2.2⟩
    have hguard : Guarded start (.interrupt m.status m.cause :: m.trace) :=
      h.guarded.cons fun _ _ he => by
        cases he
        exact ⟨hon, hout⟩
    exact excState_taken hguard h.status (Or.inr ⟨hp.1, hp.2.1⟩)
  next => exact h

lemma moveToCp0_status {i : Inst} {g : Regs} (hg : m.moveToCp0 i = .regs g) :
    (m.setRegs g).status = if i.fs = 12 then
      (m.gpr i.rt &&& statusMask) ||| ((statusCU &&& 0x30000000) ||| statusUM) else m.status := by
  cases hg
  split
  next h =>
    rw [h]
    rfl
  next h =>
    rw [h]
    rfl
  next h =>
    rw [h]
    rfl
  next h =>
    rw [h]
    rfl
  next h1 h2 h3 h4 =>
    rw [if_neg (show ¬ i.fs = 12 from h2)]
    exact Function.update_of_ne (fun h => h2 h.symm) _ _

lemma excState_mtc0 (h : ExcState start running m) {i : Inst} {g : Regs} (hx : Executing (.mtc0 i.fs) m)
    (hg : m.moveToCp0 i = .regs g) : ExcState start running (m.setRegs g) := by
  obtain ⟨hflag, older, ht⟩ := hx
  have hs := moveToCp0_status hg
  by_cases h12 : i.fs = 12
  · rw [if_pos h12] at hs
    refine ⟨h.guarded, fun hi => ?_, fun _ hi => ?_, hs.symm ▸ StatusWithin.stored _⟩
    · have hin : inHandler start m.trace = true := hi
      rw [ht, h12] at hin
      cases hin
    · rw [show m.exceptionOccurred = true from hi] at hflag
      cases hflag
  · rw [if_neg h12] at hs
    exact h.of_same rfl hs id

lemma excState_eret (h : ExcState start running m) (hx : Executing .eret m) :
    ExcState start running (m.setCp0 12 (m.status &&& ~~~statusEXL)) := by
  obtain ⟨hflag, older, ht⟩ := hx
  have hs := m.status_setCp0 12 (m.status &&& ~~~statusEXL)
  rw [if_pos rfl] at hs
  refine ⟨h.guarded, fun hi => ?_, fun _ hi => ?_, hs.symm ▸ h.status.clearExl⟩
  · have hout : inHandler start m.trace = true := hi
    rw [ht] at hout
    cases hout
  · rw [show m.exceptionOccurred = true from hi] at hflag
    cases hflag

end

/-- The part of a step before the switch. -/
lemma enter_excState (env : Env) (start : Bool) (s : Narrator) :
    Keeps (keepsExcState start true) (enter env s) := by
  have hR := printRel_excState start true
  intro m
  refine KeepsFrom.bind (hR.stepHead env m) fun _ t _ => ?_
  refine KeepsFrom.bind (hR.fetch env t) fun r u hu => ?_
  have hflag := fetch_flag env t r u hu
  cases r with
  | none =>
    refine KeepsFrom.bind (KeepsFrom.modify fun h => ?_) fun _ _ _ => KeepsFrom.pure _
    exact (excState_raised h (h.flag rfl hflag)).of_same rfl rfl nofun
  | some i =>
    refine KeepsFrom.bind (KeepsFrom.modify fun h => ?_) fun _ v _ => ?_
    · obtain ⟨g, f, d, d', hd⟩ := doDelayedUpdate_eq env u
      rw [hd]
      exact h.of_same rfl rfl id
    · refine KeepsFrom.get_bind (KeepsFrom.bind (hR.explainBefore env s i v.pc v) fun _ _ _ => ?_)
      exact KeepsFrom.bind (KeepsFrom.modify fun h => excState_instEvents h i)
        fun _ _ _ => KeepsFrom.pure _

lemma runRel_excState (env : Env) (start : Bool) : RunRel env (keepsExcState start true) where
  toPrintRel := printRel_excState start true
  enter := enter_excState env start
  take _ := excState_takeInterrupt
  raised m h := by
    unfold logRaised
    split
    next hf => exact excState_raised h (h.flag rfl hf)
    next => exact h
  exit v := Keeps.modify fun m h => ⟨h.guarded.cons nofun, fun hi => h.handler hi, h.flag, h.status⟩
  mtc0 _ _ _ hx hg h := excState_mtc0 h hx hg
  eret _ hx h := excState_eret h hx
  place _ _ _ h := h.of_same rfl rfl id

/-! run_program. -/

/-- run_program clears the exception flag before each call of run_spim. -/
lemma runCleared_excState (env : Env) (display : Bool) (depth : ℕ) (pc : Word) (n : ℕ)
    (s : Narrator) (start : Bool) (p : Place) : Keeps (keepsExcState start false) (do
      modify fun m => { m with exceptionOccurred := false, place := p }
      runSpim env display depth pc n s) := by
  intro m
  have hrun := (runRel_excState env start).toLoopRel.runSpim display depth pc n s
    { m with exceptionOccurred := false, place := p }
  rw [KeepsFrom] at hrun
  simp only [KeepsFrom, EStateM.run_bind, EStateM.run_modify]
  have hstart : ExcState start false m →
      ExcState start true { m with exceptionOccurred := false, place := p } :=
    fun h => ⟨h.guarded, h.handler, fun _ he => absurd he Bool.false_ne_true, h.status⟩
  have hend : ∀ {t : Machine}, ExcState start true t → ExcState start false t :=
    fun h => ⟨h.guarded, h.handler, fun hr => absurd hr Bool.false_ne_true, h.status⟩
  cases hr : (runSpim env display depth pc n s).run
      { m with exceptionOccurred := false, place := p } with
  | ok r t =>
    rw [hr] at hrun
    exact fun h => hend (hrun (hstart h))
  | error e t =>
    rw [hr] at hrun
    obtain ⟨t', ht, rfl⟩ := hrun
    exact ⟨t', fun h => hend (ht (hstart h)), rfl⟩

lemma stepOver_excState (env : Env) (display : Bool) (depth : ℕ) (pc : Word) (s : Narrator)
    (start : Bool) : Keeps (keepsExcState start false) (stepOver env display depth pc s) := by
  have hR := printRel_excState start false
  refine Keeps.get_bind fun m => Keeps.bind (hR.deleteBreakpoint _ _) (fun _ => ?_) m
  have hrun := runCleared_excState env display depth (if m.pc = 0 then pc else m.pc) 1 s start .over
  rw [← bind_assoc]
  exact Keeps.bind hrun fun _ => Keeps.bind (hR.addBreakpoint _ _) fun _ => Keeps.pure _

/-- What holds of interrupts and of Status when the run is at its end. -/
def SafeEnd (start : Bool) (t : Machine) : Prop := Guarded start t.trace ∧ StatusWithin t.status

lemma runMain_safeEnd (env : Env) (display : Bool) (depth : ℕ) (pc : Word) (n : ℕ) (s : Narrator)
    {start : Bool} {m : Machine} (h : ExcState start false m) :
    SafeEnd start (final ((runMain env display depth pc n s).run m)) := by
  have hrun := runCleared_excState env display depth pc n s start .main m
  rw [KeepsFrom] at hrun
  simp only [runMain]
  rw [← bind_assoc, EStateM.run_bind]
  cases hr : (do
      modify fun m => { m with exceptionOccurred := false, place := .main }
      runSpim env display depth pc n s : Exec (Bool × Narrator)).run m with
  | error e t =>
    rw [hr] at hrun
    obtain ⟨t, ht, rfl⟩ := hrun
    have ht := ht h
    exact ⟨ht.guarded, ht.status⟩
  | ok r t =>
    rw [hr] at hrun
    have ht := hrun h
    simp only [EStateM.run_bind, EStateM.run_get]
    split
    · refine ⟨ht.guarded, ?_⟩
      have hs := t.status_setCp0 12 (t.status &&& ~~~statusEXL)
      rw [if_pos rfl] at hs
      exact hs.symm ▸ ht.status.clearExl
    · exact ⟨ht.guarded, ht.status⟩

lemma runProgram_safeEnd (env : Env) (display : Bool) (depth : ℕ) (pc : Word) (steps : ℕ)
    (contBkpt : Bool) (s : Narrator) {start : Bool} {m : Machine} (h : ExcState start false m) :
    SafeEnd start (final ((runProgram env display depth pc steps contBkpt s).run m)) := by
  have hR := printRel_excState start false
  have hbkpt : Keeps (keepsExcState start false)
      (if contBkpt then instIsBreakpoint env.tbl pc else pure false : Exec Bool) :=
    Keeps.ite (fun _ => hR.instIsBreakpoint _ _) fun _ => Keeps.pure _
  have hb := hbkpt m
  rw [KeepsFrom] at hb
  rw [runProgram, EStateM.run_bind]
  cases hr : (if contBkpt then instIsBreakpoint env.tbl pc else pure false : Exec Bool).run m with
  | error e t =>
    rw [hr] at hb
    obtain ⟨t, hb, rfl⟩ := hb
    exact ⟨(hb h).guarded, (hb h).status⟩
  | ok onBkpt t =>
    rw [hr] at hb
    cases onBkpt with
    | false => exact runMain_safeEnd env display depth pc steps s (hb h)
    | true =>
      have hover := stepOver_excState env display depth pc s start t
      rw [KeepsFrom] at hover
      simp only [if_true, EStateM.run_bind, EStateM.run_get]
      cases hs : (stepOver env display depth pc s).run t with
      | error e u =>
        rw [hs] at hover
        obtain ⟨u, hover, rfl⟩ := hover
        exact ⟨(hover (hb h)).guarded, (hover (hb h)).status⟩
      | ok r u =>
        rw [hs] at hover
        exact runMain_safeEnd env display depth u.pc _ r.2 (hover (hb h))

/-- A program in a new world that has an interrupt pending and enables interrupts. -/
def enablesPending : Core :=
  { (Machine.ofText [makeRCoTypeInst .mtc0 8 12 0, makeITypeInst .addiu 9 9 1]).initializeRegisters with
    gpr := fun r => if r = 8 then 0xff01 else 0
    cp0 := fun r => if r = 12 then 0x3000ff10 else if r = 13 then 0x100 else 0 }

end Spimulator
