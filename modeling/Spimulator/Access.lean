import Spimulator.Run

/-! What the parts of a step may change. A relation between states that allows the elementary
changes of memory.c is kept by every accessor; one that allows the changes of registers, console
and breakpoints too is kept by everything short of jumps and the exit service. -/
namespace Spimulator
open Frame

/-- The relation allows any change of the devices, and of the interrupts pending. -/
structure DeviceRel (R : Rel Machine) : Prop where
  device : ∀ (m : Machine) rc rb rt tc tb tt out, R.rel m { m with
    recvControl := rc, recvBuffer := rb, recvBufferFullTimer := rt
    transControl := tc, transBuffer := tb, transBufferFullTimer := tt, transmitted := out }
  raiseInt : ∀ (m : Machine) l, R.rel m (m.raiseInterrupt l)
  clearInt : ∀ (m : Machine) l, R.rel m (m.clearInterrupt l)
  host : ∀ (m : Machine) c n, R.rel m { m with consoleIn := c, hostCalls := n }

namespace DeviceRel

variable {R : Rel Machine} (hR : DeviceRel R)

include hR

lemma ioRead (addr : Word) : Keeps R ( readMemoryMappedIO addr) := by
  refine Keeps.get_bind fun m => ?_
  refine KeepsFrom.ite (fun _ => KeepsFrom.pure _) fun _ => ?_
  refine KeepsFrom.ite (fun _ => KeepsFrom.pure _) fun _ => ?_
  refine KeepsFrom.ite (fun _ => KeepsFrom.pure _) fun _ => ?_
  refine KeepsFrom.ite (fun _ => ?_) (fun _ => KeepsFrom.throw _)
  refine Keeps.bind (Keeps.modify fun m => ?_) (fun _ => Keeps.pure _) m
  exact R.trans (hR.device m _ _ _ _ _ _ _) (hR.clearInt _ _)

lemma ioWrite (addr value : Word) : Keeps R ( writeMemoryMappedIO addr value) := by
  refine Keeps.get_bind fun m => ?_
  refine KeepsFrom.ite (fun _ => ?_) fun _ => ?_
  · refine KeepsFrom.ite (fun _ => KeepsFrom.set ?_) fun _ => KeepsFrom.set ?_
    · dsimp only
      split
      · exact R.trans (hR.device m _ _ _ _ _ _ _) (hR.raiseInt _ _)
      · exact hR.device m _ _ _ _ _ _ _
    · exact R.trans (hR.device m _ _ _ _ _ _ _) (hR.clearInt _ _)
  refine KeepsFrom.ite (fun _ => ?_) fun _ => ?_
  · refine KeepsFrom.ite (fun _ => KeepsFrom.set ?_) fun _ => KeepsFrom.pure _
    exact R.trans (hR.device m _ _ _ _ _ _ _) (hR.clearInt _ _)
  refine KeepsFrom.ite (fun _ => ?_) fun _ => ?_
  · refine KeepsFrom.ite (fun _ => KeepsFrom.set ?_) fun _ => KeepsFrom.set ?_
    · dsimp only
      split
      · exact R.trans (hR.device m _ _ _ _ _ _ _) (hR.raiseInt _ _)
      · exact hR.device m _ _ _ _ _ _ _
    · exact R.trans (hR.device m _ _ _ _ _ _ _) (hR.clearInt _ _)
  exact KeepsFrom.ite (fun _ => KeepsFrom.pure _) fun _ => KeepsFrom.throw _

lemma getConsoleChar (h : Host) : Keeps R (Spimulator.getConsoleChar h) := by
  refine Keeps.get_bind fun m => ?_
  refine KeepsFrom.bind (KeepsFrom.set (hR.host m _ _)) fun _ _ _ => ?_
  exact KeepsFrom.ite (fun _ => KeepsFrom.throw _) fun _ => KeepsFrom.pure _

lemma receiveChar (h : Host) : Keeps R (Spimulator.receiveChar h) := by
  refine Keeps.bind (hR.getConsoleChar h) fun c => Keeps.modify fun m => ?_
  dsimp only
  split
  · exact R.trans (hR.device m _ _ _ _ _ _ _) (hR.raiseInt _ _)
  · exact hR.device m _ _ _ _ _ _ _

lemma transmitDone (m : Machine) : R.rel m m.transmitDone := by
  unfold Machine.transmitDone
  dsimp only
  split
  · exact hR.device m _ _ _ _ _ _ _
  · split
    · split
      · exact R.trans (hR.device m _ _ _ _ _ _ _) (hR.raiseInt _ _)
      · exact hR.device m _ _ _ _ _ _ _
    · exact R.refl m

lemma check (h : Host) : Keeps R ( checkMemoryMappedIO h) := by
  refine Keeps.get_bind fun m => ?_
  refine KeepsFrom.ite (fun _ => ?_) fun _ => ?_
  · exact KeepsFrom.bind (KeepsFrom.set (hR.device m _ _ _ _ _ _ _))
      fun _ t _ => Keeps.modify hR.transmitDone t
  · exact Keeps.bind (Keeps.onlyIf (hR.receiveChar h))
      (fun _ => Keeps.modify hR.transmitDone) m

end DeviceRel

/-- The relation allows what the accessors do to the machine: new contents of the data segments,
a new instruction in text, accesses to the devices, and exceptions. -/
structure AccessRel (R : Rel Machine) : Prop where
  data : ∀ (m : Machine) ds ss sb ks,
    R.rel m { m with dataSeg := ds, stackSeg := ss, stackBot := sb, kDataSeg := ks }
  alloc : ∀ (m : Machine) i, R.rel m (m.allocInst i).2
  patch : ∀ (m : Machine) i k, R.rel m ((m.allocInst i).2.setText k (some (m.allocInst i).1))
  ioRead : ∀ addr, Keeps R ( readMemoryMappedIO addr)
  ioWrite : ∀ addr value, Keeps R ( writeMemoryMappedIO addr value)
  raise : ∀ (m : Machine) e a, e ≠ .int → R.rel m (m.raiseAddr e a)

lemma keeps_textEncoding {R : Rel Machine} (addr : Word) : Keeps R (textEncoding addr) := by
  refine Keeps.get_bind fun m => ?_
  cases m.textSeg (Machine.textIndex addr) with
  | none => exact KeepsFrom.throw _
  | some r => exact KeepsFrom.pure _

namespace AccessRel

variable {R : Rel Machine} (hR : AccessRel R)

include hR

lemma expandStack (n : ℤ) : Keeps R (Spimulator.expandStack n) := by
  refine Keeps.get_bind fun m => ?_
  refine KeepsFrom.ite (fun _ => KeepsFrom.throw _) fun _ => ?_
  exact KeepsFrom.ite (fun _ => KeepsFrom.throw _) fun _ => KeepsFrom.set (hR.data m _ _ _ _)

lemma raising (e : ExcCode) (he : e ≠ .int) (addr : Word) :
    Keeps R (modify fun m => m.raiseAddr e addr : Exec Unit) :=
  Keeps.modify fun m => hR.raise m e addr he

lemma badMemRead (addr : Word) (w : Width) : Keeps R (Spimulator.badMemRead addr w) := by
  refine Keeps.get_bind fun m => ?_
  refine KeepsFrom.ite (fun _ => ?_) fun _ => ?_
  · exact Keeps.bind (hR.raising _ (by decide) _) (fun _ => Keeps.pure _) m
  refine KeepsFrom.ite (fun _ => ?_) fun _ => ?_
  · cases w with
    | byte => exact Keeps.bind (keeps_textEncoding _) (fun _ => Keeps.pure _) m
    | half => exact Keeps.bind (keeps_textEncoding _) (fun _ => Keeps.pure _) m
    | word =>
      cases m.textSeg (Machine.textIndex addr) with
      | none => exact KeepsFrom.pure _
      | some r => exact KeepsFrom.pure _
  refine KeepsFrom.ite (fun _ => ?_) fun _ => ?_
  · exact Keeps.bind (hR.expandStack _) (fun _ => Keeps.pure _) m
  refine KeepsFrom.ite (fun _ => hR.ioRead _ m) fun _ => ?_
  exact Keeps.bind (hR.raising _ (by decide) _) (fun _ => Keeps.pure _) m

theorem memRead (w : Width) (addr : Word) : Keeps R (Spimulator.memRead w addr) := by
  refine Keeps.get_bind fun m => ?_
  refine KeepsFrom.ite (fun _ => KeepsFrom.pure _) fun _ => ?_
  refine KeepsFrom.ite (fun _ => KeepsFrom.pure _) fun _ => ?_
  exact KeepsFrom.ite (fun _ => KeepsFrom.pure _) fun _ => hR.badMemRead _ _ m

lemma badMemWrite (tbl : AOpcodeTbl) (addr value : Word) (w : Width) :
    Keeps R (Spimulator.badMemWrite tbl addr value w) := by
  refine Keeps.get_bind fun m => ?_
  refine KeepsFrom.ite (fun _ => hR.raising _ (by decide) _ m) fun _ => ?_
  refine KeepsFrom.ite (fun _ => KeepsFrom.set (hR.patch m _ _)) fun _ => ?_
  refine KeepsFrom.ite (fun _ => ?_) fun _ => ?_
  · refine Keeps.bind (hR.expandStack _) (fun _ => Keeps.get_bind fun m => ?_) m
    refine KeepsFrom.ite (fun _ => KeepsFrom.set ?_) fun _ => hR.raising _ (by decide) _ m
    exact hR.data m _ _ _ _
  refine KeepsFrom.ite (fun _ => hR.ioWrite _ _ m) fun _ => ?_
  exact hR.raising _ (by decide) _ m

theorem memWrite (tbl : AOpcodeTbl) (w : Width) (addr value : Word) :
    Keeps R (Spimulator.memWrite tbl w addr value) := by
  refine Keeps.get_bind fun m => ?_
  refine KeepsFrom.ite (fun _ => KeepsFrom.set (hR.data m _ _ _ _)) fun _ => ?_
  refine KeepsFrom.ite (fun _ => KeepsFrom.set (hR.data m _ _ _ _)) fun _ => ?_
  refine KeepsFrom.ite (fun _ => KeepsFrom.set (hR.data m _ _ _ _)) fun _ => ?_
  exact hR.badMemWrite _ _ _ _ m

theorem memReadInst (tbl : AOpcodeTbl) (addr : Word) :
    Keeps R (Spimulator.memReadInst tbl addr) := by
  refine Keeps.get_bind fun m => ?_
  refine KeepsFrom.ite (fun _ => KeepsFrom.pure _) fun _ => ?_
  refine KeepsFrom.ite (fun _ => KeepsFrom.pure _) fun _ => ?_
  refine Keeps.bind (hR.raising _ (by decide) _) (fun _ => Keeps.get_bind fun m => ?_) m
  exact KeepsFrom.bind (KeepsFrom.set (hR.alloc m _)) (fun _ _ _ => KeepsFrom.pure _)

lemma storePart (env : Env) (addr : Word) (merge : Word → Word) :
    Keeps R (storePart env addr merge) :=
  Keeps.bind (hR.memRead _ _) fun _ => hR.memWrite _ _ _ _

lemma storeDouble (env : Env) (addr lo hi : Word) : Keeps R (storeDouble env addr lo hi) :=
  Keeps.bind (Keeps.onlyIf (hR.raising _ (by decide) _)) fun _ =>
    Keeps.bind (hR.memWrite _ _ _ _) fun _ => hR.memWrite _ _ _ _

lemma peek (hbad : ∀ (m : Machine) v, R.rel m (m.setCp0 8 v))
    (hflag : ∀ (m : Machine) b, R.rel m { m with exceptionOccurred := b }) (w : Width)
    (addr : Word) : Keeps R (Spimulator.peek w addr) := by
  refine Keeps.get_bind fun m => ?_
  refine Keeps.bind (hR.memRead w addr) (fun _ => Keeps.modify fun m' => ?_) m
  exact R.trans (hbad m' _) (hflag _ _)

end AccessRel

/-- The relation also allows what looking at the program does: the end of an exception, the looks
that explain.c takes at memory, and breakpoints set and deleted. -/
structure LookRel (R : Rel Machine) : Prop extends AccessRel R where
  flag : ∀ m : Machine, R.rel m { m with exceptionOccurred := false }
  peek : ∀ w addr, Keeps R (peek w addr)
  text : ∀ (m : Machine) k r, R.rel m (m.setText k r)
  kText : ∀ (m : Machine) k r, R.rel m (m.setKText k r)
  bkpts : ∀ (m : Machine) bs, R.rel m { m with bkpts := bs }

namespace LookRel

variable {R : Rel Machine} (hR : LookRel R)

include hR

lemma badTextWrite (tbl : AOpcodeTbl) (addr : Word) (i : Option InstRef) :
    Keeps R (badTextWrite tbl addr i) := by
  refine Keeps.bind (hR.raising _ (by decide) _) fun _ => Keeps.get_bind fun m => ?_
  cases i with
  | none => exact KeepsFrom.throw _
  | some r => exact hR.memWrite _ _ _ _ m

lemma memWriteInst (tbl : AOpcodeTbl) (addr : Word) (i : Option InstRef) :
    Keeps R (memWriteInst tbl addr i) := by
  refine Keeps.get_bind fun m => ?_
  refine KeepsFrom.ite (fun _ => KeepsFrom.set (hR.text m _ _)) fun _ => ?_
  refine KeepsFrom.ite (fun _ => KeepsFrom.set (hR.kText m _ _)) fun _ => ?_
  exact hR.badTextWrite _ _ _ m

lemma instIsBreakpoint (tbl : AOpcodeTbl) (addr : Word) : Keeps R (instIsBreakpoint tbl addr) :=
  Keeps.bind (hR.memReadInst _ _) fun _ => Keeps.pure _

lemma setBreakpoint (tbl : AOpcodeTbl) (addr : Word) : Keeps R (setBreakpoint tbl addr) := by
  refine Keeps.bind (Keeps.modify hR.flag) fun _ => ?_
  refine Keeps.bind (hR.memReadInst _ _) fun old => ?_
  refine Keeps.ite (fun _ => Keeps.pure _) fun _ => ?_
  exact Keeps.bind (hR.memWriteInst _ _ _) fun _ => Keeps.get_bind fun m => KeepsFrom.pure _

lemma addBreakpoint (tbl : AOpcodeTbl) (addr : Word) : Keeps R (addBreakpoint tbl addr) := by
  refine Keeps.bind (hR.setBreakpoint _ _) fun old => ?_
  cases old with
  | none => exact Keeps.pure _
  | some r => exact Keeps.modify fun m => hR.bkpts m _

lemma restoreInsts (tbl : AOpcodeTbl) (addr : Word) (bs : List (Word × InstRef)) :
    Keeps R (restoreInsts tbl addr bs) := by
  induction bs with
  | nil => exact Keeps.pure _
  | cons b bs ih => exact Keeps.bind (hR.memWriteInst _ _ _) fun _ => ih

lemma deleteBreakpoint (tbl : AOpcodeTbl) (addr : Word) :
    Keeps R (deleteBreakpoint tbl addr) := by
  refine Keeps.get_bind fun m => ?_
  exact Keeps.bind (hR.restoreInsts _ _ _) (fun _ => Keeps.modify fun m => hR.bkpts m _) m

lemma formatAnInst (tbl : AOpcodeTbl) (addr : Word) (n : ℕ) :
    Keeps R (formatAnInst tbl addr n) := by
  induction n with
  | zero => exact Keeps.throw _
  | succ n ih =>
    refine Keeps.ite (fun _ => Keeps.pure _) fun _ => ?_
    refine Keeps.bind (hR.instIsBreakpoint _ _) fun b => ?_
    refine Keeps.ite (fun _ => ?_) fun _ => Keeps.pure _
    refine Keeps.bind (hR.deleteBreakpoint _ _) fun _ => ?_
    refine Keeps.bind (hR.memReadInst _ _) fun _ => ?_
    exact Keeps.bind ih fun _ => hR.addBreakpoint _ _

lemma formatInst (tbl : AOpcodeTbl) (addr : Word) : Keeps R (formatInst tbl addr) :=
  Keeps.get_bind fun m => hR.formatAnInst _ _ _ m

lemma instToString (tbl : AOpcodeTbl) (addr : Word) : Keeps R (instToString tbl addr) := by
  refine Keeps.bind (Keeps.modify hR.flag) fun _ => ?_
  refine Keeps.bind (hR.memReadInst _ _) fun _ => Keeps.get_bind fun m => ?_
  exact KeepsFrom.ite (fun _ => KeepsFrom.pure _) fun _ => hR.formatInst _ _ m

lemma formatInsts (tbl : AOpcodeTbl) (n : ℕ) (addr : Word) :
    Keeps R (formatInsts tbl n addr) := by
  induction n generalizing addr with
  | zero => exact Keeps.pure _
  | succ n ih =>
    refine Keeps.bind (hR.memReadInst _ _) fun r => ?_
    cases r with
    | none => exact ih _
    | some r => exact Keeps.bind (hR.formatInst _ _) fun _ => ih _

lemma fetch (env : Env) : Keeps R (fetch env) := by
  refine Keeps.bind (Keeps.modify hR.flag) fun _ => ?_
  refine Keeps.get_bind fun m => ?_
  refine Keeps.bind (hR.memReadInst _ _) (fun r => Keeps.get_bind fun m => ?_) m
  refine KeepsFrom.ite (fun _ => KeepsFrom.pure _) fun _ => ?_
  cases r with
  | none => exact KeepsFrom.throw _
  | some r =>
    dsimp only
    split
    · exact KeepsFrom.pure _
    · exact KeepsFrom.ite (fun _ => KeepsFrom.throw _) fun _ => KeepsFrom.pure _

lemma peekAll (ps : List (Width × Word)) : Keeps R (peekAll ps) := by
  induction ps with
  | nil => exact Keeps.pure _
  | cons p ps ih => exact Keeps.bind (hR.peek _ _) fun _ => ih

lemma explainBefore (env : Env) (s : Narrator) (i : Inst) (addr : Word) :
    Keeps R (explainBefore env s i addr) := by
  refine Keeps.ite (fun _ => Keeps.pure _) fun _ => ?_
  refine Keeps.bind (Keeps.onlyIf (Keeps.get_bind fun m => hR.formatInsts _ _ _ m)) fun _ => ?_
  refine Keeps.get_bind fun m => ?_
  cases storeAddr i m with
  | none => exact KeepsFrom.pure _
  | some a => exact Keeps.bind (hR.peek _ _) (fun _ => Keeps.pure _) m

lemma explainAfter (env : Env) (s : Narrator) (i : Inst) : Keeps R (explainAfter env s i) := by
  refine Keeps.ite (fun _ => Keeps.pure _) fun _ => ?_
  exact Keeps.bind (hR.instToString _ _) fun _ => Keeps.onlyIf (hR.peekAll _)

end LookRel

/-- The relation also allows what the services do short of exiting: new contents of the registers
other than $0, those of coprocessor 0 and the control registers of the floating-point unit, console
input, and a new end of the data segment. -/
structure ServiceRel (R : Rel Machine) : Prop extends AccessRel R where
  serviceRegs : ∀ (m : Machine) g, g.cp0 = m.cp0 → g.fcr = m.fcr → g.gpr 0 = m.gpr 0 →
    R.rel m (m.setRegs g)
  host : ∀ (m : Machine) c n, R.rel m { m with consoleIn := c, hostCalls := n }
  dataTop : ∀ (m : Machine) t ds, R.rel m { m with dataTop := t, dataSeg := ds }

namespace ServiceRel

variable {R : Rel Machine} (hR : ServiceRel R)

include hR

omit hR in
lemma memReference (addr : Word) : Keeps R (memReference addr) := by
  refine Keeps.get_bind fun m => ?_
  refine KeepsFrom.ite (fun _ => KeepsFrom.pure _) fun _ => ?_
  refine KeepsFrom.ite (fun _ => KeepsFrom.pure _) fun _ => ?_
  refine KeepsFrom.ite (fun _ => KeepsFrom.pure _) fun _ => ?_
  refine KeepsFrom.ite (fun _ => KeepsFrom.pure _) fun _ => ?_
  exact KeepsFrom.ite (fun _ => KeepsFrom.pure _) fun _ => KeepsFrom.throw _

lemma putBytes (r : MemRef) (bs : List Byte) : Keeps R (putBytes r bs) := by
  cases r with
  | text => exact Keeps.ite (fun _ => Keeps.pure _) fun _ => Keeps.throw _
  | data off => exact Keeps.modify fun m => hR.data m _ _ _ _
  | stack off => exact Keeps.modify fun m => hR.data m _ _ _ _
  | kData off => exact Keeps.modify fun m => hR.data m _ _ _ _

lemma readInput (size : ℤ) : Keeps R (readInput size) := by
  refine Keeps.get_bind fun m => ?_
  exact KeepsFrom.bind (KeepsFrom.set (hR.host m _ _)) fun _ _ _ => KeepsFrom.pure _

lemma askHost : Keeps R askHost := by
  refine Keeps.get_bind fun m => ?_
  exact KeepsFrom.bind (KeepsFrom.set (hR.host m _ _)) fun _ _ _ => KeepsFrom.pure _

lemma newGpr (m : Machine) {r : RegNo} (v : Word) (hr : r ≠ 0) : R.rel m (m.setGpr r v) :=
  hR.serviceRegs m _ rfl rfl (Function.update_of_ne hr.symm _ _)

lemma setGpr {r : RegNo} {v : Machine → Word} (hr : r ≠ 0) :
    Keeps R (modify fun m => m.setGpr r (v m) : Exec Unit) :=
  Keeps.modify fun m => hR.newGpr m _ hr

lemma setFpr {r : RegNo} {v : Machine → Word} :
    Keeps R (modify fun m => m.setFpr r (v m) : Exec Unit) :=
  Keeps.modify fun m => hR.serviceRegs m _ rfl rfl rfl

lemma expandData (n : ℤ) : Keeps R (expandData n) := by
  refine Keeps.get_bind fun m => KeepsFrom.ite (fun _ => KeepsFrom.throw _) fun _ => ?_
  exact KeepsFrom.ite (fun _ => KeepsFrom.throw _)
    fun _ => Keeps.modify (fun m => hR.dataTop m _ _) m

lemma readService (env : Env) (sv : Service) : Keeps R (readService env sv) := by
  refine Keeps.get_bind fun m => ?_
  cases sv with
  | readInt =>
    refine KeepsFrom.bind (KeepsFrom.set ?_) fun _ t _ => hR.setGpr (by decide) t
    exact R.trans (hR.host m _ m.hostCalls) (hR.newGpr _ _ (by decide))
  | readFloat => exact Keeps.bind (hR.readInput _) (fun _ => hR.setFpr) m
  | readDouble =>
    refine Keeps.bind (hR.readInput _) (fun _ => Keeps.modify fun m => ?_) m
    exact R.trans (hR.serviceRegs m _ rfl rfl rfl) (hR.serviceRegs _ _ rfl rfl rfl)
  | readString =>
    refine Keeps.bind (memReference _) (fun r => ?_) m
    refine Keeps.bind (hR.readInput _) fun line => ?_
    exact Keeps.bind (hR.putBytes _ _) fun _ => hR.setGpr (by decide)
  | readCharacter => exact Keeps.bind (hR.readInput _) (fun _ => hR.setGpr (by decide)) m
  | _ => exact KeepsFrom.pure _

lemma fileService (env : Env) (sv : Service) : Keeps R (fileService env sv) := by
  refine Keeps.get_bind fun m => ?_
  cases sv with
  | «open» =>
    refine Keeps.bind (memReference _) (fun _ => Keeps.bind hR.askHost fun _ => ?_) m
    exact hR.setGpr (by decide)
  | read =>
    refine Keeps.bind (memReference _) (fun _ => ?_) m
    refine Keeps.bind (memReference _) fun r => ?_
    refine Keeps.bind hR.askHost fun n => ?_
    exact Keeps.bind (hR.putBytes _ _) fun _ => hR.setGpr (by decide)
  | write =>
    refine Keeps.bind (memReference _) (fun _ => ?_) m
    exact Keeps.bind (memReference _) fun _ => Keeps.bind hR.askHost fun _ => hR.setGpr (by decide)
  | close => exact Keeps.bind hR.askHost (fun _ => hR.setGpr (by decide)) m
  | _ => exact KeepsFrom.pure _

lemma otherService (env : Env) (sv : Service) : Keeps R (otherService env sv) := by
  refine Keeps.get_bind fun m => ?_
  cases sv with
  | printInt | printFloat | printDouble | printCharacter => exact KeepsFrom.pure _
  | printString => exact Keeps.bind (memReference _) (fun _ => Keeps.pure _) m
  | sbrk => exact Keeps.bind (hR.expandData _) (fun _ => hR.setGpr (by decide)) m
  | «open» | read | write | close => exact hR.fileService env _ m
  | _ => exact hR.readService env _ m

end ServiceRel

/-- The relation also allows any new contents of the registers outside coprocessor 0, ticks of the
timer, the end of an exception, a queued load, and polls of the devices. -/
structure StepRel (R : Rel Machine) : Prop extends AccessRel R where
  regs : ∀ (m : Machine) g, g.cp0 = m.cp0 → R.rel m (m.setRegs g)
  tick : ∀ (m : Machine), R.rel m (bumpCP0Timer m)
  pc : ∀ (m : Machine) v, R.rel m { m with pc := v }
  flag : ∀ m : Machine, R.rel m { m with exceptionOccurred := false }
  exception : ∀ (m : Machine) e, e ≠ .int → R.rel m (m.raiseException e)
  queue : ∀ (m : Machine) d, R.rel m { m with delayedLoad1 := d }
  devices : ∀ h, Keeps R ( checkMemoryMappedIO h)
  host : ∀ (m : Machine) c n, R.rel m { m with consoleIn := c, hostCalls := n }
  dataTop : ∀ (m : Machine) t ds, R.rel m { m with dataTop := t, dataSeg := ds }

namespace StepRel

variable {R : Rel Machine} (hR : StepRel R)

include hR

theorem toServiceRel : ServiceRel R where
  toAccessRel := hR.toAccessRel
  serviceRegs m g hg _ _ := hR.regs m g hg
  host := hR.host
  dataTop := hR.dataTop

lemma setDest (m : Machine) (d : LoadDest) (v : Word) : R.rel m (m.setDest d v) := by
  cases d with
  | gpr r => exact hR.regs m _ rfl
  | fpr r => exact hR.regs m _ rfl

lemma loadInst (env : Env) (d : LoadDest) (v : Word) (m : Machine) :
    R.rel m (m.loadInst env d v) := by
  unfold Machine.loadInst
  split
  · exact hR.queue m _
  · exact hR.setDest m d v

lemma ctc1 (m : Machine) (fs : RegNo) (v : Word) : R.rel m (m.ctc1 fs v) := by
  unfold Machine.ctc1
  dsimp only
  split
  · exact R.trans (hR.regs m (m.toRegs.setFcr fs v) rfl) (hR.exception _ .fpe (by decide))
  · exact hR.regs m _ rfl

lemma handleException (m : Machine) : R.rel m m.handleException :=
  R.trans (hR.flag m) (hR.pc _ _)

lemma loadPart (env : Env) (addr : Word) (merge : Word → Word) (rt : RegNo) :
    Keeps R (loadPart env addr merge rt) :=
  Keeps.bind (hR.memRead _ _) fun _ => Keeps.modify fun m => hR.loadInst env _ _ m

lemma loadDouble (env : Env) (addr : Word) (ft : RegNo) : Keeps R (loadDouble env addr ft) := by
  refine Keeps.bind (Keeps.onlyIf (hR.raising _ (by decide) _)) fun _ => ?_
  refine Keeps.bind (hR.memRead _ _) fun v => ?_
  refine Keeps.bind (Keeps.modify fun m => hR.loadInst env _ _ m) fun _ => ?_
  exact Keeps.bind (hR.memRead _ _) fun v => Keeps.modify fun m => hR.loadInst env _ _ m

lemma otherService (env : Env) (sv : Service) : Keeps R (otherService env sv) :=
  hR.toServiceRel.otherService env sv

/-! The head of a step and its end. -/

lemma stepHead (env : Env) : Keeps R (stepHead env) := by
  refine Keeps.bind (Keeps.modify fun m => hR.regs m _ rfl) fun _ => ?_
  refine Keeps.bind hR.toServiceRel.askHost fun n => ?_
  exact Keeps.onlyIf (Keeps.modify hR.tick)

lemma deliver (m : Machine) : R.rel m (deliver m) := by
  unfold Spimulator.deliver
  split
  · exact hR.handleException m
  · exact R.refl m

end StepRel

/-- The relation allows all of this. -/
structure PrintRel (R : Rel Machine) : Prop extends StepRel R, LookRel R

end Spimulator
