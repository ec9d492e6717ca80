import Spimulator.ExitFinal
import Spimulator.Load

/-! What the parts of the assembler may change. A relation between states that allows the
elementary changes is kept by the emission of an instruction or a datum; one that allows the
changes of labels and segments too is kept by the emission of every node. -/
namespace Spimulator
open Frame

/-! The machine. -/

/-- The labels, the instruction records there were, the bounds of the text segments, and what a run
has left stay the same. -/
structure Machine.Records (m m' : Machine) : Prop where
  labels : m'.labels = m.labels
  nextInst : m.nextInst ≤ m'.nextInst
  insts : ∀ r < m.nextInst, m'.insts r = m.insts r
  trace : m'.trace = m.trace
  returnValue : m'.spimReturnValue = m.spimReturnValue
  textTop : m'.textTop = m.textTop
  kTextTop : m'.kTextTop = m.kTextTop

namespace Machine.Records

theorem refl (m : Machine) : m.Records m :=
  ⟨rfl, Nat.le_refl _, fun _ _ => rfl, rfl, rfl, rfl, rfl⟩

theorem trans {m m' m'' : Machine} (h : m.Records m') (h' : m'.Records m'') : m.Records m'' where
  labels := h'.labels.trans h.labels
  nextInst := Nat.le_trans h.nextInst h'.nextInst
  insts r hr := (h'.insts r (Nat.lt_of_lt_of_le hr h.nextInst)).trans (h.insts r hr)
  trace := h'.trace.trans h.trace
  returnValue := h'.returnValue.trans h.returnValue
  textTop := h'.textTop.trans h.textTop
  kTextTop := h'.kTextTop.trans h.kTextTop

/-- A change of other fields. -/
theorem of_eq {m m' : Machine} (hl : m'.labels = m.labels) (hn : m'.nextInst = m.nextInst)
    (hi : m'.insts = m.insts) (ht : m'.trace = m.trace)
    (hr : m'.spimReturnValue = m.spimReturnValue) (hx : m'.textTop = m.textTop)
    (hk : m'.kTextTop = m.kTextTop) : m.Records m' :=
  ⟨hl, Nat.le_of_eq hn.symm, fun r _ => congrFun hi r, ht, hr, hx, hk⟩

theorem alloc (m : Machine) (i : Inst) : m.Records (m.allocInst i).2 where
  labels := rfl
  nextInst := Nat.le_succ _
  insts _ hr := Function.update_of_ne (Nat.ne_of_lt hr) _ _
  trace := rfl
  returnValue := rfl
  textTop := rfl
  kTextTop := rfl

theorem exception (m : Machine) (e : ExcCode) : m.Records (m.raiseException e) := by
  obtain ⟨c, b, f, h⟩ := m.raiseException_eq e
  rw [h]
  exact of_eq rfl rfl rfl rfl rfl rfl rfl

end Machine.Records

def keepsRecords : Rel Machine where
  rel := Machine.Records
  refl := Machine.Records.refl
  trans := Machine.Records.trans

lemma deviceRel_keepsRecords : DeviceRel keepsRecords where
  device _ _ _ _ _ _ _ _ := .of_eq rfl rfl rfl rfl rfl rfl rfl
  raiseInt _ _ := .of_eq rfl rfl rfl rfl rfl rfl rfl
  clearInt _ _ := .of_eq rfl rfl rfl rfl rfl rfl rfl
  host _ _ _ := .of_eq rfl rfl rfl rfl rfl rfl rfl

lemma accessRel_keepsRecords : AccessRel keepsRecords where
  data _ _ _ _ _ := .of_eq rfl rfl rfl rfl rfl rfl rfl
  alloc m i := .alloc m i
  patch m i _ := (Machine.Records.alloc m i).trans (.of_eq rfl rfl rfl rfl rfl rfl rfl)
  ioRead := deviceRel_keepsRecords.ioRead
  ioWrite := deviceRel_keepsRecords.ioWrite
  raise m e _ _ := (Machine.Records.exception m e).trans (.of_eq rfl rfl rfl rfl rfl rfl rfl)

theorem printRel_keepsRecords : PrintRel keepsRecords where
  toAccessRel := accessRel_keepsRecords
  regs _ _ _ := .of_eq rfl rfl rfl rfl rfl rfl rfl
  tick m := by
    unfold bumpCP0Timer
    dsimp only
    split
    · exact .of_eq rfl rfl rfl rfl rfl rfl rfl
    · exact .of_eq rfl rfl rfl rfl rfl rfl rfl
  pc _ _ := .of_eq rfl rfl rfl rfl rfl rfl rfl
  flag _ := .of_eq rfl rfl rfl rfl rfl rfl rfl
  peek := accessRel_keepsRecords.peek (fun _ _ => .of_eq rfl rfl rfl rfl rfl rfl rfl)
    fun _ _ => .of_eq rfl rfl rfl rfl rfl rfl rfl
  exception m e _ := .exception m e
  queue _ _ := .of_eq rfl rfl rfl rfl rfl rfl rfl
  devices := deviceRel_keepsRecords.check
  host _ _ _ := .of_eq rfl rfl rfl rfl rfl rfl rfl
  dataTop _ _ _ := .of_eq rfl rfl rfl rfl rfl rfl rfl
  text _ _ _ := .of_eq rfl rfl rfl rfl rfl rfl rfl
  kText _ _ _ := .of_eq rfl rfl rfl rfl rfl rfl rfl
  bkpts _ _ := .of_eq rfl rfl rfl rfl rfl rfl rfl

/-! Instructions and data. -/

/-- The messages that count as parse errors. -/
def Report.isParseError : Report → Bool
  | .parse _ | .duplicateLabel _ => true
  | _ => false

/-- The messages about the value of a symbol. -/
def Report.ofResolving : Report → Bool
  | .evaluatedUndefined _ | .resolvingUndefined _ | .immediateTooLarge | .jumpRegion _ => true
  | _ => false

lemma Report.not_isParseError {r : Report} (h : r.ofResolving = true) :
    r.isParseError = false := by
  cases r <;> first | rfl | cases h

/-- The messages that neither count as parse errors nor are about an instruction to be stored. -/
def Report.isNote : Report → Bool
  | .parse _ | .duplicateLabel _ | .invalidInstAddress _ => false
  | _ => true

/-- What the observer is told of instructions and data. -/
def Observed.ofStore : Observed → Bool
  | .labelDef _ _ _ => false
  | _ => true

/-- What storing leaves behind, and messages that are no parse errors. -/
def AsmEvent.plain : AsmEvent → Bool
  | .stored _ _ | .instStored _ _ => true
  | .fired e => e.ofStore
  | .report r => ¬ r.isParseError
  | _ => false

/-- The symbol of the expression of an instruction. -/
def Inst.symbol (i : Inst) : Option LabelRef := i.expr.bind ImmExpr.symbol

/-- What the assembler leaves of an instruction that it changes: its opcode and symbol, and its
expression but for an offset that is relative or that a lui makes up for. -/
structure Inst.Reworked (i j : Inst) : Prop where
  opcode : j.opcode = i.opcode
  symbol : j.symbol = i.symbol
  expr : ∀ e, i.expr = some e → e.pcRelative = false → i.opcode ≠ some .lui → j.expr = some e

/-- The relation allows what evaluating the expression of an instruction does: changes of memory,
the change of a lui that makes up for a sign, the use of a symbol that is defined, and messages. -/
structure FieldRel (R : Rel Asm) : Prop where
  machine : ∀ (s : Asm) m, s.machine.Records m → R.rel s (s.setMachine m)
  lui : ∀ (s : Asm) r i, (s.machine.insts r).opcode = some .lui → (s.machine.insts r).Reworked i →
    R.rel s (s.setInst r i)
  report : ∀ (s : Asm) r, r.ofResolving = true → R.rel s (s.log (.report r))
  use : ∀ (s : Asm) l, (s.label l).isDefined = true →
    R.rel s (s.log (.used l (s.label l).addr))

/-- The relation allows what resolving an instruction does: changes of memory and of an instruction,
the use of a symbol that is defined, and messages. -/
structure ResolveRel (R : Rel Asm) : Prop where
  machine : ∀ (s : Asm) m, s.machine.Records m → R.rel s (s.setMachine m)
  setInst : ∀ (s : Asm) r i, (s.machine.insts r).Reworked i → R.rel s (s.setInst r i)
  report : ∀ (s : Asm) r, r.ofResolving = true → R.rel s (s.log (.report r))
  use : ∀ (s : Asm) l, (s.label l).isDefined = true →
    R.rel s (s.log (.used l (s.label l).addr))

/-- The relation also allows a note of the use of a symbol that is not defined, and the storing of
an instruction. -/
structure InstRel (env : Env) (R : Rel Asm) : Prop extends ResolveRel R where
  addUse : ∀ (s : Asm) l u, (s.label l).isDefined = false →
    (∀ r, u.instruction = some r → (s.machine.insts r).symbol = some l) →
    R.rel s (s.setLabel l { s.label l with uses := u :: (s.label l).uses })
  store : ∀ r, Keeps R (storeInstruction env r)

/-- The relation allows what storing a datum does: changes of memory and of the data location
counter, a note of what is stored, and what an observer is told. -/
structure PlainRel (R : Rel Asm) : Prop where
  machine : ∀ (s : Asm) m, s.machine.Records m → R.rel s (s.setMachine m)
  dataPc : ∀ (s : Asm) v, R.rel s (s.setDataPc v)
  stored : ∀ (s : Asm) a bytes, R.rel s (s.log (.stored a bytes))
  fired : ∀ (s : Asm) e, e.ofStore = true → R.rel s (s.log (.fired e))

/-- The relation also allows changes of the data location counter. -/
structure CounterRel (R : Rel Asm) : Prop extends ResolveRel R where
  dataPc : ∀ (s : Asm) v, R.rel s (s.setDataPc v)

/-- The relation also allows the storing of data. -/
structure DataRel (R : Rel Asm) : Prop extends CounterRel R where
  stored : ∀ (s : Asm) a bytes, R.rel s (s.log (.stored a bytes))
  fired : ∀ (s : Asm) e, e.ofStore = true → R.rel s (s.log (.fired e))

/-- The relation allows what storing an instruction or a datum does: what resolving does, the note
of a use, what is stored, and changes of the location counters. -/
structure StoreRel (R : Rel Asm) : Prop where
  machine : ∀ (s : Asm) m, s.machine.Records m → R.rel s (s.setMachine m)
  setInst : ∀ (s : Asm) r i, (s.machine.insts r).Reworked i → R.rel s (s.setInst r i)
  log : ∀ (s : Asm) e, e.plain = true → R.rel s (s.log e)
  use : ∀ (s : Asm) l, (s.label l).isDefined = true →
    R.rel s (s.log (.used l (s.label l).addr))
  addUse : ∀ (s : Asm) l u, (s.label l).isDefined = false →
    (∀ r, u.instruction = some r → (s.machine.insts r).symbol = some l) →
    R.rel s (s.setLabel l { s.label l with uses := u :: (s.label l).uses })
  dataPc : ∀ (s : Asm) v, R.rel s (s.setDataPc v)
  textPc : ∀ (s : Asm) v, R.rel s (s.setTextPc v)

theorem keeps_onMachine {R : Rel Asm}
    (h : ∀ (s : Asm) m, s.machine.Records m → R.rel s (s.setMachine m)) {α : Type}
    {x : Exec α} (hx : Keeps keepsRecords x) : Keeps R (onMachine x) := by
  intro s
  have hm := hx s.machine
  rw [KeepsFrom] at hm ⊢
  cases hr : x.run s.machine with
  | ok a m =>
    rw [hr] at hm
    rw [onMachine_run hr]
    exact h s m hm
  | error e m =>
    rw [hr] at hm
    rw [onMachine_error hr]
    obtain ⟨m', hm, rfl⟩ := hm
    exact R.toFailed (h s m' hm)

lemma Asm.waitingLui_record {s : Asm} {sym : Option LabelRef} {r : Option InstRef}
    {w : InstRef × ImmExpr} (h : s.waitingLui sym r = some w) :
    (s.machine.insts w.1).opcode = some .lui ∧ (s.machine.insts w.1).expr = some w.2 := by
  simp only [Asm.waitingLui, Option.bind_eq_bind, Option.bind_eq_some_iff] at h
  obtain ⟨r, -, e, he, h⟩ := h
  split at h
  · rename_i hlui
    cases h
    exact ⟨hlui.1, he⟩
  · cases h

lemma evalImmExpr_machine {e : ImmExpr} {s t : Asm} {v : Word}
    (h : (evalImmExpr e).run s = .ok v t) : t.machine = s.machine := by
  have hk : Keeps (Rel.same Asm.machine) (evalImmExpr e) := by
    refine Keeps.bind ?_ fun _ => Keeps.pure _
    unfold symbolValue
    cases e.symbol with
    | none => exact Keeps.pure _
    | some l =>
      refine Keeps.get_bind fun s => KeepsFrom.ite (fun _ => ?_) fun _ => ?_
      · exact Keeps.bind (Keeps.modify fun _ => rfl) (fun _ => Keeps.pure _) s
      · exact Keeps.bind (Keeps.modify fun _ => rfl) (fun _ => Keeps.pure _) s
  exact hk.ok h

namespace FieldRel

variable {R : Rel Asm} (hR : FieldRel R)

include hR

lemma onMachine {α : Type} {x : Exec α} (hx : Keeps keepsRecords x) : Keeps R (onMachine x) :=
  keeps_onMachine hR.machine hx

lemma reportMessage {r : Report} (h : r.ofResolving = true) : Keeps R (Spimulator.report r) :=
  Keeps.modify fun s => hR.report s r h

lemma symbolValue (e : ImmExpr) : Keeps R (symbolValue e) := by
  unfold Spimulator.symbolValue
  cases e.symbol with
  | none => exact Keeps.pure _
  | some l =>
    refine Keeps.get_bind fun s => KeepsFrom.ite (fun h => ?_) fun _ => ?_
    · exact KeepsFrom.bind (hR.use s l h) fun _ _ _ => KeepsFrom.pure _
    · exact Keeps.bind (hR.reportMessage rfl) (fun _ => Keeps.pure _) s

lemma evalImmExpr (e : ImmExpr) : Keeps R (evalImmExpr e) :=
  Keeps.bind (hR.symbolValue e) fun _ => Keeps.pure _

lemma compensateLui (tbl : AOpcodeTbl) (sym : Option LabelRef) (pc : Word) :
    Keeps R (compensateLui tbl sym pc) := by
  refine Keeps.bind (hR.onMachine (printRel_keepsRecords.memReadInst _ _)) fun prev => ?_
  refine Keeps.bind (hR.onMachine (printRel_keepsRecords.memReadInst _ _)) fun prevPrev => ?_
  refine Keeps.get_bind fun s => ?_
  cases h : (s.waitingLui sym prev).or (s.waitingLui sym prevPrev) with
  | none => exact KeepsFrom.pure _
  | some w =>
    obtain ⟨hlui, he⟩ : (s.machine.insts w.1).opcode = some .lui ∧
        (s.machine.insts w.1).expr = some w.2 := by
      rcases Option.or_eq_some_iff.mp h with h | ⟨-, h⟩
      · exact Asm.waitingLui_record h
      · exact Asm.waitingLui_record h
    refine KeepsFrom.set (hR.lui s _ _ hlui ⟨rfl, ?_, fun _ _ _ hne => absurd hlui hne⟩)
    simp [Inst.symbol, he, incrExprOffset]

lemma fieldValue (env : Env) (op : Opcode) (e : ImmExpr) (pc : Word) :
    Keeps R (fieldValue env op e pc) := by
  refine Keeps.bind (hR.evalImmExpr e) fun v => ?_
  refine Keeps.ite (fun _ => Keeps.pure _) fun _ => ?_
  refine Keeps.ite (fun _ => ?_) fun _ => ?_
  · exact Keeps.bind (Keeps.onlyIf (hR.reportMessage rfl)) fun _ => Keeps.pure _
  refine Keeps.ite (fun _ => ?_) fun _ => Keeps.pure _
  exact Keeps.bind (Keeps.onlyIf (hR.compensateLui _ _ _)) fun _ => Keeps.pure _

end FieldRel

namespace ResolveRel

variable {R : Rel Asm} (hR : ResolveRel R)

include hR

lemma toFieldRel : FieldRel R where
  machine := hR.machine
  lui s r i _ := hR.setInst s r i
  report := hR.report
  use := hR.use

lemma onMachine {α : Type} {x : Exec α} (hx : Keeps keepsRecords x) : Keeps R (onMachine x) :=
  keeps_onMachine hR.machine hx

lemma reportMessage {r : Report} (h : r.ofResolving = true) : Keeps R (Spimulator.report r) :=
  Keeps.modify fun s => hR.report s r h

lemma memWrite (tbl : AOpcodeTbl) (w : Width) (addr value : Word) :
    Keeps R (Spimulator.onMachine (memWrite tbl w addr value)) :=
  hR.onMachine (printRel_keepsRecords.memWrite tbl w addr value)

lemma newInst (i : Inst) : Keeps R (newInst i) := by
  refine Keeps.get_bind fun s => ?_
  exact KeepsFrom.bind (KeepsFrom.set (hR.machine s _ (.alloc _ _))) fun _ _ _ => KeepsFrom.pure _

lemma copyInst (r : InstRef) : Keeps R (copyInst r) := by
  refine Keeps.get_bind fun s => ?_
  exact KeepsFrom.bind (KeepsFrom.set (hR.machine s _ (.alloc _ _))) fun _ _ _ => KeepsFrom.pure _

/-! Expressions. -/

lemma symbolValue (e : ImmExpr) : Keeps R (symbolValue e) := hR.toFieldRel.symbolValue e

lemma evalImmExpr (e : ImmExpr) : Keeps R (evalImmExpr e) := hR.toFieldRel.evalImmExpr e

lemma compensateLui (tbl : AOpcodeTbl) (sym : Option LabelRef) (pc : Word) :
    Keeps R (compensateLui tbl sym pc) := hR.toFieldRel.compensateLui tbl sym pc

lemma fieldValue (env : Env) (op : Opcode) (e : ImmExpr) (pc : Word) :
    Keeps R (fieldValue env op e pc) := hR.toFieldRel.fieldValue env op e pc

lemma resolveInst (env : Env) (r : InstRef) (op : Opcode) (e : ImmExpr) (pc : Word) :
    Keeps R (resolveInst env r op e pc) := by
  refine Keeps.bind (hR.fieldValue env op e pc) fun v => ?_
  refine Keeps.bind (Keeps.onlyIf ?_) fun _ => Keeps.modify fun s => hR.setInst s _ _ ?_
  · refine Keeps.bind (hR.reportMessage rfl) fun _ => ?_
    exact hR.onMachine (printRel_keepsRecords.instToString _ _)
  · split
    · exact ⟨rfl, rfl, fun _ he _ _ => he⟩
    · exact ⟨rfl, rfl, fun _ he _ _ => he⟩

lemma resolveALabelSub (env : Env) (sym : LabelRef) (i : Option InstRef) (pc : Word) :
    Keeps R (resolveALabelSub env sym i pc) := by
  refine Keeps.get_bind fun s => ?_
  cases i with
  | none =>
    refine KeepsFrom.bind (KeepsFrom.ite (fun h => hR.use s sym h) fun _ => KeepsFrom.pure _) ?_
    exact fun _ t _ => hR.memWrite _ _ _ _ t
  | some r =>
    dsimp only
    split
    · rename_i op e _ he
      refine KeepsFrom.bind (KeepsFrom.set (hR.setInst s _ _ ⟨rfl, ?_, ?_⟩)) fun _ t _ => ?_
      · by_cases hp : e.pcRelative = true
        · simp [Inst.symbol, he, hp]
        · simp [Inst.symbol, he, hp]
      · intro e' he' hp _
        cases he.symm.trans he'
        simp [hp]
      · exact KeepsFrom.ite (fun _ => hR.resolveInst _ _ _ _ _ t) fun _ => hR.reportMessage rfl t
    · exact KeepsFrom.throw _

lemma resolveALabel (env : Env) (sym : Option LabelRef) (r : InstRef) :
    Keeps R (resolveALabel env sym r) :=
  Keeps.get_bind fun s => hR.resolveALabelSub _ _ _ _ s

lemma resolveUses (env : Env) (sym : LabelRef) (us : List LabelUse) :
    Keeps R (resolveUses env sym us) := by
  induction us with
  | nil => exact Keeps.pure _
  | cons u us ih =>
    refine Keeps.bind (hR.resolveALabelSub env sym u.instruction u.addr) fun _ => ?_
    refine Keeps.get_bind fun s => ?_
    cases u.instruction with
    | none => exact ih s
    | some r => exact Keeps.bind (Keeps.onlyIf (hR.memWrite _ _ _ _)) (fun _ => ih) s

end ResolveRel

/-! Storing at the location counters. -/

lemma keeps_incrementDataPc {R : Rel Asm}
    (hm : ∀ (s : Asm) m, s.machine.Records m → R.rel s (s.setMachine m))
    (hpc : ∀ (s : Asm) v, R.rel s (s.setDataPc v)) (delta : Word) :
    Keeps R (incrementDataPc delta) := by
  have hk (n : ℤ) : Keeps R (expandKData n) := by
    refine Keeps.get_bind fun s => KeepsFrom.ite (fun _ => KeepsFrom.throw _) fun _ => ?_
    refine KeepsFrom.ite (fun _ => KeepsFrom.throw _) fun _ => KeepsFrom.set ?_
    exact hm s _ (.of_eq rfl rfl rfl rfl rfl rfl rfl)
  have hd (n : ℤ) : Keeps R (onMachine (expandData n)) :=
    keeps_onMachine hm (printRel_keepsRecords.toServiceRel.expandData n)
  refine Keeps.bind (Keeps.modify fun s => hpc s _) fun _ => Keeps.get_bind fun s => ?_
  refine KeepsFrom.ite (fun _ => ?_) fun _ => ?_
  · exact Keeps.onlyIf (hk _) s
  · exact Keeps.onlyIf (hd _) s

namespace PlainRel

variable {R : Rel Asm} (hR : PlainRel R)

include hR

lemma memWrite (tbl : AOpcodeTbl) (w : Width) (addr value : Word) :
    Keeps R (Spimulator.onMachine (memWrite tbl w addr value)) :=
  keeps_onMachine hR.machine (printRel_keepsRecords.memWrite tbl w addr value)

lemma incrementDataPc (delta : Word) : Keeps R (incrementDataPc delta) :=
  keeps_incrementDataPc hR.machine hR.dataPc delta

lemma placing (bytes : List Byte) {store : Assemble Unit} (h : Keeps R store) :
    Keeps R (Data.placing bytes store) :=
  Keeps.get_bind fun s => Keeps.bind (Keeps.modify fun t => hR.stored t _ _) (fun _ => h) s

lemma fireOuter (depth : ℕ) {e : Observed} (h : e.ofStore = true) :
    Keeps R (onlyIf (depth = 0) (fire e)) :=
  Keeps.onlyIf (Keeps.modify fun s => hR.fired s e h)

lemma storeByte (tbl : AOpcodeTbl) (d : ℕ) (v : Word) : Keeps R (Data.storeByte tbl d v) :=
  Keeps.get_bind fun s => Keeps.bind (hR.memWrite _ _ _ _)
    (fun _ => Keeps.bind (hR.incrementDataPc _) fun _ => hR.fireOuter d rfl) s

lemma storeHalf (tbl : AOpcodeTbl) (d : ℕ) (v : Word) : Keeps R (Data.storeHalf tbl d v) := by
  refine Keeps.get_bind fun s => Keeps.bind (Keeps.ite (fun _ => ?_) fun _ => ?_)
    (fun _ => hR.fireOuter d rfl) s
  · exact Keeps.bind (hR.storeByte _ _ _) fun _ => hR.storeByte _ _ _
  · exact Keeps.bind (hR.memWrite _ _ _ _) fun _ => hR.incrementDataPc _

/-- A word in two halves, or whole. -/
lemma halvesOrWord (tbl : AOpcodeTbl) (c : Prop) [Decidable c] (d : ℕ) (pc a b v : Word) :
    Keeps R (if c then do
        Data.storeHalf tbl d a
        Data.storeHalf tbl d b
      else do
        Spimulator.onMachine (memWriteWord tbl pc v)
        Spimulator.incrementDataPc 4) := by
  refine Keeps.ite (fun _ => ?_) fun _ => ?_
  · exact Keeps.bind (hR.storeHalf _ _ _) fun _ => hR.storeHalf _ _ _
  · exact Keeps.bind (hR.memWrite _ _ _ _) fun _ => hR.incrementDataPc _

lemma storeWord (tbl : AOpcodeTbl) (d : ℕ) (v : Word) : Keeps R (Data.storeWord tbl d v) :=
  Keeps.get_bind fun s => Keeps.bind (hR.halvesOrWord tbl _ _ _ _ _ v) (fun _ => hR.fireOuter d rfl) s

lemma storeFloat (tbl : AOpcodeTbl) (d : ℕ) (v : Word) : Keeps R (Data.storeFloat tbl d v) :=
  Keeps.get_bind fun s => hR.halvesOrWord tbl _ _ _ _ _ v s

lemma storeDouble (tbl : AOpcodeTbl) (d : ℕ) (v : BitVec 64) :
    Keeps R (Data.storeDouble tbl d v) := by
  refine Keeps.get_bind fun s => Keeps.bind (Keeps.ite (fun _ => ?_) fun _ => ?_)
    (fun _ => hR.fireOuter d rfl) s
  · exact Keeps.bind (hR.storeWord _ _ _) fun _ => hR.storeWord _ _ _
  · refine Keeps.bind (hR.memWrite _ _ _ _) fun _ => ?_
    refine Keeps.bind (hR.incrementDataPc _) fun _ => Keeps.get_bind fun s => ?_
    exact Keeps.bind (hR.memWrite _ _ _ _) (fun _ => hR.incrementDataPc _) s

lemma storeString (tbl : AOpcodeTbl) (d : ℕ) (bytes : List Byte) (nul : Bool) :
    Keeps R (Data.storeString tbl d bytes nul) := by
  refine Keeps.get_bind fun s => Keeps.bind ?_ (fun _ => Keeps.bind
    (Keeps.onlyIf (hR.storeByte _ _ _)) fun _ => hR.fireOuter d rfl) s
  induction bytes with
  | nil => exact Keeps.pure _
  | cons b bs ih => exact Keeps.bind (hR.storeByte _ _ _) fun _ => ih

end PlainRel

namespace CounterRel

variable {R : Rel Asm} (hR : CounterRel R)

include hR

lemma incrementDataPc (delta : Word) : Keeps R (incrementDataPc delta) :=
  keeps_incrementDataPc hR.machine hR.dataPc delta

lemma returning : CounterRel R.returning where
  machine := hR.machine
  setInst := hR.setInst
  report := hR.report
  use := hR.use
  dataPc := hR.dataPc

end CounterRel

lemma keeps_incrementTextPc {R : Rel Asm} (h : ∀ (s : Asm) v, R.rel s (s.setTextPc v))
    (delta : Word) : Keeps R (incrementTextPc delta) := by
  refine Keeps.bind (Keeps.modify fun s => h s _) fun _ => Keeps.get_bind fun s => ?_
  refine KeepsFrom.ite (fun _ => ?_) fun _ => ?_
  · exact Keeps.onlyIf (Keeps.throw _) s
  · exact Keeps.onlyIf (Keeps.throw _) s

namespace DataRel

variable {R : Rel Asm} (hR : DataRel R)

include hR

lemma toPlainRel : PlainRel R where
  machine := hR.machine
  dataPc := hR.dataPc
  stored := hR.stored
  fired := hR.fired

lemma placing (bytes : List Byte) {store : Assemble Unit} (h : Keeps R store) :
    Keeps R (Data.placing bytes store) := hR.toPlainRel.placing bytes h

lemma storeByte (tbl : AOpcodeTbl) (d : ℕ) (v : Word) : Keeps R (Data.storeByte tbl d v) :=
  hR.toPlainRel.storeByte tbl d v

lemma storeHalf (tbl : AOpcodeTbl) (d : ℕ) (v : Word) : Keeps R (Data.storeHalf tbl d v) :=
  hR.toPlainRel.storeHalf tbl d v

lemma storeWord (tbl : AOpcodeTbl) (d : ℕ) (v : Word) : Keeps R (Data.storeWord tbl d v) :=
  hR.toPlainRel.storeWord tbl d v

lemma storeFloat (tbl : AOpcodeTbl) (d : ℕ) (v : Word) : Keeps R (Data.storeFloat tbl d v) :=
  hR.toPlainRel.storeFloat tbl d v

lemma storeDouble (tbl : AOpcodeTbl) (d : ℕ) (v : BitVec 64) :
    Keeps R (Data.storeDouble tbl d v) := hR.toPlainRel.storeDouble tbl d v

lemma storeString (tbl : AOpcodeTbl) (d : ℕ) (bytes : List Byte) (nul : Bool) :
    Keeps R (Data.storeString tbl d bytes nul) := hR.toPlainRel.storeString tbl d bytes nul

end DataRel

namespace StoreRel

variable {R : Rel Asm} (hR : StoreRel R)

include hR

lemma toResolveRel : ResolveRel R where
  machine := hR.machine
  setInst := hR.setInst
  report s r h := hR.log s _ (by simp [AsmEvent.plain, r.not_isParseError h])
  use := hR.use

lemma toDataRel : DataRel R :=
  { hR.toResolveRel with
    stored := fun s _ _ => hR.log s _ rfl
    fired := fun s _ h => hR.log s _ h
    dataPc := hR.dataPc }

lemma logEvent {e : AsmEvent} (h : e.plain = true) : Keeps R (logEvent e) :=
  Keeps.modify fun s => hR.log s e h

lemma incrementTextPc (delta : Word) : Keeps R (incrementTextPc delta) :=
  keeps_incrementTextPc hR.textPc delta

lemma storeInText (env : Env) (r : InstRef) : Keeps R (storeInText env r) := by
  refine Keeps.get_bind fun s => ?_
  refine Keeps.bind (hR.toResolveRel.onMachine (Keeps.modify fun m => printRel_keepsRecords.flag m))
    (fun _ => ?_) s
  refine Keeps.bind (hR.toResolveRel.onMachine (printRel_keepsRecords.memWriteInst _ _ _)) fun _ => ?_
  refine Keeps.get_bind fun s => ?_
  refine Keeps.bind (Keeps.ite (fun _ => hR.logEvent rfl) fun _ => ?_) (fun _ => ?_) s
  · exact Keeps.bind (hR.logEvent rfl) fun _ => hR.incrementTextPc _
  · refine Keeps.modify fun s => R.trans ?_ (hR.log (s.setEncoding r) _ rfl)
    unfold Asm.setEncoding
    dsimp only
    split
    · exact hR.setInst s _ _ ⟨rfl, rfl, fun _ he _ _ => he⟩
    · exact R.refl s

lemma storeInstruction (env : Env) (r : InstRef) : Keeps R (storeInstruction env r) := by
  refine Keeps.get_bind fun s => KeepsFrom.ite (fun _ => ?_) fun _ => ?_
  · exact hR.toDataRel.placing _ (hR.toDataRel.storeWord _ _ _) s
  · exact KeepsFrom.ite (fun _ => hR.storeInText _ _ s) fun _ => KeepsFrom.pure _

lemma toInstRel (env : Env) : InstRel env R :=
  { hR.toResolveRel with
    addUse := hR.addUse
    store := fun r => hR.storeInstruction env r }

end StoreRel

/-! Instructions with an expression. -/

namespace InstRel

variable {env : Env} {R : Rel Asm} (hR : InstRel env R)

include hR

lemma storeNew (i : Inst) : Keeps R (storeNew env i) :=
  Keeps.bind (hR.newInst i) fun r => hR.store r


lemma recordInstUsesSymbol {s : Asm} {r : InstRef} {l : LabelRef}
    (hl : (s.label l).isDefined = false) (hr : (s.machine.insts r).symbol = some l) :
    KeepsFrom R (recordInstUsesSymbol r l) s := by
  refine KeepsFrom.ite (fun _ => ?_) fun _ => ?_
  · refine KeepsFrom.bind (hR.copyInst r s) fun r' t ht => ?_
    cases ht
    refine hR.addUse _ l _ hl fun q hq => ?_
    cases hq
    simp [Asm.setMachine, hr]
  · refine hR.addUse s l _ hl fun q hq => ?_
    cases hq
    exact hr

lemma storeExprInst {s : Asm} {r : InstRef} {e : ImmExpr}
    (hr : (s.machine.insts r).symbol = e.symbol) : KeepsFrom R (storeExprInst env r e) s := by
  have hstore (t : Asm) := hR.store r t
  refine KeepsFrom.get_bind ?_
  cases hl : e.symbol with
  | none => exact KeepsFrom.bind (hR.resolveALabel _ _ _ s) fun _ t _ => hstore t
  | some l =>
    refine KeepsFrom.ite (fun _ => ?_) fun h => ?_
    · exact KeepsFrom.bind (hR.resolveALabel _ _ _ s) fun _ t _ => hstore t
    · have hu := hR.recordInstUsesSymbol (Bool.eq_false_iff.mpr h) (hr.trans hl)
      exact KeepsFrom.bind hu fun _ t _ => hstore t

lemma jTypeInst (op : Opcode) (target : ImmExpr) :
    Keeps R (jTypeInst env op target) := by
  intro s
  refine KeepsFrom.bind (hR.newInst _ s) fun r t ht => ?_
  cases ht
  exact hR.storeExprInst (by simp [Asm.setMachine, Inst.symbol])

section

variable {emitI : Opcode → Word → Word → ImmExpr → Assemble Unit}
  (hI : ∀ op rt rs e, Keeps R (emitI op rt rs e))

include hI

omit hR in
lemma produceImmediate (e : ImmExpr) (rt : Word) (v : Option Word) :
    Keeps R (produceImmediate emitI e rt v) := by
  refine Keeps.ite (fun _ => hI _ _ _ _) fun _ => ?_
  refine Keeps.ite (fun _ => hI _ _ _ _) fun _ => ?_
  exact Keeps.bind (hI _ _ _ _) fun _ => hI _ _ _ _

omit hR in
/-- A full word needs the instructions that `emitI` emits, and some of three registers. -/
lemma fullWord (hnew : ∀ op rd rs rt, Keeps R (rTypeInst env op rd rs rt)) (op : Opcode)
    (rt rs : Word) (e : ImmExpr) (v : Option Word) :
    Keeps R (iTypeInstFullWord env emitI op rt rs e v) := by
  have hadd : Keeps R (onlyIf (rs ≠ 0) (rTypeInst env .addu 1 1 rs)) :=
    Keeps.onlyIf (hnew _ _ _ _)
  refine Keeps.get_bind fun s => KeepsFrom.ite (fun _ => ?_) fun _ => ?_
  · split
    · exact hI _ _ _ _ s
    · refine Keeps.ite (fun _ => ?_) (fun _ => hI _ _ _ _) s
      exact Keeps.bind (hI _ _ _ _) fun _ => Keeps.bind hadd fun _ => hI _ _ _ _
    · exact Keeps.bind (hI _ _ _ _) (fun _ => Keeps.bind hadd fun _ => hI _ _ _ _) s
  refine KeepsFrom.ite (fun _ => hI _ _ _ _ s) fun _ => ?_
  split
  · exact hI _ _ _ _ s
  · refine Keeps.ite (fun _ => produceImmediate hI _ _ _) (fun _ => ?_) s
    refine Keeps.bind (produceImmediate hI _ _ _) fun _ => ?_
    cases immOpToOp op with
    | none => exact Keeps.throw _
    | some op' => exact hnew _ _ _ _

lemma iTypeInstFullWord (op : Opcode) (rt rs : Word) (e : ImmExpr)
    (v : Option Word) : Keeps R (iTypeInstFullWord env emitI op rt rs e v) :=
  fullWord hI (fun _ _ _ _ => hR.storeNew _) op rt rs e v

end

lemma iTypeInst (n : ℕ) (op : Opcode) (rt rs : Word) (e : ImmExpr) :
    Keeps R (iTypeInst env n op rt rs e) := by
  induction n generalizing op rt rs e with
  | zero => exact Keeps.throw _
  | succ n ih =>
    intro s
    refine KeepsFrom.bind (hR.newInst _ s) fun r t ht => ?_
    cases ht
    refine KeepsFrom.ite (fun _ => ?_) fun _ => ?_
    · refine KeepsFrom.bind (hR.evalImmExpr e _) fun v t ht => ?_
      have hm := evalImmExpr_machine ht
      refine KeepsFrom.ite (fun _ => hR.iTypeInstFullWord ih _ _ _ _ _ t) fun _ => ?_
      refine hR.storeExprInst ?_
      rw [hm]
      simp [Asm.setMachine, Inst.symbol]
    · refine KeepsFrom.ite (fun _ => ?_) fun _ => hR.iTypeInstFullWord ih _ _ _ _ _ _
      exact hR.storeExprInst (by simp [Asm.setMachine, Inst.symbol])

theorem emitInst (i : InstNode) : Keeps R (emitInst env i) := by
  cases i with
  | r op rd rs rt => exact hR.storeNew _
  | rShift op rd rt shamt => exact hR.storeNew _
  | i op rt rs imm => exact hR.iTypeInst _ _ _ _ _
  | j op target => exact hR.jTypeInst _ _
  | fpR op fd fs ft => exact hR.storeNew _
  | fpCompare op fs ft cc => exact hR.storeNew _

end InstRel

lemma StoreRel.emitInst {R : Rel Asm} (hR : StoreRel R) (env : Env) (i : InstNode) :
    Keeps R (emitInst env i) := (hR.toInstRel env).emitInst i

end Spimulator
