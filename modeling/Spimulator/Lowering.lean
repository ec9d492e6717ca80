import Spimulator.Library.BoundedRun
import Spimulator.NodeCode

/-! How far i_type_inst goes: how deep its calls are, how many instructions it stores, and when it
ends in the fatal_error of imm_op_to_op. -/
namespace Spimulator
open Frame BoundedRun

/-! What is stored. -/

/-- An instruction in text, or its encoding as a datum. -/
def AsmEvent.isStore : AsmEvent → Bool
  | .stored _ _ | .instStored _ _ => true
  | _ => false

/-- How often the assembler has stored so far. -/
def Asm.storeCount (s : Asm) : ℕ := s.events.countP AsmEvent.isStore

lemma storeCount_log {e : AsmEvent} (h : e.isStore = false) (s : Asm) :
    (s.log e).storeCount = s.storeCount := by
  simp [Asm.storeCount, Asm.log, h]

lemma storeCount_le_log (s : Asm) (e : AsmEvent) : (s.log e).storeCount ≤ s.storeCount + 1 := by
  simp only [Asm.storeCount, Asm.log, List.countP_cons]
  split <;> omega

/-- Two computations that store at most so often and do not reach the fatal error run alike. -/
abbrev StoresAlike {α : Type} (k : ℕ) (x y : Assemble α) (s : Asm) : Prop :=
  Alike Asm.storeCount .noImmediateOp k x y s

/-- The computation stores at most so often and does not reach the fatal error. -/
abbrev StoresAtMost {α : Type} (k : ℕ) (x : Assemble α) : Prop :=
  Adds Asm.storeCount .noImmediateOp k x

namespace StoresAtMost

lemma onMachine {α : Type} (x : Exec α) : StoresAtMost 0 (onMachine x) := by
  intro s
  refine ⟨rfl, ?_, fun t h => ?_⟩
  · cases hx : x.run s.machine with
    | ok a m =>
      rw [onMachine_run hx]
      exact Nat.le_refl _
    | error e m =>
      rw [onMachine_error hx]
      exact Nat.le_refl _
  · obtain ⟨k, hk⟩ := error_of_onMachine h
    cases hk

lemma report (r : Report) : StoresAtMost 0 (report r) :=
  Adds.modify fun s => Nat.le_of_eq (storeCount_log rfl s)

lemma newInst (i : Inst) : StoresAtMost 0 (newInst i) := by
  intro s
  exact Alike.get_bind ((Alike.set (Nat.le_refl _)).bind fun _ _ _ => .pure _)

lemma copyInst (r : InstRef) : StoresAtMost 0 (copyInst r) := by
  intro s
  exact Alike.get_bind ((Alike.set (Nat.le_refl _)).bind fun _ _ _ => .pure _)

lemma symbolValue (e : ImmExpr) : StoresAtMost 0 (symbolValue e) := by
  intro s
  unfold Spimulator.symbolValue
  cases e.symbol with
  | none => exact .pure _
  | some l =>
    refine Alike.get_bind (.ite (fun _ => ?_) fun _ => ?_)
    · refine Alike.bind (j := 0) (.modify ?_) fun _ _ _ => .pure _
      exact Nat.le_of_eq (storeCount_log rfl s)
    · exact (report _ s).bind fun _ _ _ => .pure _

lemma evalImmExpr (e : ImmExpr) : StoresAtMost 0 (evalImmExpr e) :=
  fun s => (symbolValue e s).bind fun _ _ _ => .pure _

lemma compensateLui (tbl : AOpcodeTbl) (sym : Option LabelRef) (pc : Word) :
    StoresAtMost 0 (compensateLui tbl sym pc) := by
  refine Adds.bind (j := 0) (k := 0) (onMachine _) fun prev => ?_
  refine Adds.bind (j := 0) (k := 0) (onMachine _) fun prevPrev s => Alike.get_bind ?_
  cases (s.waitingLui sym prev).or (s.waitingLui sym prevPrev) with
  | none => exact .pure _
  | some w => exact .set (Nat.le_refl _)

lemma fieldValue (env : Env) (op : Opcode) (e : ImmExpr) (pc : Word) :
    StoresAtMost 0 (fieldValue env op e pc) := by
  refine Adds.bind (j := 0) (k := 0) (evalImmExpr e) fun v s => ?_
  refine .ite (fun _ => .pure _) fun _ => .ite (fun _ => ?_) fun _ => .ite (fun _ => ?_) fun _ => .pure _
  · exact (Alike.onlyIf (report _ s)).bind fun _ _ _ => .pure _
  · exact (Alike.onlyIf (compensateLui _ _ _ s)).bind fun _ _ _ => .pure _

lemma resolveInst (env : Env) (r : InstRef) (op : Opcode) (e : ImmExpr) (pc : Word) :
    StoresAtMost 0 (resolveInst env r op e pc) := by
  refine Adds.bind (j := 0) (k := 0) (fieldValue env op e pc) fun v => ?_
  refine Adds.bind (j := 0) (k := 0) (fun s => Alike.onlyIf ?_) fun _ => .modify fun _ => Nat.le_refl _
  exact (report _ s).bind fun _ t _ => onMachine _ t

lemma resolveALabelSub (env : Env) (sym : LabelRef) (i : Option InstRef) (pc : Word) :
    StoresAtMost 0 (resolveALabelSub env sym i pc) := by
  intro s
  refine Alike.get_bind ?_
  cases i with
  | none =>
    refine Alike.bind (j := 0) (k := 0) (.onlyIf (.modify ?_)) fun _ t _ => onMachine _ t
    exact Nat.le_of_eq (storeCount_log rfl s)
  | some r =>
    dsimp only
    split
    · refine Alike.bind (j := 0) (k := 0) (.set (Nat.le_refl _)) fun _ t _ => ?_
      exact .ite (fun _ => resolveInst _ _ _ _ _ t) fun _ => report _ t
    · exact .throw (by simp)

lemma resolveALabel (env : Env) (sym : Option LabelRef) (r : InstRef) :
    StoresAtMost 0 (resolveALabel env sym r) :=
  fun s => Alike.get_bind (resolveALabelSub _ _ _ _ s)

lemma recordInstUsesSymbol (r : InstRef) (l : LabelRef) :
    StoresAtMost 0 (recordInstUsesSymbol r l) := by
  intro s
  refine Alike.get_bind (.ite (fun _ => ?_) fun _ => .modify (Nat.le_refl _))
  exact (copyInst r s).bind (k := 0) fun _ _ _ => .modify (Nat.le_refl _)

/-! Storing. -/

lemma incrementDataPc (delta : Word) : StoresAtMost 0 (incrementDataPc delta) := by
  have hpc (s : Asm) (v : Word) : (s.setDataPc v).storeCount = s.storeCount := by
    unfold Asm.setDataPc
    split <;> rfl
  refine Adds.bind (j := 0) (k := 0) (.modify fun s => Nat.le_of_eq (hpc s _)) fun _ s => ?_
  refine Alike.get_bind (.ite (fun _ => .onlyIf ?_) fun _ => .onlyIf (onMachine _ s))
  refine Alike.get_bind (.ite (fun _ => .throw (by simp)) fun _ => ?_)
  exact .ite (fun _ => .throw (by simp)) fun _ => .set (Nat.le_refl _)

lemma fireOuter (d : ℕ) (e : Observed) : StoresAtMost 0 (onlyIf (d = 0) (fire e)) :=
  fun _ => .onlyIf (.modify (Nat.le_refl _))

lemma storeByte (tbl : AOpcodeTbl) (d : ℕ) (v : Word) : StoresAtMost 0 (Data.storeByte tbl d v) :=
  fun s => Alike.get_bind ((onMachine _ s).bind fun _ t _ =>
    (incrementDataPc _ t).bind fun _ u _ => fireOuter d _ u)

lemma storeHalf (tbl : AOpcodeTbl) (d : ℕ) (v : Word) :
    StoresAtMost 0 (Data.storeHalf tbl d v) := by
  intro s
  refine Alike.get_bind (Alike.bind (j := 0) (k := 0) (.ite (fun _ => ?_) fun _ => ?_)
    fun _ u _ => fireOuter d _ u)
  · exact (storeByte _ _ _ s).bind fun _ t _ => storeByte _ _ _ t
  · exact (onMachine _ s).bind fun _ t _ => incrementDataPc _ t

lemma storeWord (tbl : AOpcodeTbl) (d : ℕ) (v : Word) :
    StoresAtMost 0 (Data.storeWord tbl d v) := by
  intro s
  refine Alike.get_bind (Alike.bind (j := 0) (k := 0) (.ite (fun _ => ?_) fun _ => ?_)
    fun _ u _ => fireOuter d _ u)
  · exact (storeHalf _ _ _ s).bind fun _ t _ => storeHalf _ _ _ t
  · exact (onMachine _ s).bind fun _ t _ => incrementDataPc _ t

lemma incrementTextPc (delta : Word) : StoresAtMost 0 (incrementTextPc delta) := by
  have hpc (s : Asm) (v : Word) : (s.setTextPc v).storeCount = s.storeCount := by
    unfold Asm.setTextPc
    split <;> rfl
  refine Adds.bind (j := 0) (k := 0) (.modify fun s => Nat.le_of_eq (hpc s _)) fun _ s => ?_
  exact Alike.get_bind (.ite (fun _ => .onlyIf (.throw (by simp))) fun _ => .onlyIf (.throw (by simp)))

lemma storeInText (env : Env) (r : InstRef) : StoresAtMost 1 (storeInText env r) := by
  intro s
  refine Alike.get_bind (Alike.bind (j := 0) (k := 1) (onMachine _ s) fun _ s _ => ?_)
  refine Alike.bind (j := 0) (k := 1) (onMachine _ s) fun _ s _ => Alike.get_bind ?_
  refine Alike.bind (j := 1) (k := 0) (.ite (fun _ => (report _ s).mono (Nat.zero_le 1)) fun _ => ?_)
    fun _ t _ => .modify ?_
  · exact Alike.bind (j := 1) (k := 0) (.modify (storeCount_le_log s _)) fun _ t _ => incrementTextPc 4 t
  · change (t.setEncoding r).storeCount ≤ _
    rcases setEncoding_eq t r with h | h <;> rw [h] <;> exact Nat.le_refl _

lemma storeInstruction (env : Env) (r : InstRef) : StoresAtMost 1 (storeInstruction env r) := by
  intro s
  refine Alike.get_bind (.ite (fun _ => Alike.get_bind ?_) fun _ => .ite (fun _ => storeInText env r s)
    fun _ => (Alike.pure _).mono (Nat.zero_le 1))
  exact Alike.bind (j := 1) (k := 0) (.modify (storeCount_le_log s _)) fun _ t _ => storeWord _ _ _ t

lemma storeNew (env : Env) (i : Inst) : StoresAtMost 1 (storeNew env i) :=
  fun s => (newInst i s).bind (k := 1) fun _ t _ => storeInstruction _ _ t

lemma storeExprInst (env : Env) (r : InstRef) (e : ImmExpr) :
    StoresAtMost 1 (storeExprInst env r e) := by
  intro s
  have hstore (t : Asm) := storeInstruction env r t
  refine Alike.get_bind ?_
  cases e.symbol with
  | none => exact (resolveALabel env none r s).bind (k := 1) fun _ t _ => hstore t
  | some l =>
    refine .ite (fun _ => ?_) fun _ => ?_
    · exact (resolveALabel env (some l) r s).bind (k := 1) fun _ t _ => hstore t
    · exact (recordInstUsesSymbol r l s).bind (k := 1) fun _ t _ => hstore t

end StoresAtMost

/-! Halves of a value. -/

lemma toNat_and_low (v : Word) : (v &&& 0xffff).toNat = v.toNat % 65536 := by
  rw [BitVec.toNat_and]
  change v.toNat &&& (2^16-1) = v.toNat % 2^16
  rw [Nat.and_two_pow_sub_one_eq_mod]

lemma toNat_high (v : Word) : ((v.sshiftRight 16) &&& (0xffff : Word)).toNat = v.toNat / 65536 := by
  have hm : (0xffff : Word) = (BitVec.allOnes 16).setWidth 32 := by decide
  have hshift : (v.sshiftRight 16) &&& (0xffff : Word) = v >>> 16 := by
    rw [hm]
    ext i hi
    simp only [BitVec.getElem_and, BitVec.getElem_sshiftRight, BitVec.getElem_ushiftRight,
      BitVec.getElem_setWidth, BitVec.getLsbD_allOnes]
    by_cases h : i < 16
    · have hlt : 16 + i < 32 := by omega
      simp [h, hlt]
    · have hout : v.getLsbD (16 + i) = false := BitVec.getLsbD_of_ge v _ (by omega)
      simp [h, hout]
  rw [hshift, BitVec.toNat_ushiftRight, Nat.shiftRight_eq_div_pow]

lemma and_sign_eq_zero (v : Word) : v &&& 0x8000 = 0 ↔ v.toNat % 65536 < 32768 := by
  have hbit : v &&& 0x8000 = if v.getLsbD 15 then BitVec.twoPow 32 15 else 0#32 :=
    BitVec.and_twoPow v 15
  have hdiv : v.getLsbD 15 = decide (v.toNat / 32768 % 2 = 1) := Nat.testBit_eq_decide_div_mod_eq
  rw [hbit, hdiv]
  by_cases h : v.toNat / 32768 % 2 = 1
  · rw [if_pos (by simpa using h)]
    exact iff_of_false (by decide) (by omega)
  · rw [if_neg (by simpa using h)]
    exact iff_of_true rfl (by omega)

/-! The recursion. -/

abbrev EmitI := Opcode → Word → Word → ImmExpr → Assemble Unit

/-- i_type_inst, with `emitI` for the calls that its longer sequences make. -/
def iTypeInstStep (env : Env) (emitI : EmitI) : EmitI := fun op rt rs e => do
  let r ← newInst { opcode := some op, rs := rs.setWidth 8, rt := rt.setWidth 8, expr := some e }
  let s ← get
  if s.symbolDefined e then
    let value ← evalImmExpr e
    if ¬ env.bareMachine ∧ immTooLarge op e value then
      iTypeInstFullWord env emitI op rt rs e (some value)
    else storeExprInst env r e
  else if env.bareMachine ∨ e.bits ≠ 0 then storeExprInst env r e
  else iTypeInstFullWord env emitI op rt rs e none

/-- i_type_inst down to `n` calls deep, and anything at all in place of deeper calls. -/
def iTypeInstOver (env : Env) (deeper : EmitI) : ℕ → EmitI
  | 0 => deeper
  | n+1 => iTypeInstStep env (iTypeInstOver env deeper n)

theorem iTypeInst_eq_over (env : Env) (n : ℕ) :
    iTypeInst env n = iTypeInstOver env (fun _ _ _ _ => throw (.machine .hostStack)) n := by
  induction n with
  | zero => rfl
  | succ n ih => rw [iTypeInstOver, ← ih]; rfl

/-- i_type_inst makes no call that is more than four deep, stores at most three instructions, and
does not end in the fatal error. -/
structure Lowers (env : Env) (op : Opcode) (rt rs : Word) (e : ImmExpr) (s : Asm) : Prop where
  depth : ∀ deeper, (iTypeInst env 4 op rt rs e).run s = (iTypeInstOver env deeper 4 op rt rs e).run s
  stores : (final ((iTypeInst env 4 op rt rs e).run s)).storeCount ≤ s.storeCount + 3
  noFatal : ∀ t, (iTypeInst env 4 op rt rs e).run s ≠ .error .noImmediateOp t

/-- The value of the part of an expression that it asks for. -/
def Asm.exprValue (s : Asm) (e : ImmExpr) : Word :=
  e.part (e.offset + e.symbol.elim 0 fun l => (s.label l).addr)

/-- The immediate does not fit into one instruction, or it is not known whether it does. -/
def Asm.needsFullWord (s : Asm) (env : Env) (op : Opcode) (e : ImmExpr) : Prop :=
  env.bareMachine = false ∧
    if s.symbolDefined e then immTooLarge op e (s.exprValue e) = true else e.bits = 0

/-- The opcodes that have a sequence for a full word. -/
def Opcode.hasFullWord (op : Opcode) : Bool :=
  op.isLoadStore ∨ op.isBranch ∨ (immOpToOp op).isSome

/-- A full word is needed, and there is no sequence for it. -/
def Asm.noSequence (s : Asm) (env : Env) (op : Opcode) (rs : Word) (e : ImmExpr) : Prop :=
  op.hasFullWord = false ∧ s.needsFullWord env op e ∧
    ∀ offset, gpOffset s e rs = some offset → immTooLarge op (constImmExpr offset) offset = true

section

variable {env : Env} {emitI emitJ : EmitI} {op : Opcode} {rt rs : Word} {e : ImmExpr} {s : Asm}

lemma evalImmExpr_value (h : s.symbolDefined e = true) :
    ∃ t, (evalImmExpr e).run s = .ok (s.exprValue e) t ∧ t.machine = s.machine := by
  unfold Asm.exprValue
  obtain he | ⟨l, he⟩ := Option.eq_none_or_eq_some e.symbol
  · refine ⟨s, ?_, rfl⟩
    rw [evalImmExpr_const he, he]
    simp
  · have hdef : (s.label l).isDefined = true := by
      simpa only [Asm.symbolDefined, he] using h
    refine ⟨s.log (.used l (s.label l).addr), ?_, rfl⟩
    rw [evalImmExpr, run_bind_of_ok (symbolValue_run he hdef), he]
    rfl

/-- One level of the recursion: the longer sequence, where a full word is needed. -/
lemma iTypeInstStep_alike {k : ℕ} (hk : 1 ≤ k)
    (hfull : s.needsFullWord env op e → ∀ t value,
      t.machine.labels = s.machine.labels →
      (s.symbolDefined e = true → value = some (s.exprValue e)) →
      (s.symbolDefined e = false → value = none) →
      StoresAlike k (iTypeInstFullWord env emitI op rt rs e value)
        (iTypeInstFullWord env emitJ op rt rs e value) t) :
    StoresAlike k (iTypeInstStep env emitI op rt rs e) (iTypeInstStep env emitJ op rt rs e) s := by
  have hstore (r : InstRef) (t : Asm) :
      StoresAlike k (storeExprInst env r e) (storeExprInst env r e) t :=
    (StoresAtMost.storeExprInst env r e t).mono hk
  rw [← Nat.zero_add k]
  refine (StoresAtMost.newInst _ s).bind fun r t ht => ?_
  cases ht
  refine Alike.get_bind (.ite (fun hd => ?_) fun hd => .ite (fun _ => hstore _ _) fun hb => ?_)
  · obtain ⟨u, heval, hm⟩ := evalImmExpr_value hd
    rw [← Nat.zero_add k]
    refine (StoresAtMost.evalImmExpr e _).bind fun v t ht => ?_
    rw [heval] at ht
    cases ht
    refine .ite (fun hl => ?_) fun _ => hstore _ _
    have hd : s.symbolDefined e = true := hd
    refine hfull ⟨by simpa using hl.1, ?_⟩ _ _ (by rw [hm]; rfl) (fun _ => rfl) fun hnot => ?_
    · rw [if_pos hd]
      exact hl.2
    · rw [hd] at hnot
      cases hnot
  · have hd : ¬ s.symbolDefined e = true := hd
    rw [not_or, not_not] at hb
    refine hfull ⟨by simpa using hb.1, ?_⟩ _ _ rfl (fun h => absurd h hd) fun _ => rfl
    rw [if_neg hd]
    exact hb.2

/-- A constant that fits, and either half of a value, are one instruction. -/
lemma iTypeInstStep_small (h : ¬ s.needsFullWord env op e) :
    StoresAlike 1 (iTypeInstStep env emitI op rt rs e) (iTypeInstStep env emitJ op rt rs e) s :=
  iTypeInstStep_alike (Nat.le_refl 1) fun hneeds => absurd hneeds h

lemma not_needsFullWord_part (hop : signExtendsImm op = false) (hbits : e.bits ≠ 0) :
    ¬ s.needsFullWord env op e := by
  rintro ⟨-, h⟩
  split at h
  · have hlow : s.exprValue e &&& 0xffff0000 = 0 := part_low e _ hbits
    have hsmall : immTooLarge op e (s.exprValue e) = false := by
      simpa [immTooLarge, hop, hbits] using hlow
    rw [hsmall] at h
    cases h
  · exact hbits h

lemma not_needsFullWord_const {v : Word} (h : immTooLarge op (constImmExpr v) v = false) :
    ¬ s.needsFullWord env op (constImmExpr v) := by
  rintro ⟨-, hlarge⟩
  have hvalue : s.exprValue (constImmExpr v) = v := by
    simp [Asm.exprValue, constImmExpr, ImmExpr.part]
  rw [if_pos (symbolDefined_none rfl s), hvalue, h] at hlarge
  cases hlarge

lemma immTooLarge_lui {v : Word} (h : v.toNat < 65536) :
    immTooLarge .lui (constImmExpr v) v = false := by
  have hhigh : v &&& 0xffff0000 = 0 := by
    apply BitVec.eq_of_toNat_eq
    rw [show (0xffff0000 : Word) = BitVec.allOnes 32 <<< 16 from rfl,
      Alignment.toNat_and_allOnes_shiftLeft]
    change v.toNat / 65536 * 65536 = 0
    omega
  simpa [immTooLarge, signExtendsImm, Opcode.isLoadStore] using hhigh

/-- The signed 16-bit values are those that do not go over a signed field. -/
lemma immTooLarge_signed {v : Word}
    (hop : signExtendsImm op = true ∨ op.isLoadStore = true ∧ e.bits = 0) :
    immTooLarge op e v = false ↔ v.toNat < 32768 ∨ 2^32 - 32768 ≤ v.toNat := by
  have hv := v.isLt
  have hmask : (v &&& 0xffff8000).toNat = v.toNat / 2^15 * 2^15 :=
    Alignment.toNat_and_allOnes_shiftLeft 15 v
  have hzero : v &&& 0xffff8000 = 0 ↔ v.toNat < 32768 := by
    rw [← BitVec.toNat_inj, hmask]
    change _ = 0 ↔ _
    omega
  have hones : v &&& 0xffff8000 = 0xffff8000 ↔ 2^32 - 32768 ≤ v.toNat := by
    rw [← BitVec.toNat_inj, hmask]
    change _ = 4294934528 ↔ _
    omega
  rw [immTooLarge, if_pos hop, decide_eq_false_iff_not, not_and_or, not_not, not_not, hzero, hones]

/-- The offset from $gp fits a signed field. -/
lemma gpOffset_small {offset : Word} (hgp : gpOffset s e rs = some offset)
    (hop : signExtendsImm op = true ∨ op.isLoadStore = true) :
    immTooLarge op (constImmExpr offset) offset = false := by
  obtain ⟨l, -, h⟩ := Option.bind_eq_some_iff.mp hgp
  dsimp only at h
  split at h
  · rename_i hc
    obtain ⟨-, -, hlow, hhigh⟩ := hc
    cases h
    refine (immTooLarge_signed (hop.imp_right fun h => ⟨h, rfl⟩)).mpr ?_
    rw [BitVec.toInt_eq_toNat_cond] at hlow hhigh
    split at hlow <;> omega
  · cases h

/-! The longer sequences. -/

/-- Calls for parts and for constants that fit store one instruction. -/
def SmallAlike (env : Env) (emitI emitJ : EmitI) : Prop :=
  ∀ op rt rs e s, ¬ s.needsFullWord env op e → StoresAlike 1 (emitI op rt rs e) (emitJ op rt rs e) s

lemma produceImmediate_alike (h : SmallAlike env emitI emitJ) (e : ImmExpr) (rt : Word)
    (v : Option Word) (s : Asm) :
    StoresAlike 2 (produceImmediate emitI e rt v) (produceImmediate emitJ e rt v) s := by
  have hupper (rt : Word) (s : Asm) := h .lui rt 0 (upperBitsOfExpr e) s
    (not_needsFullWord_part rfl (show (1 : ℤ) ≠ 0 by decide))
  have hlower (rs : Word) (s : Asm) := h .ori rt rs (lowerBitsOfExpr e) s
    (not_needsFullWord_part rfl (show (-1 : ℤ) ≠ 0 by decide))
  refine .ite (fun _ => (hupper rt s).mono (by omega)) fun _ => ?_
  refine .ite (fun _ => (hlower 0 s).mono (by omega)) fun _ => ?_
  exact (hupper 1 s).bind (k := 1) fun _ t _ => hlower 1 t

lemma signExtendsImm_loadStore (hop : op.isLoadStore = true) : signExtendsImm op = false := by
  unfold Opcode.isLoadStore at hop
  split at hop
  all_goals first | rfl | cases hop

/-- A load or store of an address that does not fit. -/
lemma loadStoreKnown_alike (h : SmallAlike env emitI emitJ) (hop : op.isLoadStore = true)
    {v : Word} (hrange : ¬ (v.toNat < 32768 ∨ 2^32 - 32768 ≤ v.toNat)) :
    StoresAlike 3 (loadStoreKnown env emitI op rt rs v) (loadStoreKnown env emitJ op rt rs v) s := by
  have hv := v.isLt
  have hlow := toNat_and_low v
  have hhigh := toNat_high v
  have hsign : (v &&& 0xffff) &&& 0x8000 = 0 ↔ v.toNat % 65536 < 32768 := by
    rw [and_sign_eq_zero, hlow, Nat.mod_mod]
  have hzero : (v.sshiftRight 16) &&& (0xffff : Word) = 0 ↔ v.toNat / 65536 = 0 := by
    rw [← BitVec.toNat_inj, hhigh]
    rfl
  have hones : (v.sshiftRight 16) &&& (0xffff : Word) = 0xffff ↔ v.toNat / 65536 = 65535 := by
    rw [← BitVec.toNat_inj, hhigh]
    rfl
  unfold loadStoreKnown
  refine .ite (fun hc => ?_) fun hc => ?_
  · -- lui of the high half, made up for the sign of the low half
    simp only [Ne, hzero, hones, hsign] at hc
    have hlui : immTooLarge .lui (constImmExpr (if (v &&& 0xffff) &&& 0x8000 ≠ 0 then
        ((v.sshiftRight 16) &&& (0xffff : Word)) + 1 else (v.sshiftRight 16) &&& (0xffff : Word)))
        (if (v &&& 0xffff) &&& 0x8000 ≠ 0 then
          ((v.sshiftRight 16) &&& (0xffff : Word)) + 1 else (v.sshiftRight 16) &&& (0xffff : Word)) =
        false := by
      refine immTooLarge_lui ?_
      split
      · rename_i hne
        rw [Ne, hsign] at hne
        rw [BitVec.toNat_add, hhigh]
        change (v.toNat / 65536 + 1) % 2^32 < _
        omega
      · rw [hhigh]
        omega
    refine Alike.bind (j := 1) (k := 2) (h _ _ _ _ _ (not_needsFullWord_const hlui)) fun _ t _ => ?_
    refine Alike.bind (j := 1) (k := 1) (.onlyIf (StoresAtMost.storeNew _ _ _)) fun _ t _ => ?_
    exact h _ _ _ _ _ (not_needsFullWord_part (signExtendsImm_loadStore hop)
      (show (-1 : ℤ) ≠ 0 by decide))
  · simp only [Ne, hzero, hones, hsign] at hc
    omega

/-- i_type_inst_full_word. -/
lemma iTypeInstFullWord_alike {value : Option Word} (h : SmallAlike env emitI emitJ)
    (hgp : ∀ op rt offset, gpOffset s e rs = some offset →
      (signExtendsImm op = true ∨ op.isLoadStore = true ∨ op.hasFullWord = true) →
      StoresAlike 3 (emitI op rt 28 (constImmExpr offset)) (emitJ op rt 28 (constImmExpr offset)) s)
    (hv : ∀ v, value = some v → immTooLarge op e v = true ∧ (e.bits ≠ 0 → v &&& 0xffff0000 = 0))
    (hstuck : op.hasFullWord = true ∨ ∃ offset, gpOffset s e rs = some offset ∧
      immTooLarge op (constImmExpr offset) offset = false) :
    StoresAlike 3 (iTypeInstFullWord env emitI op rt rs e value)
      (iTypeInstFullWord env emitJ op rt rs e value) s := by
  have hpart {op : Opcode} (hop : signExtendsImm op = false) (rt rs : Word) (t : Asm) :=
    h op rt rs (lowerBitsOfExpr e) t (not_needsFullWord_part hop (show (-1 : ℤ) ≠ 0 by decide))
  refine Alike.get_bind (.ite (fun hop => ?_) fun hop => .ite (fun hop' => ?_) fun hop' => ?_)
  · split
    · rename_i hoff
      exact hgp op rt _ hoff (Or.inr (Or.inl hop))
    · rename_i v _
      refine loadStoreKnown_alike h hop fun hrange => ?_
      obtain ⟨hlarge, hhalf⟩ := hv v rfl
      by_cases hbits : e.bits = 0
      · rw [(immTooLarge_signed (Or.inr ⟨hop, hbits⟩)).mpr hrange] at hlarge
        cases hlarge
      · have hsmall : immTooLarge op e v = false := by
          rw [immTooLarge, if_neg (by simp [signExtendsImm_loadStore hop, hbits])]
          simpa using hhalf hbits
        rw [hsmall] at hlarge
        cases hlarge
    · refine Alike.bind (j := 1) (k := 2) (h _ _ _ _ _ (not_needsFullWord_part rfl
        (show (1 : ℤ) ≠ 0 by decide))) fun _ t _ => ?_
      refine Alike.bind (j := 1) (k := 1) (.onlyIf (StoresAtMost.storeNew _ _ _)) fun _ t _ => ?_
      exact hpart (signExtendsImm_loadStore hop) rt 1 t
  · have hnosign : signExtendsImm op = false := by
      unfold Opcode.isBranch at hop'
      split at hop'
      all_goals first | rfl | cases hop'
    exact (hpart hnosign rt rs s).mono (by omega)
  · have hreg : op.hasFullWord = true → ∃ o, immOpToOp op = some o := by
      intro hfull
      simpa [Opcode.hasFullWord, hop, hop', Option.isSome_iff_exists] using hfull
    split
    · rename_i offset hoff
      split
      · exact hgp .addiu rt offset hoff (Or.inl rfl)
      · rcases hstuck with hfull | ⟨offset', hoff', hsmall⟩
        · exact hgp op rt offset hoff (Or.inr (Or.inr hfull))
        · rw [hoff] at hoff'
          cases hoff'
          exact (h _ _ _ _ _ (not_needsFullWord_const hsmall)).mono (by omega)
    · rename_i hoff
      obtain ⟨o, ho⟩ := hreg (hstuck.resolve_right (by simp [hoff]))
      unfold computeImm
      refine .ite (fun _ => (produceImmediate_alike h e rt value s).mono (by omega)) fun _ => ?_
      refine Alike.bind (j := 2) (k := 1) (produceImmediate_alike h e 1 value s) fun _ t _ => ?_
      rw [ho]
      exact StoresAtMost.storeNew _ _ t

lemma label_congr {t : Asm} (h : t.machine.labels = s.machine.labels) : t.label = s.label := by
  funext l
  rw [Asm.label, h]
  rfl

lemma gpOffset_congr {t : Asm} (h : t.machine.labels = s.machine.labels) (e : ImmExpr) (rs : Word) :
    gpOffset t e rs = gpOffset s e rs := by
  rw [gpOffset, label_congr h]
  rfl

lemma needsFullWord_congr {t : Asm} (h : t.machine.labels = s.machine.labels) :
    t.needsFullWord env op e ↔ s.needsFullWord env op e := by
  unfold Asm.needsFullWord Asm.symbolDefined Asm.exprValue
  rw [label_congr h]

lemma noSequence_congr {t : Asm} (h : t.machine.labels = s.machine.labels) :
    t.noSequence env op rs e ↔ s.noSequence env op rs e := by
  unfold Asm.noSequence
  rw [needsFullWord_congr h]
  simp only [gpOffset_congr h]

/-- One level of the recursion that is not stuck. -/
lemma iTypeInstStep_notStuck (h : SmallAlike env emitI emitJ)
    (hgp : ∀ op rt offset t, gpOffset s e rs = some offset →
      (signExtendsImm op = true ∨ op.isLoadStore = true ∨ op.hasFullWord = true) →
      StoresAlike 3 (emitI op rt 28 (constImmExpr offset)) (emitJ op rt 28 (constImmExpr offset)) t)
    (hs : ¬ s.noSequence env op rs e) :
    StoresAlike 3 (iTypeInstStep env emitI op rt rs e) (iTypeInstStep env emitJ op rt rs e) s := by
  refine iTypeInstStep_alike (by omega) fun hneeds t value hlabels hdef hundef => ?_
  refine iTypeInstFullWord_alike h (fun op rt offset hoff => ?_) (fun v hv => ?_) ?_
  · rw [gpOffset_congr hlabels] at hoff
    exact hgp op rt offset t hoff
  · cases hd : s.symbolDefined e with
    | false =>
      rw [hundef hd] at hv
      cases hv
    | true =>
      rw [hdef hd] at hv
      cases hv
      have hlarge := hneeds.2
      rw [if_pos hd] at hlarge
      exact ⟨hlarge, part_low e _⟩
  · rw [gpOffset_congr hlabels]
    by_contra hno
    simp only [not_or, not_exists, not_and, Bool.not_eq_false, Bool.not_eq_true] at hno
    exact hs ⟨hno.1, hneeds, hno.2⟩

lemma smallAlike_step : SmallAlike env (iTypeInstStep env emitI) (iTypeInstStep env emitJ) :=
  fun _ _ _ _ _ h => iTypeInstStep_small h

/-- Three levels are enough. -/
lemma iTypeInstOver_alike (hs : ¬ s.noSequence env op rs e) (n : ℕ) :
    StoresAlike 3 (iTypeInstOver env emitI (n+3) op rt rs e)
      (iTypeInstOver env emitJ (n+3) op rt rs e) s := by
  refine iTypeInstStep_notStuck smallAlike_step (fun op rt offset t hoff hop => ?_) hs
  have hfits (hop : signExtendsImm op = true ∨ op.isLoadStore = true) :
      StoresAlike 3 (iTypeInstStep env (iTypeInstOver env emitI (n+1)) op rt 28 (constImmExpr offset))
        (iTypeInstStep env (iTypeInstOver env emitJ (n+1)) op rt 28 (constImmExpr offset)) t :=
    (iTypeInstStep_small (not_needsFullWord_const (gpOffset_small hoff hop))).mono (by omega)
  rcases hop with hop | hop | hop
  · exact hfits (Or.inl hop)
  · exact hfits (Or.inr hop)
  · refine iTypeInstStep_notStuck smallAlike_step (fun _ _ _ _ h => ?_) fun h => ?_
    · rw [gpOffset_none rfl] at h
      cases h
    · rw [h.1] at hop
      cases hop

theorem lowers_of_not_stuck (hs : ¬ s.noSequence env op rs e) : Lowers env op rt rs e s := by
  have halike (deeper : EmitI) : StoresAlike 3 (iTypeInst env 4 op rt rs e)
      (iTypeInstOver env deeper 4 op rt rs e) s := by
    rw [iTypeInst_eq_over]
    exact iTypeInstOver_alike hs 1
  have hstores := halike fun _ _ _ _ => throw .endless
  exact ⟨fun deeper => (halike deeper).same, hstores.adds, hstores.avoids⟩

/-! Where the recursion is stuck, in user text with room. -/

lemma incrementTextPc_ok (delta : Word) (hs : s.textInKernel = false)
    (h : s.nextTextPc + delta < s.machine.textTop) :
    (incrementTextPc delta).run s = .ok () { s with nextTextPc := s.nextTextPc + delta } := by
  have hset : s.setTextPc (s.currentTextPc + delta) =
      { s with nextTextPc := s.nextTextPc + delta } := by
    simp [Asm.setTextPc, Asm.currentTextPc, hs]
  have htop : ¬ s.machine.textTop ≤ s.nextTextPc + delta := by simpa using h
  change (do
    let s ← get
    if s.textInKernel then onlyIf (s.machine.kTextTop ≤ s.nextKTextPc) (throw .expandKText)
    else onlyIf (s.machine.textTop ≤ s.nextTextPc) (throw .expandText) : Assemble Unit).run
      (s.setTextPc (s.currentTextPc + delta)) = _
  rw [hset]
  change (if s.textInKernel then onlyIf (s.machine.kTextTop ≤ s.nextKTextPc) (throw .expandKText)
    else onlyIf (s.machine.textTop ≤ s.nextTextPc + delta) (throw .expandText) :
      Assemble Unit).run _ = _
  rw [if_neg (by simp [hs]), onlyIf_neg htop]
  rfl

lemma storeInstruction_ok {r : InstRef} (hs : UserText s)
    (hroom : s.nextTextPc + 4 < s.machine.textTop) :
    ∃ t, (storeInstruction env r).run s = .ok () t := by
  have hpc : s.currentTextPc = s.nextTextPc := by simp [Asm.currentTextPc, hs.user]
  have hwrite := onMachine_run (s := s.setMachine { s.machine with exceptionOccurred := false })
    (memWriteInst_text env.tbl (m := { s.machine with exceptionOccurred := false }) hs.inside
      hs.aligned (some r))
  have hstore := incrementTextPc_ok 4 (s := ((s.setMachine { s.machine with
    exceptionOccurred := false }).setMachine (Machine.setText { s.machine with
      exceptionOccurred := false } (Machine.textIndex s.nextTextPc) (some r))).log
        (.instStored s.nextTextPc r)) hs.user hroom
  change ∃ t, (if s.dataDir then _ else if s.textDir then storeInText env r else _ :
    Assemble Unit).run s = .ok () t
  rw [if_neg (by simp [hs.dataDir]), if_pos hs.textDir]
  change ∃ t, (do
    onMachine (memWriteInst env.tbl s.currentTextPc (some r))
    let t ← get
    (if t.machine.exceptionOccurred then report (.invalidInstAddress s.currentTextPc)
      else do
        logEvent (.instStored s.currentTextPc r)
        incrementTextPc 4 : Assemble Unit)
    modify fun t => (t.setEncoding r).fireTextInst s.currentTextPc r : Assemble Unit).run
      (s.setMachine { s.machine with exceptionOccurred := false }) = .ok () t
  rw [hpc, run_bind_of_ok hwrite]
  change ∃ t, (do
    incrementTextPc 4
    modify fun t => (t.setEncoding r).fireTextInst s.nextTextPc r : Assemble Unit).run
      (Asm.log _ _) = .ok () t
  rw [run_bind_of_ok hstore]
  exact ⟨_, rfl⟩

/-- lui and ori of either half of an expression are stored. -/
lemma storeExprInst_ok {t : Asm} {r : InstRef} (hroom : s.nextTextPc + 4 < s.machine.textTop) (h : Prepares s t r (openInst op rt rs e))
    (hop : op = .lui ∨ op = .ori) (hbits : e.bits ≠ 0) :
    ∃ u, (storeExprInst env r e).run t = .ok () u ∧ TextFill s u 1 := by
  have hstore {u : Asm} {i : Inst} (hu : Prepares s u r i) :
      ∃ u', (storeInstruction env r).run u = .ok () u' ∧ TextFill s u' 1 := by
    have hcounter := hu.stores.fill.counter
    obtain ⟨u', hrun⟩ : ∃ u', (storeInstruction env r).run u = .ok () u' := by
      refine storeInstruction_ok hu.user ?_
      rw [hcounter, hu.stores.fill.textTop]
      simpa using hroom
    exact ⟨u', hrun, hu.stores.fill.trans (storeInstruction_fill hu.user hrun)⟩
  have hcomp : op.isComputation := by rcases hop with rfl | rfl <;> exact ⟨rfl, rfl⟩
  have hbr : op.isBranch = false := by rcases hop with rfl | rfl <;> rfl
  have hresolve (sym : Option LabelRef) (hdef : t.symbolDefined e = true) :
      ∃ u, (do
        resolveALabel env sym r
        storeInstruction env r : Assemble Unit).run t = .ok () u ∧ TextFill s u 1 := by
    rw [EStateM.run_bind, resolveALabel_run, ← EStateM.run_bind]
    generalize (if t.dataDir then t.currentDataPc else t.currentTextPc) = pc
    have hrel : (e.relocated pc).symbol = e.symbol ∧ (e.relocated pc).bits = e.bits := by
      unfold ImmExpr.relocated
      split <;> exact ⟨rfl, rfl⟩
    have hdef' : t.symbolDefined (e.relocated pc) = true := by
      unfold Asm.symbolDefined at hdef ⊢
      rw [hrel.1]
      exact hdef
    have hfits (v : Word) : fitsField (fieldOf op ((e.relocated pc).part v)) := by
      rw [fieldOf, if_neg (by simp [hbr])]
      refine fitsField_of_low (part_low _ v ?_)
      rw [hrel.2]
      exact hbits
    obtain ⟨v, t', hsub, hnoted, -⟩ := @resolveALabelSub_run env t op e r (sym.getD 0) pc hcomp
      (fun h => by simp [hbr] at h) (congrArg Inst.opcode h.record) (congrArg Inst.expr h.record)
      hdef' (fun v _ => hfits v)
    rw [run_bind_of_ok hsub]
    exact hstore ((h.noted hnoted).setInst _)
  obtain he | ⟨l, he⟩ := Option.eq_none_or_eq_some e.symbol
  · rw [storeExprInst_none he]
    exact hresolve none (symbolDefined_none he t)
  · cases hd : (t.label l).isDefined with
    | true =>
      rw [storeExprInst_defined he hd]
      exact hresolve (some l) (by simpa only [Asm.symbolDefined, he] using hd)
    | false =>
      rw [storeExprInst_undefined he hd]
      have huse : (recordInstUsesSymbol r l).run t = .ok () (t.setLabel l { t.label l with
          uses := { instruction := some r, addr := t.currentTextPc } :: (t.label l).uses }) := by
        change (if t.dataDir then _ else addUse l _ : Assemble Unit).run t = _
        rw [if_neg (by simp [h.user.dataDir])]
        rfl
      rw [run_bind_of_ok huse]
      exact hstore (h.keep (.of_same h.user rfl rfl rfl rfl rfl rfl rfl) rfl rfl rfl)

lemma iTypeInst_half_ok {n : ℕ} (hs : UserText s) (hroom : s.nextTextPc + 4 < s.machine.textTop)
    (hop : op = .lui ∨ op = .ori) (hbits : e.bits ≠ 0) :
    ∃ t, (iTypeInst env (n+1) op rt rs e).run s = .ok () t ∧ TextFill s t 1 := by
  obtain ⟨s₁, r, h, hdef, hr⟩ := iTypeInst_run n op rt rs e hs
  rw [hr]
  by_cases hd : s.symbolDefined e = true
  · rw [if_pos hd]
    obtain ⟨v, s₂, heval, hnoted, -⟩ := evalImmExpr_run ((hdef e).trans hd)
    have hsmall : immTooLarge op e (e.part v) = false := by
      rcases hop with rfl | rfl <;>
        simpa [immTooLarge, signExtendsImm, Opcode.isLoadStore] using part_low e v hbits
    rw [run_bind_of_ok heval, if_neg (by simp [hsmall])]
    exact storeExprInst_ok hroom (h.noted hnoted) hop hbits
  · rw [if_neg hd, if_pos (Or.inr hbits)]
    exact storeExprInst_ok hroom h hop hbits

/-- Room for two more instructions. -/
def HasRoom (s : Asm) : Prop :=
  s.nextTextPc + 4 < s.machine.textTop ∧ s.nextTextPc + 4 + 4 < s.machine.textTop

lemma produceImmediate_ok {n : ℕ} {v : Option Word} (hs : UserText s) (hroom : HasRoom s) :
    ∃ t, (produceImmediate (iTypeInst env (n+1)) e rt v).run s = .ok () t := by
  have hupper (rt : Word) : ∃ t, (iTypeInst env (n+1) .lui rt 0 (upperBitsOfExpr e)).run s = .ok () t ∧
      TextFill s t 1 := iTypeInst_half_ok hs hroom.1 (Or.inl rfl) (show (1 : ℤ) ≠ 0 by decide)
  have hlower {s : Asm} (hs : UserText s) (hroom : s.nextTextPc + 4 < s.machine.textTop) (rs : Word) :
      ∃ t, (iTypeInst env (n+1) .ori rt rs (lowerBitsOfExpr e)).run s = .ok () t ∧ TextFill s t 1 :=
    iTypeInst_half_ok hs hroom (Or.inr rfl) (show (-1 : ℤ) ≠ 0 by decide)
  unfold produceImmediate
  split
  · exact (hupper rt).imp fun _ h => h.1
  · split
    · exact (hlower hs hroom.1 0).imp fun _ h => h.1
    · obtain ⟨t, hrun, hfill⟩ := hupper 1
      rw [run_bind_of_ok hrun]
      refine (hlower hfill.user ?_ 1).imp fun _ h => h.1
      rw [hfill.counter, hfill.textTop]
      exact hroom.2

lemma HasRoom.of_fill {t : Asm} (h : HasRoom s) (hfill : TextFill s t 0) : HasRoom t := by
  unfold HasRoom
  rw [hfill.counter, hfill.textTop]
  simpa [HasRoom] using h

/-- Where a full word is needed, its sequence is what runs. -/
lemma iTypeInst_fullWord (n : ℕ) (rt rs : Word) (hs : UserText s) (hneeds : s.needsFullWord env op e) :
    ∃ t v, TextFill s t 0 ∧ t.machine.labels = s.machine.labels ∧
      (iTypeInst env (n+1) op rt rs e).run s =
        (iTypeInstFullWord env (iTypeInst env n) op rt rs e v).run t := by
  obtain ⟨s₁, hnew, hlabels, hrun⟩ : ∃ s₁,
      Prepares s s₁ s.machine.nextInst (openInst op rt rs e) ∧
      s₁.machine.labels = s.machine.labels ∧
      (iTypeInst env (n+1) op rt rs e).run s = (if s₁.symbolDefined e then do
          let value ← evalImmExpr e
          if ¬ env.bareMachine ∧ immTooLarge op e value then
            iTypeInstFullWord env (iTypeInst env n) op rt rs e (some value)
          else storeExprInst env s.machine.nextInst e
        else if env.bareMachine ∨ e.bits ≠ 0 then storeExprInst env s.machine.nextInst e
        else iTypeInstFullWord env (iTypeInst env n) op rt rs e none).run s₁ :=
    ⟨_, prepares_new hs _, rfl, rfl⟩
  obtain ⟨hbare, hneeds⟩ := (needsFullWord_congr hlabels).mpr hneeds
  rw [hrun]
  by_cases hd : s₁.symbolDefined e = true
  · rw [if_pos hd] at hneeds ⊢
    obtain ⟨t, heval, hmachine⟩ := evalImmExpr_value hd
    obtain ⟨v, t', heval', hnoted, -⟩ := evalImmExpr_run hd
    have htt : t' = t := (EStateM.Result.ok.inj (heval'.symm.trans heval)).2
    rw [htt] at hnoted
    rw [run_bind_of_ok heval, if_pos ⟨by simp [hbare], hneeds⟩]
    exact ⟨t, _, (hnew.noted hnoted).stores.fill, by rw [hmachine, hlabels], rfl⟩
  · rw [if_neg hd] at hneeds ⊢
    rw [if_neg (by simp [hbare, hneeds])]
    exact ⟨s₁, none, hnew.stores.fill, hlabels, rfl⟩

/-- Without a sequence for the full word, the fatal error is reached. -/
lemma iTypeInst_fatal {n : ℕ} (hs : UserText s) (hroom : HasRoom s) (hop : op.hasFullWord = false)
    (hneeds : s.needsFullWord env op e) (hgp : gpOffset s e rs = none) :
    ∃ t, (iTypeInst env (n+2) op rt rs e).run s = .error .noImmediateOp t := by
  have hnone : op.isLoadStore = false ∧ op.isBranch = false ∧ immOpToOp op = none := by
    simpa [Opcode.hasFullWord] using hop
  obtain ⟨hload, hbr, hreg⟩ := hnone
  have hnot : ¬ ((op = .ori ∨ op = .addi ∨ op = .addiu ∨ op = .lui) ∧ rs = 0) := by
    rintro ⟨rfl | rfl | rfl | rfl, -⟩ <;> cases hreg
  obtain ⟨t, v, hfill, hlabels, hrun⟩ := iTypeInst_fullWord (n+1) rt rs hs hneeds
  rw [hrun, iTypeInstFullWord_compute hload hbr ((gpOffset_congr hlabels e rs).trans hgp)]
  obtain ⟨u, hu⟩ : ∃ u, (produceImmediate (iTypeInst env (n+1)) e 1 v).run t = .ok () u :=
    produceImmediate_ok hfill.user (hroom.of_fill hfill)
  rw [computeImm, if_neg hnot, run_bind_of_ok hu, hreg]
  exact ⟨u, rfl⟩

/-- An empty user text segment, with the labels of a state. -/
def Asm.emptyTextOf (s : Asm) : Asm :=
  { machine := { labels := s.machine.labels, textTop := 0x401000 }, nextTextPc := 0x400000 }

lemma userText_emptyText (s : Asm) : UserText s.emptyTextOf where
  dataDir := rfl
  textDir := rfl
  user := rfl
  inside := ⟨show (0x400000 : Word) ≤ 0x400000 by decide, show (0x400000 : Word) < 0x401000 by decide⟩
  aligned := show (0x400000 : Word) &&& 3 = 0 by decide
  room := show (0x401000 : Word) ≤ 0xfffffffc by decide

lemma hasRoom_emptyText (s : Asm) : HasRoom s.emptyTextOf :=
  ⟨show (0x400004 : Word) < 0x401000 by decide, show (0x400008 : Word) < 0x401000 by decide⟩

/-- A stuck operand reaches the fatal error in an empty text segment. -/
lemma fatal_of_stuck (hs : s.noSequence env op rs e) :
    ∃ t, (iTypeInst env 4 op rt rs e).run s.emptyTextOf = .error .noImmediateOp t := by
  have hlabels : s.emptyTextOf.machine.labels = s.machine.labels := rfl
  obtain ⟨hop, hneeds, hgp⟩ := (noSequence_congr hlabels).mpr hs
  obtain hoff | ⟨offset, hoff⟩ := Option.eq_none_or_eq_some (gpOffset s.emptyTextOf e rs)
  · exact iTypeInst_fatal (userText_emptyText s) (hasRoom_emptyText s) hop hneeds hoff
  · -- the offset from $gp does not fit either
    obtain ⟨t, v, hfill, hlabels, hrun⟩ :=
      iTypeInst_fullWord 3 rt rs (userText_emptyText s) hneeds
    have hlarge : t.needsFullWord env op (constImmExpr offset) := by
      refine ⟨hneeds.1, ?_⟩
      have hvalue : t.exprValue (constImmExpr offset) = offset := by
        simp [Asm.exprValue, constImmExpr, ImmExpr.part]
      rw [if_pos (symbolDefined_none rfl t), hvalue]
      exact hgp offset hoff
    have hlui : op ≠ .lui := by
      rintro rfl
      cases hop
    have hnone : op.isLoadStore = false ∧ op.isBranch = false ∧ immOpToOp op = none := by
      simpa [Opcode.hasFullWord] using hop
    rw [hrun, iTypeInstFullWord_offset hnone.1 hnone.2.1 ((gpOffset_congr hlabels e rs).trans hoff),
      if_neg hlui]
    exact iTypeInst_fatal hfill.user ((hasRoom_emptyText s).of_fill hfill) hop hlarge
      (gpOffset_none rfl t 28)

end

/-- In every state with these labels an operand is lowered, unless a full word is needed and there
is no sequence for it. -/
theorem lowers_iff (env : Env) (op : Opcode) (rt rs : Word) (e : ImmExpr) (s : Asm) :
    (∀ t, t.machine.labels = s.machine.labels → Lowers env op rt rs e t) ↔
      ¬ s.noSequence env op rs e := by
  constructor
  · intro h hs
    obtain ⟨t, ht⟩ := fatal_of_stuck hs
    exact (h s.emptyTextOf rfl).noFatal t ht
  · intro hs t ht
    exact lowers_of_not_stuck ((noSequence_congr ht).not.mpr hs)

/-- teqi $8, 0x8000 -/
theorem teqi_not_lowered : ¬ ∀ env op rt rs e s, Lowers env op rt rs e s := by
  intro h
  have hs : ({} : Asm).noSequence Env.quiet .teqi 8 (constImmExpr 0x8000) :=
    ⟨rfl, ⟨rfl, by decide⟩, fun offset h => by cases h⟩
  obtain ⟨t, ht⟩ : ∃ t, (iTypeInst Env.quiet 4 .teqi 0 8 (constImmExpr 0x8000)).run
      ({} : Asm).emptyTextOf = .error .noImmediateOp t := fatal_of_stuck hs
  exact (h _ _ _ _ _ _).noFatal t ht

end Spimulator
