import Spimulator.UserStart

/-! The instructions that emit_one makes of an instruction node whose immediates are constants or
branch targets, and that emitting the node stores them one after the other in user text. -/
namespace Spimulator
open Frame

/-! Code. -/

/-- The code of produce_immediate. -/
def produceCode (rt : Word) (v : Word) : List Inst :=
  if v &&& 0xffff = 0 then [makeITypeInst .lui (rt.setWidth 8) 0 (v.extractLsb' 16 16)]
  else if v &&& 0xffff0000 = 0 then [makeITypeInst .ori (rt.setWidth 8) 0 (v.setWidth 16)]
  else [makeITypeInst .lui 1 0 (v.extractLsb' 16 16),
    makeITypeInst .ori (rt.setWidth 8) 1 (v.setWidth 16)]

/-- The immediate field for a constant that fits. -/
def constField (op : Opcode) (v : Word) : Half :=
  if op.isBranch then ((signEx v).sshiftRight 2).setWidth 16 else v.setWidth 16

/-- The code of i_type_inst for a constant, for opcodes other than loads and stores. -/
def constCode (op : Opcode) (rt rs v : Word) : List Inst :=
  if immTooLarge op (constImmExpr v) v then
    if (op = .ori ∨ op = .addi ∨ op = .addiu ∨ op = .lui) ∧ rs = 0 then produceCode rt v
    else produceCode 1 v ++ ((immOpToOp op).map fun o =>
      makeRTypeInst o (rt.setWidth 8) (rs.setWidth 8) 1).toList
  else [makeITypeInst op (rt.setWidth 8) (rs.setWidth 8) (constField op v)]

/-- The code of a node. A branch to a label has a displacement that is found when the label is. -/
def InstNode.code (disp : Half) : InstNode → List Inst
  | .r op rd rs rt => [makeRTypeInst op (rd.setWidth 8) (rs.setWidth 8) (rt.setWidth 8)]
  | .rShift op rd rt shamt =>
    [makeRShTypeInst op (rd.setWidth 8) (rt.setWidth 8) (shamt.setWidth 8)]
  | .i op rt rs imm =>
    if imm.symbol = none then constCode op rt rs imm.offset
    else [makeITypeInst op (rt.setWidth 8) (rs.setWidth 8) disp]
  | .j op _ => [{ opcode := some op }]
  | .fpR op fd fs ft => [makeRCoTypeInst op (fd.setWidth 8) (fs.setWidth 8) (ft.setWidth 8)]
  | .fpCompare op fs ft cc => [makeRCondTypeInst op (fs.setWidth 8) (ft.setWidth 8) (cc.setWidth 8)]

/-- A branch to a label. -/
def InstNode.isLabelBranch : InstNode → Bool
  | .i op _ _ imm => op.isBranch ∧ imm.symbol.isSome
  | _ => false

/-- A constant that is no address: the operand of a computation or the offset of a branch. -/
def constOperand (op : Opcode) (imm : ImmExpr) : Bool :=
  ¬ op.isJump ∧ ¬ op.isLoadStore ∧ imm.pcRelative = false ∧ imm.bits = 0 ∧
    (op.isBranch → immTooLarge op imm imm.offset = false)

/-- The nodes of which `code` tells the instructions. -/
def InstNode.plain : InstNode → Bool
  | .r _ _ _ _ | .rShift _ _ _ _ | .fpR _ _ _ _ | .fpCompare _ _ _ _ => true
  | .i op _ _ imm => if imm.symbol = none then constOperand op imm else op.isBranch
  | _ => false

/-! Code in text. -/

/-- The address of an instruction in text. -/
def Asm.textSlot (s : Asm) (k : ℕ) : Word := s.nextTextPc + BitVec.ofNat 32 (4*k)

/-- Words of user text, from the location counter on, were filled with new records of these
instructions, up to their encodings, and nothing else in text changed. -/
structure Stores (code : List Inst) (s t : Asm) : Prop where
  fill : TextFill s t code.length
  grows : s.machine.nextInst ≤ t.machine.nextInst
  old : ∀ r < s.machine.nextInst, (t.machine.insts r).SameFields (s.machine.insts r)
  stored : ∀ k i, code[k]? = some i → ∃ r < t.machine.nextInst,
    t.machine.textSeg (Machine.textIndex (s.textSlot k)) = some r ∧
      (t.machine.insts r).SameFields i
  kept : ∀ j, (∀ k < code.length, j ≠ Machine.textIndex (s.textSlot k)) →
    t.machine.textSeg j = s.machine.textSeg j

lemma mem_wordsFrom {pc a : Word} {n : ℕ} :
    a ∈ wordsFrom pc n ↔ ∃ k < n, a = pc + BitVec.ofNat 32 (4*k) := by
  induction n generalizing pc with
  | zero => simp [wordsFrom]
  | succ n ih =>
    rw [wordsFrom, List.mem_cons, ih]
    constructor
    · rintro (rfl | ⟨k, hk, rfl⟩)
      · exact ⟨0, Nat.succ_pos n, by simp⟩
      · refine ⟨k+1, Nat.succ_lt_succ hk, ?_⟩
        rw [ofNat_four_mul_succ, ← BitVec.add_assoc]
        rfl
    · rintro ⟨k, hk, rfl⟩
      cases k with
      | zero => exact Or.inl (by simp)
      | succ k =>
        refine Or.inr ⟨k, Nat.lt_of_succ_lt_succ hk, ?_⟩
        rw [ofNat_four_mul_succ, ← BitVec.add_assoc]
        rfl

namespace TextFill

variable {s t : Asm} {n : ℕ}

lemma inText_slot (h : TextFill s t n) {k : ℕ} (hk : k < n) : s.machine.inText (s.textSlot k) :=
  (h.inside _ (mem_wordsFrom.mpr ⟨k, hk, rfl⟩)).1

/-- The filled words do not run over the end of the address space. -/
lemma toNat_slot (hs : UserText s) (h : TextFill s t n) {k : ℕ} (hk : k < n) :
    (s.textSlot k).toNat = s.nextTextPc.toNat + 4*k := by
  induction k with
  | zero => simp [Asm.textSlot]
  | succ k ih =>
    have hprev := ih (Nat.lt_of_succ_lt hk)
    have hin := (h.inText_slot (Nat.lt_of_succ_lt hk)).2
    have hroom := hs.room
    rw [BitVec.lt_def, hprev] at hin
    rw [BitVec.le_def] at hroom
    have htop := Nat.lt_of_lt_of_le hin hroom
    change _ < 4294967292 at htop
    have hslot : s.textSlot (k+1) = s.textSlot k + 4 := by
      rw [Asm.textSlot, Asm.textSlot, ofNat_four_mul_succ, BitVec.add_comm 4#32, ← BitVec.add_assoc]
      rfl
    rw [hslot, BitVec.toNat_add, hprev]
    change (s.nextTextPc.toNat + 4*k + 4) % 4294967296 = _
    omega

/-- Different words of text have different records. -/
lemma slot_index (hs : UserText s) (h : TextFill s t n) {k : ℕ} (hk : k < n) :
    Machine.textIndex (s.textSlot k) = Machine.textIndex s.nextTextPc + k := by
  have hbot := hs.inside.1
  have hbot' := (h.inText_slot hk).1
  rw [Machine.textIndex, Machine.textIndex, BitVec.toNat_sub_of_le hbot,
    BitVec.toNat_sub_of_le hbot', h.toNat_slot hs hk]
  rw [BitVec.le_def] at hbot
  omega

end TextFill

namespace Stores

variable {code code' : List Inst} {s t u : Asm}

/-- Nothing is stored; new records may be made. -/
lemma nil (hfill : TextFill s t 0) (hgrows : s.machine.nextInst ≤ t.machine.nextInst)
    (hold : ∀ r < s.machine.nextInst, (t.machine.insts r).SameFields (s.machine.insts r))
    (hkept : t.machine.textSeg = s.machine.textSeg) : Stores [] s t where
  fill := hfill
  grows := hgrows
  old := hold
  stored := by simp
  kept _ _ := congrFun hkept _

lemma refl (hs : UserText s) : Stores [] s s :=
  nil (.of_same hs rfl rfl rfl rfl rfl rfl rfl) (Nat.le_refl _) (fun _ _ => ⟨rfl, rfl, rfl, rfl, rfl⟩) rfl

lemma slot_next (h : Stores code s t) (k : ℕ) : t.textSlot k = s.textSlot (code.length + k) := by
  rw [Asm.textSlot, Asm.textSlot, h.fill.counter, BitVec.add_assoc, ← BitVec.ofNat_add,
    ← Nat.mul_add]

lemma trans (hs : UserText s) (h : Stores code s t) (h' : Stores code' t u) :
    Stores (code ++ code') s u := by
  have hfill : TextFill s u (code ++ code').length := by
    rw [List.length_append]
    exact h.fill.trans h'.fill
  have hindex {k : ℕ} (hk : k < (code ++ code').length) := hfill.slot_index hs hk
  refine ⟨hfill, Nat.le_trans h.grows h'.grows, fun r hr => ?_, fun k i hk => ?_, fun j hj => ?_⟩
  · exact (h'.old r (Nat.lt_of_lt_of_le hr h.grows)).trans (h.old r hr)
  · have hlt := (List.getElem?_eq_some_iff.mp hk).1
    by_cases hcode : k < code.length
    · rw [List.getElem?_append_left hcode] at hk
      obtain ⟨r, hr, hseg, hfields⟩ := h.stored k i hk
      refine ⟨r, Nat.lt_of_lt_of_le hr h'.grows, ?_, (h'.old r hr).trans hfields⟩
      rw [h'.kept _ fun k' hk' => ?_, hseg]
      rw [h.slot_next, hindex hlt, hindex (by rw [List.length_append]; omega)]
      omega
    · rw [List.getElem?_append_right (Nat.not_lt.mp hcode)] at hk
      obtain ⟨r, hr, hseg, hfields⟩ := h'.stored _ i hk
      refine ⟨r, hr, ?_, hfields⟩
      rw [← hseg, h.slot_next, Nat.add_sub_cancel' (Nat.not_lt.mp hcode)]
  · rw [h'.kept j fun k hk => ?_, h.kept j fun k hk => ?_]
    · exact hj k (by rw [List.length_append]; omega)
    · rw [h.slot_next]
      exact hj _ (by rw [List.length_append]; omega)

end Stores

/-! Storing. -/

lemma sameFields_rfl (i : Inst) : i.SameFields i := ⟨rfl, rfl, rfl, rfl, rfl⟩

/-- Setting the encoding of a record leaves the fields of all as they are. -/
lemma sameFields_setEncoding (s : Asm) (r q : InstRef) :
    ((s.setEncoding r).machine.insts q).SameFields (s.machine.insts q) := by
  rcases setEncoding_eq s r with h | h
  · rw [h]
    exact sameFields_rfl _
  · rw [h]
    change (Function.update s.machine.insts r _ q).SameFields _
    by_cases hq : q = r
    · subst hq
      rw [Function.update_self]
      exact ⟨rfl, rfl, rfl, rfl, rfl⟩
    · rw [Function.update_of_ne hq]
      exact sameFields_rfl _

lemma textSeg_setEncoding (s : Asm) (r : InstRef) :
    (s.setEncoding r).machine.textSeg = s.machine.textSeg := by
  rcases setEncoding_eq s r with h | h <;> rw [h] <;> rfl

lemma nextInst_setEncoding (s : Asm) (r : InstRef) :
    (s.setEncoding r).machine.nextInst = s.machine.nextInst := by
  rcases setEncoding_eq s r with h | h <;> rw [h] <;> rfl

section

variable {env : Env} {s t : Asm}

/-- store_instruction of a record. -/
lemma storeInstruction_stores {r : InstRef} {i : Inst} (hs : UserText s)
    (hr : r < s.machine.nextInst) (hi : (s.machine.insts r).SameFields i)
    (h : (storeInstruction env r).run s = .ok () t) : Stores [i] s t := by
  have hfill := storeInstruction_fill hs h
  change (if s.dataDir then _ else if s.textDir then storeInText env r else _ :
    Assemble Unit).run s = _ at h
  rw [if_neg (by simp [hs.dataDir]), if_pos hs.textDir] at h
  obtain ⟨-, ht⟩ := storeInText_run hs h
  have hfields (q : InstRef) : (t.machine.insts q).SameFields (s.machine.insts q) := by
    rw [ht]
    exact sameFields_setEncoding _ r q
  have hseg : t.machine.textSeg =
      Function.update s.machine.textSeg (Machine.textIndex s.nextTextPc) (some r) := by
    rw [ht]
    exact textSeg_setEncoding _ r
  have hnext : t.machine.nextInst = s.machine.nextInst := by
    rw [ht]
    exact nextInst_setEncoding _ r
  have hslot : s.textSlot 0 = s.nextTextPc := by simp [Asm.textSlot]
  refine ⟨hfill, Nat.le_of_eq hnext.symm, fun q _ => hfields q, fun k j hk => ?_, fun j hj => ?_⟩
  · cases k with
    | zero =>
      cases hk
      refine ⟨r, hnext ▸ hr, ?_, (hfields r).trans hi⟩
      rw [hseg, hslot, Function.update_self]
    | succ k => cases hk
  · rw [hseg, Function.update_of_ne]
    rw [← hslot]
    exact hj 0 Nat.zero_lt_one

/-- A new record. -/
lemma newInst_run (i : Inst) (s : Asm) : (newInst i).run s = .ok s.machine.nextInst
    (s.setMachine { s.machine with
      insts := Function.update s.machine.insts s.machine.nextInst i
      nextInst := s.machine.nextInst + 1 }) := rfl

/-- What comes before the storing of a new record concerns that record, labels and notes only. -/
structure Prepares (s t : Asm) (r : InstRef) (i : Inst) : Prop where
  stores : Stores [] s t
  fresh : s.machine.nextInst ≤ r
  new : r < t.machine.nextInst
  record : t.machine.insts r = i

namespace Prepares

variable {r : InstRef} {i : Inst}

lemma user (h : Prepares s t r i) : UserText t := h.stores.fill.user

lemma store {u : Asm} {j : Inst} (hs : UserText s) (h : Prepares s t r i) (hij : i.SameFields j)
    (hstore : (storeInstruction env r).run t = .ok () u) : Stores [j] s u := by
  refine h.stores.trans hs (storeInstruction_stores h.user h.new ?_ hstore)
  rw [h.record]
  exact hij

/-- The record is abandoned, and code is stored. -/
lemma abandon {code : List Inst} {u : Asm} (hs : UserText s) (h : Prepares s t r i)
    (hcode : Stores code t u) : Stores code s u :=
  h.stores.trans hs hcode

/-- The state may differ in labels and notes, and in the record. -/
lemma amend {u : Asm} {j : Inst} (h : Prepares s t r i) (hfill : TextFill t u 0)
    (hseg : u.machine.textSeg = t.machine.textSeg)
    (hnext : u.machine.nextInst = t.machine.nextInst)
    (hinsts : u.machine.insts = Function.update t.machine.insts r j) : Prepares s u r j where
  stores := by
    refine .nil (h.stores.fill.trans hfill) (hnext ▸ h.stores.grows) (fun q hq => ?_) ?_
    · rw [hinsts, Function.update_of_ne (Nat.ne_of_lt (Nat.lt_of_lt_of_le hq h.fresh))]
      exact h.stores.old q hq
    · funext j
      rw [hseg]
      exact h.stores.kept j (by simp)
  fresh := h.fresh
  new := hnext ▸ h.new
  record := by rw [hinsts, Function.update_self]

/-- The same, with the record as it was. -/
lemma keep {u : Asm} (h : Prepares s t r i) (hfill : TextFill t u 0)
    (hseg : u.machine.textSeg = t.machine.textSeg)
    (hnext : u.machine.nextInst = t.machine.nextInst)
    (hinsts : u.machine.insts = t.machine.insts) : Prepares s u r i := by
  refine h.amend hfill hseg hnext ?_
  rw [hinsts, ← h.record, Function.update_eq_self]

lemma setInst (h : Prepares s t r i) (j : Inst) : Prepares s (t.setInst r j) r j :=
  h.amend (.of_same h.user rfl rfl rfl rfl rfl rfl rfl) rfl rfl rfl

end Prepares

lemma prepares_new (hs : UserText s) (i : Inst) :
    Prepares s (s.setMachine { s.machine with
      insts := Function.update s.machine.insts s.machine.nextInst i
      nextInst := s.machine.nextInst + 1 }) s.machine.nextInst i where
  stores := by
    refine .nil (.of_same hs rfl rfl rfl rfl rfl rfl rfl) (Nat.le_succ _) (fun r hr => ?_) rfl
    change (Function.update s.machine.insts s.machine.nextInst i r).SameFields _
    rw [Function.update_of_ne (Nat.ne_of_lt hr)]
    exact sameFields_rfl _
  fresh := Nat.le_refl _
  new := Nat.lt_succ_self _
  record := by simp only [Asm.setMachine, Function.update_self]

lemma storeNew_stores {i : Inst} (hs : UserText s) (h : (storeNew env i).run s = .ok () t) :
    Stores [i] s t := by
  obtain ⟨r, s₁, h₁, h⟩ := ok_of_bind h
  cases h₁
  exact (prepares_new hs i).store hs (sameFields_rfl i) h

/-! Immediate instructions. -/

/-- The record that an immediate instruction starts as. -/
def openInst (op : Opcode) (rt rs : Word) (e : ImmExpr) : Inst :=
  { opcode := some op, rs := rs.setWidth 8, rt := rt.setWidth 8, expr := some e }

/-- The record with its immediate filled in. -/
def filledInst (i : Inst) (e : ImmExpr) (v : Half) : Inst :=
  let i := { i with expr := some e }.setImm v
  { i with encoding := instEncode i }

lemma filledInst_fields (op : Opcode) (rt rs : Word) (e e' : ImmExpr) (v : Half) :
    (filledInst (openInst op rt rs e) e' v).SameFields
      (makeITypeInst op (rt.setWidth 8) (rs.setWidth 8) v) :=
  ⟨rfl, rfl, rfl, rfl, rfl⟩

/-- The value for the field of an instruction, from the evaluated part of an expression. -/
def fieldOf (op : Opcode) (v : Word) : Word :=
  if op.isBranch then ((signEx v).sshiftRight 2) &&& 0xffff else v

/-- Evaluating an expression notes the use of its symbol at most. -/
def Noted (s t : Asm) : Prop := t = s ∨ ∃ l a, t = s.log (.used l a)

lemma evalImmExpr_const {e : ImmExpr} (he : e.symbol = none) (s : Asm) :
    (evalImmExpr e).run s = .ok (e.part e.offset) s := by
  simp only [evalImmExpr, symbolValue, he]
  rfl

/-- A defined symbol's address is added to the offset, and its use noted. -/
lemma symbolValue_run {e : ImmExpr} {l : LabelRef} (he : e.symbol = some l)
    (hdef : (s.label l).isDefined = true) :
    (symbolValue e).run s = .ok (e.offset + (s.label l).addr)
      (s.log (.used l (s.label l).addr)) := by
  simp only [symbolValue, he]
  change (if (s.label l).isDefined then (do
    logEvent (.used l (s.label l).addr)
    pure (e.offset + (s.label l).addr) : Assemble Word) else _).run s = _
  rw [if_pos hdef]
  rfl

/-- An expression whose symbol, if any, is known has a value. -/
lemma evalImmExpr_run {e : ImmExpr} (h : s.symbolDefined e = true) :
    ∃ v s', (evalImmExpr e).run s = .ok (e.part v) s' ∧ Noted s s' ∧
      (e.symbol = none → v = e.offset) := by
  cases he : e.symbol with
  | none => exact ⟨_, s, evalImmExpr_const he s, Or.inl rfl, fun _ => rfl⟩
  | some l =>
    have hdef : (s.label l).isDefined = true := by
      simpa only [Asm.symbolDefined, he] using h
    exact ⟨e.offset + (s.label l).addr, s.log (.used l (s.label l).addr),
      run_bind_of_ok (symbolValue_run he hdef), Or.inr ⟨_, _, rfl⟩, fun h => by cases h⟩

/-- The opcodes whose immediate is the operand of a computation or the offset of a branch. -/
def Opcode.isComputation (op : Opcode) : Prop := op.isJump = false ∧ op.isLoadStore = false

lemma fieldValue_run {op : Opcode} {e : ImmExpr} (hop : op.isComputation)
    (hb : op.isBranch = true → env.delayedBranches = false) (h : s.symbolDefined e = true) (pc : Word) :
    ∃ v s', (fieldValue env op e pc).run s = .ok (fieldOf op (e.part v), 0xffff) s' ∧ Noted s s' ∧
      (e.symbol = none → v = e.offset) := by
  obtain ⟨v, s', hrun, hnoted, hv⟩ := evalImmExpr_run h
  refine ⟨v, s', ?_, hnoted, hv⟩
  rw [fieldValue, run_bind_of_ok hrun, fieldOf]
  cases hbr : op.isBranch with
  | false => simp only [hop.1, hop.2, Bool.false_eq_true, if_false]; rfl
  | true => simp only [hb hbr, Bool.false_eq_true, if_false, if_true]; rfl

/-- The field is wide enough for a value. -/
def fitsField (v : Word) : Prop := v &&& ~~~0xffff = 0 ∨ v &&& ~~~0xffff = 0xffff0000

lemma resolveInst_run {op : Opcode} {e : ImmExpr} {r : InstRef} {pc v : Word} {s' : Asm}
    (hop : op.isJump = false) (h : (fieldValue env op e pc).run s = .ok (v, 0xffff) s')
    (hfits : fitsField v) :
    (resolveInst env r op e pc).run s = .ok () (s'.setInst r
      { (s'.machine.insts r).setImm (v.setWidth 16) with
        encoding := instEncode ((s'.machine.insts r).setImm (v.setWidth 16)) }) := by
  have hsmall : ¬ (v &&& ~~~0xffff ≠ 0 ∧ v &&& ~~~0xffff ≠ 0xffff0000) := by
    rcases hfits with hz | hs
    · exact fun hne => hne.1 hz
    · exact fun hne => hne.2 hs
  rw [resolveInst, run_bind_of_ok h]
  change (do
    onlyIf (v &&& ~~~0xffff ≠ 0 ∧ v &&& ~~~0xffff ≠ 0xffff0000) _
    modify _ : Assemble Unit).run s' = _
  rw [onlyIf_neg hsmall]
  simp only [hop, Bool.false_eq_true, if_false]
  rfl

lemma Prepares.noted {r : InstRef} {i : Inst} {u : Asm} (h : Prepares s t r i) (hu : Noted t u) :
    Prepares s u r i := by
  rcases hu with rfl | ⟨l, a, rfl⟩
  · exact h
  · exact h.keep (.of_same h.user rfl rfl rfl rfl rfl rfl rfl) rfl rfl rfl

/-- The expression of an instruction is relative to where the instruction is. -/
def ImmExpr.relocated (e : ImmExpr) (pc : Word) : ImmExpr :=
  if e.pcRelative then { e with offset := 0 - pc } else e

lemma setInst_setInst (s : Asm) (r : InstRef) (i j : Inst) :
    (s.setInst r i).setInst r j = s.setInst r j := by
  simp only [Asm.setInst, Asm.setMachine, Function.update_idem]

lemma insts_setInst (s : Asm) (r : InstRef) (i : Inst) : (s.setInst r i).machine.insts r = i := by
  simp only [Asm.setInst, Asm.setMachine, Function.update_self]

/-- What is noted after a record was set is noted before it. -/
lemma Noted.of_setInst {s t : Asm} {r : InstRef} {i : Inst} (h : Noted (s.setInst r i) t) :
    ∃ s', Noted s s' ∧ t = s'.setInst r i := by
  rcases h with rfl | ⟨l, a, rfl⟩
  · exact ⟨s, Or.inl rfl, rfl⟩
  · exact ⟨s.log (.used l a), Or.inr ⟨l, a, rfl⟩, rfl⟩

lemma resolveALabelSub_defined {env : Env} {s : Asm} {sym : LabelRef} {r : InstRef} {op : Opcode}
    {e : ImmExpr} {pc : Word} (ho : (s.machine.insts r).opcode = some op)
    (he : (s.machine.insts r).expr = some e)
    (hdef : s.symbolDefined (e.relocated pc) = true) :
    (resolveALabelSub env sym (some r) pc).run s = (resolveInst env r op (e.relocated pc) pc).run
      (s.setInst r { s.machine.insts r with expr := some (e.relocated pc) }) := by
  rw [resolveALabelSub, EStateM.run_bind, EStateM.run_get]
  dsimp only
  split
  next op' e' ho' he' =>
    cases ho.symm.trans ho'
    cases he.symm.trans he'
    change (if s.symbolDefined (e.relocated pc) then resolveInst env r op (e.relocated pc) pc
      else _ : Assemble Unit).run
        (s.setInst r { s.machine.insts r with expr := some (e.relocated pc) }) = _
    rw [if_pos hdef]
  next h => exact absurd he (h op e ho)

/-- Filling in the record of an instruction that waits for nothing. -/
lemma resolveALabelSub_run {op : Opcode} {e : ImmExpr} {r : InstRef} {sym : LabelRef} {pc : Word}
    (hop : op.isComputation) (hb : op.isBranch = true → env.delayedBranches = false)
    (ho : (s.machine.insts r).opcode = some op) (he : (s.machine.insts r).expr = some e)
    (hdef : s.symbolDefined (e.relocated pc) = true)
    (hfits : ∀ v, (e.symbol = none → v = (e.relocated pc).offset) →
      fitsField (fieldOf op ((e.relocated pc).part v))) :
    ∃ v s', (resolveALabelSub env sym (some r) pc).run s = .ok () (s'.setInst r
        (filledInst (s.machine.insts r) (e.relocated pc)
          ((fieldOf op ((e.relocated pc).part v)).setWidth 16))) ∧
      Noted s s' ∧ (e.symbol = none → v = (e.relocated pc).offset) := by
  have hsym : (e.relocated pc).symbol = e.symbol := by
    unfold ImmExpr.relocated
    split <;> rfl
  obtain ⟨v, t, hvalue, hnoted, hv⟩ := fieldValue_run hop hb
    (s := s.setInst r { s.machine.insts r with expr := some (e.relocated pc) }) hdef pc
  rw [hsym] at hv
  have hrun := resolveInst_run hop.1 hvalue (hfits v hv) (r := r)
  obtain ⟨s', hs', rfl⟩ := hnoted.of_setInst
  rw [insts_setInst, setInst_setInst] at hrun
  refine ⟨v, s', ?_, hs', hv⟩
  rw [resolveALabelSub_defined ho he hdef]
  exact hrun

lemma openInst_fields (op : Opcode) (rt rs : Word) (e : ImmExpr) :
    (openInst op rt rs e).SameFields (makeITypeInst op (rt.setWidth 8) (rs.setWidth 8) 0) :=
  ⟨rfl, rfl, rfl, rfl, rfl⟩

/-- The value of a constant does not depend on where it is. -/
lemma part_relocated {e : ImmExpr} (h : e.pcRelative = false) (pc : Word) :
    e.relocated pc = e := by
  rw [ImmExpr.relocated, if_neg (by simp [h])]

lemma resolveALabel_run (sym : Option LabelRef) (r : InstRef) (s : Asm) :
    (resolveALabel env sym r).run s = (resolveALabelSub env (sym.getD 0) (some r)
      (if s.dataDir then s.currentDataPc else s.currentTextPc)).run s := rfl

/-- Where an expression is known, the field is filled in before the instruction is stored. -/
lemma resolve_stores {op : Opcode} {rt rs : Word} {e : ImmExpr} {r : InstRef}
    {sym : Option LabelRef} {t u : Asm} (hs : UserText s) (h : Prepares s t r (openInst op rt rs e))
    (hop : op.isComputation) (hb : env.delayedBranches = false) (hdef : t.symbolDefined e = true)
    (hfits : ∀ pc v, (e.symbol = none → v = (e.relocated pc).offset) →
      fitsField (fieldOf op ((e.relocated pc).part v)))
    (hrun : (do
      resolveALabel env sym r
      storeInstruction env r).run t = .ok () u) :
    ∃ f : Half, Stores [makeITypeInst op (rt.setWidth 8) (rs.setWidth 8) f] s u ∧
      (e.symbol = none → e.pcRelative = false →
        f = (fieldOf op (e.part e.offset)).setWidth 16) := by
  rw [EStateM.run_bind, resolveALabel_run, ← EStateM.run_bind] at hrun
  generalize (if t.dataDir then t.currentDataPc else t.currentTextPc) = pc at hrun
  have hsym : (e.relocated pc).symbol = e.symbol := by
    unfold ImmExpr.relocated
    split <;> rfl
  have hdef' : t.symbolDefined (e.relocated pc) = true := by
    unfold Asm.symbolDefined at hdef ⊢
    rw [hsym]
    exact hdef
  obtain ⟨v, t', hsub, hnoted, hv⟩ := resolveALabelSub_run hop
    (fun _ => hb) (congrArg Inst.opcode h.record) (congrArg Inst.expr h.record) hdef' (hfits pc)
  rw [run_bind_of_ok hsub] at hrun
  rw [h.record] at hrun
  have hfilled := (h.noted hnoted).setInst (filledInst (openInst op rt rs e) (e.relocated pc)
    ((fieldOf op ((e.relocated pc).part v)).setWidth 16))
  refine ⟨_, hfilled.store hs (filledInst_fields op rt rs e _ _) hrun, fun hnone hpc => ?_⟩
  rw [hv hnone, part_relocated hpc]

/-- An instruction with an expression is stored as one instruction. -/
lemma storeExprInst_stores {op : Opcode} {rt rs : Word} {e : ImmExpr} {r : InstRef} {t u : Asm}
    (hs : UserText s) (h : Prepares s t r (openInst op rt rs e)) (hop : op.isComputation)
    (hb : env.delayedBranches = false)
    (hfits : ∀ pc v, (e.symbol = none → v = (e.relocated pc).offset) →
      fitsField (fieldOf op ((e.relocated pc).part v)))
    (hrun : (storeExprInst env r e).run t = .ok () u) :
    ∃ f : Half, Stores [makeITypeInst op (rt.setWidth 8) (rs.setWidth 8) f] s u ∧
      (e.symbol = none → e.pcRelative = false →
        f = (fieldOf op (e.part e.offset)).setWidth 16) := by
  obtain he | ⟨l, he⟩ := Option.eq_none_or_eq_some e.symbol
  · rw [storeExprInst_none he] at hrun
    have hdef : t.symbolDefined e = true := by simp only [Asm.symbolDefined, he]
    exact resolve_stores hs h hop hb hdef hfits hrun
  · cases hd : (t.label l).isDefined with
    | true =>
      rw [storeExprInst_defined he hd] at hrun
      have hdef : t.symbolDefined e = true := by simpa only [Asm.symbolDefined, he] using hd
      exact resolve_stores hs h hop hb hdef hfits hrun
    | false =>
      rw [storeExprInst_undefined he hd] at hrun
      have huse : (recordInstUsesSymbol r l).run t = .ok () (t.setLabel l { t.label l with
          uses := { instruction := some r, addr := t.currentTextPc } :: (t.label l).uses }) := by
        change (if t.dataDir then _ else addUse l _ : Assemble Unit).run t = _
        rw [if_neg (by simp [h.user.dataDir])]
        rfl
      rw [run_bind_of_ok huse] at hrun
      have hused := h.keep (u := t.setLabel l { t.label l with
          uses := { instruction := some r, addr := t.currentTextPc } :: (t.label l).uses })
        (.of_same h.user rfl rfl rfl rfl rfl rfl rfl) rfl rfl rfl
      refine ⟨0, hused.store hs (openInst_fields op rt rs e) hrun, fun hnone => ?_⟩
      rw [he] at hnone
      cases hnone

/-! The longer sequences. -/

lemma fitsField_of_low {v : Word} (h : v &&& 0xffff0000 = 0) : fitsField v := Or.inl h

/-- A value that is not too large fits. -/
lemma fitsField_of_small {op : Opcode} {e : ImmExpr} {v : Word}
    (h : immTooLarge op e v = false) : fitsField v := by
  have hcut : v &&& 0xffff0000 = (v &&& 0xffff8000) &&& 0xffff0000 := by
    rw [BitVec.and_assoc]
    rfl
  unfold immTooLarge at h
  split at h
  · rw [decide_eq_false_iff_not, not_and_or, not_not, not_not] at h
    rcases h with h | h
    · exact Or.inl (hcut.trans (by rw [h]; rfl))
    · exact Or.inr (hcut.trans (by rw [h]; rfl))
  · exact fitsField_of_low (by simpa using h)

/-- The offset of a branch is cut to its field. -/
lemma fitsField_branch {op : Opcode} (hop : op.isBranch = true) (v : Word) :
    fitsField (fieldOf op v) := by
  rw [fieldOf, if_pos hop]
  refine fitsField_of_low ?_
  rw [BitVec.and_assoc]
  exact BitVec.and_zero

/-- Either half of a value fits. -/
lemma part_low (e : ImmExpr) (v : Word) (h : e.bits ≠ 0) : e.part v &&& 0xffff0000 = 0 := by
  unfold ImmExpr.part
  rcases Int.lt_trichotomy e.bits 0 with hb | hb | hb
  · rw [if_neg (by omega), if_pos hb, BitVec.and_assoc]
    exact BitVec.and_zero
  · exact absurd hb h
  · rw [if_pos hb, BitVec.and_assoc]
    exact BitVec.and_zero

/-- i_type_inst, once its record is made. -/
lemma iTypeInst_run (n : ℕ) (op : Opcode) (rt rs : Word) (e : ImmExpr) (hs : UserText s) :
    ∃ s₁ r, Prepares s s₁ r (openInst op rt rs e) ∧ (∀ e, s₁.symbolDefined e = s.symbolDefined e) ∧
      (iTypeInst env (n+1) op rt rs e).run s = (if s.symbolDefined e then do
          let value ← evalImmExpr e
          if ¬ env.bareMachine ∧ immTooLarge op e value then
            iTypeInstFullWord env (iTypeInst env n) op rt rs e (some value)
          else storeExprInst env r e
        else if env.bareMachine ∨ e.bits ≠ 0 then storeExprInst env r e
        else iTypeInstFullWord env (iTypeInst env n) op rt rs e none).run s₁ :=
  ⟨_, _, prepares_new hs (openInst op rt rs e), fun _ => rfl, rfl⟩

lemma symbolDefined_none {e : ImmExpr} (h : e.symbol = none) (s : Asm) :
    s.symbolDefined e = true := by
  simp only [Asm.symbolDefined, h]

/-- A constant that fits is the immediate of one instruction. -/
lemma iTypeInst_fits {n : ℕ} {op : Opcode} {rt rs : Word} {e : ImmExpr} (hs : UserText s)
    (hop : op.isComputation) (hb : env.delayedBranches = false) (hsym : e.symbol = none)
    (hpc : e.pcRelative = false) (hsmall : immTooLarge op e (e.part e.offset) = false)
    (hrun : (iTypeInst env (n+1) op rt rs e).run s = .ok () t) :
    Stores [makeITypeInst op (rt.setWidth 8) (rs.setWidth 8)
      ((fieldOf op (e.part e.offset)).setWidth 16)] s t := by
  obtain ⟨s₁, r, h, -, hr⟩ := iTypeInst_run n op rt rs e hs
  rw [hr, if_pos (symbolDefined_none hsym s), run_bind_of_ok (evalImmExpr_const hsym s₁),
    if_neg (by simp [hsmall])] at hrun
  have hfits (pc v : Word) (hv : e.symbol = none → v = (e.relocated pc).offset) :
      fitsField (fieldOf op ((e.relocated pc).part v)) := by
    rw [hv hsym, part_relocated hpc]
    cases hbr : op.isBranch with
    | true => exact fitsField_branch hbr _
    | false =>
      rw [fieldOf, if_neg (by simp [hbr])]
      exact fitsField_of_small hsmall
  obtain ⟨f, hstores, hf⟩ := storeExprInst_stores hs h hop hb hfits hrun
  rw [← hf hsym hpc]
  exact hstores

/-- lui and ori of one half of a constant. -/
lemma iTypeInst_half {n : ℕ} {op : Opcode} {rt rs : Word} {e : ImmExpr} (hs : UserText s)
    (hop : op = .lui ∨ op = .ori) (hb : env.delayedBranches = false) (hsym : e.symbol = none)
    (hpc : e.pcRelative = false) (hbits : e.bits ≠ 0)
    (hrun : (iTypeInst env (n+1) op rt rs e).run s = .ok () t) :
    Stores [makeITypeInst op (rt.setWidth 8) (rs.setWidth 8) ((e.part e.offset).setWidth 16)]
      s t := by
  have hlow := part_low e e.offset hbits
  have hsmall : immTooLarge op e (e.part e.offset) = false := by
    rcases hop with rfl | rfl
    · simpa [immTooLarge, signExtendsImm, Opcode.isLoadStore] using hlow
    · simpa [immTooLarge, signExtendsImm, Opcode.isLoadStore] using hlow
  have hcomp : op.isComputation := by rcases hop with rfl | rfl <;> exact ⟨rfl, rfl⟩
  have hstores := iTypeInst_fits hs hcomp hb hsym hpc hsmall hrun
  have hbr : op.isBranch = false := by rcases hop with rfl | rfl <;> rfl
  rw [fieldOf, if_neg (by simp [hbr])] at hstores
  exact hstores

lemma lower_field (v : Word) : ((v &&& 0xffff).setWidth 16 : Half) = v.setWidth 16 := by
  rw [BitVec.setWidth_and]
  exact BitVec.and_allOnes

lemma upper_field (v : Word) :
    (((v >>> 16) &&& 0xffff).setWidth 16 : Half) = v.extractLsb' 16 16 := by
  rw [lower_field]
  exact BitVec.setWidth_ushiftRight_eq_extractLsb

/-- produce_immediate of a constant. -/
lemma produceImmediate_stores {n : ℕ} {rt v : Word} (hs : UserText s)
    (hb : env.delayedBranches = false)
    (hrun : (produceImmediate (iTypeInst env (n+1)) (constImmExpr v) rt (some v)).run s = .ok () t) :
    Stores (produceCode rt v) s t := by
  have hupper {rt : Word} {s t : Asm} (hs : UserText s)
      (h : (iTypeInst env (n+1) .lui rt 0 (upperBitsOfExpr (constImmExpr v))).run s = .ok () t) :
      Stores [makeITypeInst .lui (rt.setWidth 8) 0 (v.extractLsb' 16 16)] s t := by
    have hhalf := iTypeInst_half hs (Or.inl rfl) hb rfl rfl (show (1 : ℤ) ≠ 0 by decide) h
    rw [← upper_field]
    exact hhalf
  have hlower {rs : Word} {s t : Asm} (hs : UserText s)
      (h : (iTypeInst env (n+1) .ori rt rs (lowerBitsOfExpr (constImmExpr v))).run s = .ok () t) :
      Stores [makeITypeInst .ori (rt.setWidth 8) (rs.setWidth 8) (v.setWidth 16)] s t := by
    have hhalf := iTypeInst_half hs (Or.inr rfl) hb rfl rfl (show (-1 : ℤ) ≠ 0 by decide) h
    rw [← lower_field]
    exact hhalf
  simp only [produceImmediate, Option.any_some, decide_eq_true_eq] at hrun
  unfold produceCode
  split at hrun
  · rename_i hlow
    rw [if_pos hlow]
    exact hupper hs hrun
  · rename_i hlow
    rw [if_neg hlow]
    split at hrun
    · rename_i hhigh
      rw [if_pos hhigh]
      exact hlower hs hrun
    · rename_i hhigh
      rw [if_neg hhigh]
      obtain ⟨_, s₁, h₁, hrun⟩ := ok_of_bind hrun
      have hfirst := hupper hs h₁
      exact hfirst.trans hs (hlower hfirst.fill.user hrun)

/-- A constant has no place relative to $gp. -/
lemma gpOffset_none {e : ImmExpr} (h : e.symbol = none) (s : Asm) (rs : Word) :
    gpOffset s e rs = none := by
  simp only [gpOffset, h]
  rfl

section

variable (emitI : Opcode → Word → Word → ImmExpr → Assemble Unit) {op : Opcode} {rt rs : Word}
  {e : ImmExpr} {v : Option Word}

lemma fullWord_branch (hl : op.isLoadStore = false) (hb : op.isBranch = true) :
    (iTypeInstFullWord env emitI op rt rs e v).run s =
      (emitI op rt rs (lowerBitsOfExpr e)).run s := by
  change (if op.isLoadStore then _ else if op.isBranch then
    emitI op rt rs (lowerBitsOfExpr e) else _ : Assemble Unit).run s = _
  rw [if_neg (by simp [hl]), if_pos hb]

lemma fullWord_compute (hl : op.isLoadStore = false) (hb : ¬ op.isBranch = true)
    (he : e.symbol = none) : (iTypeInstFullWord env emitI op rt rs e v).run s =
      (computeImm env emitI op rt rs e v).run s := by
  exact iTypeInstFullWord_compute hl ((Bool.not_eq_true _).mp hb) (gpOffset_none he s rs)

end

lemma part_const (v : Word) : (constImmExpr v).part (constImmExpr v).offset = v := by
  simp [constImmExpr, ImmExpr.part]

/-- i_type_inst of a constant. -/
lemma iTypeInst_const {n : ℕ} {op : Opcode} {rt rs v : Word} (hs : UserText s)
    (hop : op.isComputation) (hb : env.delayedBranches = false) (hbare : env.bareMachine = false)
    (hbr : op.isBranch → immTooLarge op (constImmExpr v) v = false)
    (hrun : (iTypeInst env (n+2) op rt rs (constImmExpr v)).run s = .ok () t) :
    Stores (constCode op rt rs v) s t := by
  unfold constCode
  cases hlarge : immTooLarge op (constImmExpr v) v with
  | false =>
    have hfield : (fieldOf op v).setWidth 16 = constField op v := by
      unfold fieldOf constField
      split
      · exact lower_field _
      · rfl
    have hstores := iTypeInst_fits (e := constImmExpr v) hs hop hb rfl rfl
      (by rw [part_const]; exact hlarge) hrun
    rw [part_const, hfield] at hstores
    rw [if_neg (by simp)]
    exact hstores
  | true =>
    have hnot : ¬ op.isBranch = true := fun h => by
      rw [hbr h] at hlarge
      cases hlarge
    obtain ⟨s₁, r, h, -, hr⟩ := iTypeInst_run (n+1) op rt rs (constImmExpr v) hs
    rw [hr, if_pos (symbolDefined_none rfl s), run_bind_of_ok (evalImmExpr_const rfl s₁)] at hrun
    rw [part_const, if_pos (by simp [hbare, hlarge]), fullWord_compute _ hop.2 hnot rfl,
      computeImm] at hrun
    rw [if_pos rfl]
    refine h.abandon hs ?_
    split at hrun
    · rename_i hload
      rw [if_pos hload]
      exact produceImmediate_stores h.user hb hrun
    · rename_i hload
      rw [if_neg hload]
      obtain ⟨_, s₂, h₂, hrun⟩ := ok_of_bind hrun
      have hfirst := produceImmediate_stores h.user hb h₂
      refine hfirst.trans h.user ?_
      cases hreg : immOpToOp op with
      | none =>
        rw [hreg] at hrun
        cases hrun
      | some o =>
        rw [hreg] at hrun
        exact storeNew_stores hfirst.fill.user hrun

/-- A branch to a label is one instruction, if it goes through the longer sequence or not. -/
lemma iTypeInst_label {n : ℕ} {op : Opcode} {rt rs : Word} {e : ImmExpr} (hs : UserText s)
    (hop : op.isBranch = true) (hb : env.delayedBranches = false)
    (hrun : (iTypeInst env (n+2) op rt rs e).run s = .ok () t) :
    ∃ disp, Stores [makeITypeInst op (rt.setWidth 8) (rs.setWidth 8) disp] s t := by
  have hcomp : op.isComputation := by
    unfold Opcode.isBranch at hop
    split at hop
    all_goals first | exact ⟨rfl, rfl⟩ | cases hop
  have hstore {e : ImmExpr} {r : InstRef} {s s₁ t : Asm} (hs : UserText s)
      (h : Prepares s s₁ r (openInst op rt rs e)) (hrun : (storeExprInst env r e).run s₁ = .ok () t) :
      ∃ disp, Stores [makeITypeInst op (rt.setWidth 8) (rs.setWidth 8) disp] s t := by
    obtain ⟨f, hstores, -⟩ :=
      storeExprInst_stores hs h hcomp hb (fun _ _ _ => fitsField_branch hop _) hrun
    exact ⟨f, hstores⟩
  have hfull {e : ImmExpr} {v : Option Word} {s t : Asm} (hs : UserText s)
      (hrun : (iTypeInstFullWord env (iTypeInst env (n+1)) op rt rs e v).run s = .ok () t) :
      ∃ disp, Stores [makeITypeInst op (rt.setWidth 8) (rs.setWidth 8) disp] s t := by
    rw [fullWord_branch _ hcomp.2 hop] at hrun
    obtain ⟨s₁, r, h, hdef, hr⟩ := iTypeInst_run n op rt rs (lowerBitsOfExpr e) hs
    rw [hr] at hrun
    have hbits : (lowerBitsOfExpr e).bits ≠ 0 := show (-1 : ℤ) ≠ 0 by decide
    split at hrun
    · rename_i hd
      rw [← hdef] at hd
      obtain ⟨v, s₂, heval, hnoted, -⟩ := evalImmExpr_run hd
      have hnosign : signExtendsImm op = false := by
        unfold Opcode.isBranch at hop
        split at hop
        all_goals first | rfl | cases hop
      have hsmall : immTooLarge op (lowerBitsOfExpr e) ((lowerBitsOfExpr e).part v) = false := by
        simpa [immTooLarge, hnosign, hcomp.2] using part_low _ v hbits
      rw [run_bind_of_ok heval, if_neg (by simp [hsmall])] at hrun
      exact hstore hs (h.noted hnoted) hrun
    · rw [if_pos (Or.inr hbits)] at hrun
      exact hstore hs h hrun
  obtain ⟨s₁, r, h, hdef, hr⟩ := iTypeInst_run (n+1) op rt rs e hs
  rw [hr] at hrun
  split at hrun
  · rename_i hd
    rw [← hdef] at hd
    obtain ⟨v, s₂, heval, hnoted, -⟩ := evalImmExpr_run hd
    rw [run_bind_of_ok heval] at hrun
    split at hrun
    · have hp := h.noted hnoted
      obtain ⟨disp, hstores⟩ := hfull hp.user hrun
      exact ⟨disp, hp.abandon hs hstores⟩
    · exact hstore hs (h.noted hnoted) hrun
  · split at hrun
    · exact hstore hs h hrun
    · obtain ⟨disp, hstores⟩ := hfull h.user hrun
      exact ⟨disp, h.abandon hs hstores⟩

/-- Emitting a node stores its code. -/
theorem emitInst_stores {n : InstNode} (hs : UserText s) (hn : n.plain = true)
    (hb : env.delayedBranches = false) (hbare : env.bareMachine = false)
    (hrun : (emitInst env n).run s = .ok () t) : ∃ disp, Stores (n.code disp) s t := by
  cases n with
  | r op rd rs rt => exact ⟨0, storeNew_stores hs hrun⟩
  | rShift op rd rt shamt => exact ⟨0, storeNew_stores hs hrun⟩
  | fpR op fd fs ft => exact ⟨0, storeNew_stores hs hrun⟩
  | fpCompare op fs ft cc => exact ⟨0, storeNew_stores hs hrun⟩
  | j op target => cases hn
  | i op rt rs imm =>
    simp only [InstNode.plain] at hn
    split at hn
    · rename_i hsym
      simp only [constOperand, decide_eq_true_eq] at hn
      obtain ⟨hjump, hload, hpc, hbits, hbr⟩ := hn
      have himm : imm = constImmExpr imm.offset := by
        obtain ⟨offset, symbol, bits, pcRelative⟩ := imm
        cases hsym
        cases hpc
        cases hbits
        rfl
      rw [himm] at hbr hrun
      refine ⟨0, ?_⟩
      rw [InstNode.code, if_pos hsym]
      exact iTypeInst_const hs ⟨by simpa using hjump, by simpa using hload⟩ hb hbare hbr hrun
    · rename_i hsym
      obtain ⟨disp, hstores⟩ := iTypeInst_label hs hn hb hrun
      refine ⟨disp, ?_⟩
      rw [InstNode.code, if_neg hsym]
      exact hstores

end
end Spimulator
