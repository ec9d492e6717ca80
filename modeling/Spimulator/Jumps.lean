import Spimulator.Likely
import Spimulator.NodeCode
import Spimulator.RoundTrip
import Spimulator.Symbols

/-! Jumps to labels, with delayed branches off. -/
namespace Spimulator
open Frame

/-- The target field of a jump to an address. -/
def jumpField (a : Word) : Word := (a &&& 0x0fffffff) >>> 2

/-- The 256 MB region of an address. -/
def regionOf (a : Word) : Word := a &&& 0xf0000000

/-- The expression of a jump to a label. -/
def jumpExpr (l : LabelRef) : ImmExpr :=
  { offset := 0, symbol := some l, bits := 0, pcRelative := false }

/-- A jump as j_type_inst makes it; nothing is said of its target field. -/
structure Inst.JumpsTo (i : Inst) (op : Opcode) (l : LabelRef) : Prop where
  opcode : i.opcode = some op
  expr : i.expr = some (jumpExpr l)

/-- Executed at `pc`, the jump makes `a` the next PC, and jal saves the address after it. -/
def Lands (env : Env) (op : Opcode) (i : Inst) (pc a : Word) : Prop :=
  ∀ m : Machine, m.pc = pc → InstRuns env i m
    ((if op = .jal then m.prepared.setGpr 31 (pc + 4) else m.prepared).goto a)

/-! Execution. -/

section

variable {env : Env} {op : Opcode} {i j : Inst} {pc a : Word}

lemma InstRuns.jump (hb : env.delayedBranches = false) {m : Machine} {g : Regs} {t : Word}
    (h : dispatch env i m.prepared = .jump g (.region t)) :
    InstRuns env i m ((m.prepared.setRegs g).goto (regionOf m.pc ||| t <<< 2)) := by
  intro ν slot s
  have hperform : (perform env slot s (.jump g (.region t))).run m.prepared =
      .ok (.next, s) ((m.prepared.setRegs g).goto ((regionOf m.pc ||| t <<< 2) - 4)) := by
    change (do
      let s ← jumpInst env slot s (.region t)
      pure (Flow.next, s) : Exec (Flow × ν)).run (m.prepared.setRegs g) = _
    simp only [jumpInst, hb]
    rfl
  change (do
    let r ← perform env slot s (dispatch env i m.prepared)
    modify fun m => deliver (m.goto (m.pc + 4))
    pure r : Exec (Flow × ν)).run m.prepared = _
  rw [h, run_bind_of_ok hperform]
  change EStateM.Result.ok (Flow.next, s) (deliver ((m.prepared.setRegs g).goto
    ((regionOf m.pc ||| t <<< 2) - 4 + 4))) = _
  rw [deliver_goto rfl, BitVec.sub_add_cancel]

lemma Opcode.isJump_iff : op.isJump = true ↔ op = .j ∨ op = .jal := by
  cases op <;> simp [Opcode.isJump]

lemma lands_of_target (hb : env.delayedBranches = false) (hop : op.isJump = true)
    (hi : i.opcode = some op) : Lands env op i pc (regionOf pc ||| i.target <<< 2) := by
  rintro m rfl
  rcases Opcode.isJump_iff.mp hop with rfl | rfl
  · rw [if_neg (by decide)]
    refine InstRuns.jump hb (g := m.prepared.toRegs) ?_
    simp only [dispatch, hi]
  · rw [if_pos rfl]
    have hlink : m.prepared.linkAddr env = m.pc + 4 := by
      simp only [Machine.linkAddr, hb]
      rfl
    have hrun := InstRuns.jump hb (i := i) (m := m)
      (g := m.prepared.toRegs.setGpr 31 (m.prepared.linkAddr env)) (t := i.target)
      (by simp only [dispatch, hi])
    rwa [hlink] at hrun

lemma Lands.congr (h : i.SameFields j) (hi : Lands env op i pc a) : Lands env op j pc a :=
  fun m hm => (hi m hm).congr h

/-- In one region, the field of a jump gives the address back. -/
lemma region_jumpField (h : regionOf a = regionOf pc) :
    regionOf pc ||| jumpField a <<< 2 = a &&& ~~~3#32 := by
  rw [← h]
  have hhigh : ∀ k : Fin 32, (0xf0000000 : Word).getLsbD k = decide (28 ≤ k.val) := by decide
  have hlow : ∀ k : Fin 32, (0x0fffffff : Word).getLsbD k = decide (k.val < 28) := by decide
  have hword : ∀ k : Fin 32, (~~~3#32).getLsbD k = decide (2 ≤ k.val) := by decide
  apply BitVec.eq_of_getLsbD_eq
  intro k hk
  have h₁ : BitVec.getLsbD _ k = _ := hhigh ⟨k, hk⟩
  have h₂ : BitVec.getLsbD _ k = _ := hlow ⟨k, hk⟩
  have h₃ : BitVec.getLsbD _ k = _ := hword ⟨k, hk⟩
  simp only [regionOf, jumpField, BitVec.getLsbD_or, BitVec.getLsbD_and, BitVec.getLsbD_shiftLeft,
    BitVec.getLsbD_ushiftRight, h₁, h₃, hk, decide_true, Bool.true_and]
  by_cases hk₂ : k < 2
  · simp [hk₂, Nat.not_le.mpr (by omega : k < 28), Nat.not_le.mpr hk₂]
  · have hadd : 2 + (k - 2) = k := by omega
    rw [hadd, h₂]
    by_cases hk₃ : k < 28
    · simp [hk₂, hk₃, Nat.not_le.mpr hk₃, Nat.not_lt.mp hk₂]
    · simp [hk₂, hk₃, Nat.not_lt.mp hk₃, Nat.not_lt.mp hk₂]

end

/-! Resolution. -/

/-- The record with its target field filled in. -/
def Inst.jumping (i : Inst) (a : Word) : Inst :=
  { i.setTarget (jumpField a) with encoding := instEncode (i.setTarget (jumpField a)) }

/-- What resolving a jump at `pc` leaves in the log. -/
def jumpEvents (l : LabelRef) (a pc : Word) : List AsmEvent :=
  if regionOf a = regionOf pc then [.used l a] else [.report (.jumpRegion pc), .used l a]

/-- A use of a label by a jump at `pc` is resolved. -/
def Asm.resolveJump (s : Asm) (r : InstRef) (l : LabelRef) (pc : Word) : Asm :=
  Asm.setInst { s with events := jumpEvents l (s.label l).addr pc ++ s.events } r
    ((s.machine.insts r).jumping (s.label l).addr)

lemma mem_jumpEvents {l : LabelRef} {a pc : Word} :
    .report (.jumpRegion pc) ∈ jumpEvents l a pc ↔ regionOf a ≠ regionOf pc := by
  unfold jumpEvents
  split
  · rename_i h
    simp [h]
  · rename_i h
    simp [h]

section

variable {env : Env} {op : Opcode} {l : LabelRef} {r : InstRef} {s t : Asm} {pc : Word}

lemma Inst.JumpsTo.jumping {i : Inst} (h : i.JumpsTo op l) (a : Word) : (i.jumping a).JumpsTo op l :=
  ⟨h.opcode, h.expr⟩

lemma fieldValue_jump (hop : op.isJump = true) (hdef : (s.label l).isDefined = true) :
    (fieldValue env op (jumpExpr l) pc).run s =
      .ok (jumpField (s.label l).addr, 0xffffffff)
        { s with events := jumpEvents l (s.label l).addr pc ++ s.events } := by
  have hbranch : op.isBranch = false := by
    rcases Opcode.isJump_iff.mp hop with rfl | rfl <;> rfl
  have hvalue : (evalImmExpr (jumpExpr l)).run s =
      .ok (s.label l).addr (s.log (.used l (s.label l).addr)) := by
    rw [evalImmExpr, run_bind_of_ok (symbolValue_run rfl hdef)]
    change EStateM.Result.ok (0#32 + (s.label l).addr) _ = _
    rw [BitVec.zero_add]
  rw [fieldValue, run_bind_of_ok hvalue]
  simp only [hbranch, hop, Bool.false_eq_true, if_false, if_true]
  change (do
    onlyIf (regionOf (s.label l).addr ≠ regionOf pc) (report (.jumpRegion pc))
    pure (jumpField (s.label l).addr, 0xffffffff) : Assemble (Word × Word)).run _ = _
  by_cases hregion : regionOf (s.label l).addr = regionOf pc
  · rw [onlyIf_neg (not_not.mpr hregion), jumpEvents, if_pos hregion]
    rfl
  · rw [onlyIf_pos hregion, jumpEvents, if_neg hregion]
    rfl

/-- Resolving the use of a label that is defined fills in the target field, with a message when the
label is in another region. -/
lemma resolveALabelSub_jump (hop : op.isJump = true) (hr : (s.machine.insts r).JumpsTo op l)
    (hdef : (s.label l).isDefined = true) (k : LabelRef) :
    (resolveALabelSub env k (some r) pc).run s = .ok () (s.resolveJump r l pc) := by
  have hset : s.setInst r { s.machine.insts r with expr := some (jumpExpr l) } = s := by
    rw [← hr.expr]
    simp only [Asm.setInst, Asm.setMachine, Function.update_eq_self]
  have hsym : s.symbolDefined ((jumpExpr l).relocated pc) = true := hdef
  rw [resolveALabelSub_defined hr.opcode hr.expr hsym]
  change (resolveInst env r op (jumpExpr l) pc).run
      (s.setInst r { s.machine.insts r with expr := some (jumpExpr l) }) = _
  rw [hset, resolveInst, run_bind_of_ok (fieldValue_jump hop hdef)]
  have hmask : ¬ (jumpField (s.label l).addr &&& ~~~0xffffffff ≠ 0 ∧
      jumpField (s.label l).addr &&& ~~~0xffffffff ≠ 0xffff0000) := by
    simp
  dsimp only
  rw [onlyIf_neg hmask]
  simp only [hop, if_true]
  rfl

lemma instEncode_congr {i j : Inst} (h : i.SameFields j) : instEncode i = instEncode j := by
  obtain ⟨o, rs, rt, rd, sh, _, _⟩ := i
  obtain ⟨o', rs', rt', rd', sh', _, _⟩ := j
  obtain ⟨rfl, rfl, rfl, rfl, rfl⟩ := h
  rfl

lemma jumpField_lt (a : Word) : jumpField a < 0x4000000 := by
  have h : (a &&& 0x0fffffff).toNat ≤ 0x0fffffff := Nat.and_le_right
  rw [BitVec.lt_def, jumpField, BitVec.toNat_ushiftRight]
  change _ < 0x4000000
  omega

/-- inst_decode reads the target field back. -/
lemma jumping_decoded (tbl : AOpcodeTbl) (hop : op.isJump = true) {i : Inst}
    (hi : i.opcode = some op) (a : Word) :
    (instDecode tbl (i.jumping a).encoding).SameFields (i.jumping a) := by
  have hj := Opcode.isJump_iff.mp hop
  have hsame : (i.setTarget (jumpField a)).SameFields (makeJTypeInst op (jumpField a)) :=
    (Inst.sameFields_setTarget _ _ _).mpr hi
  have hkept : RowKept tbl op ∧ OperandsKept (makeJTypeInst op (jumpField a)) op.opType := by
    rcases hj with rfl | rfl
    · exact ⟨⟨by decide, fun h => absurd h (by decide)⟩, trivial⟩
    · exact ⟨⟨by decide, fun h => absurd h (by decide)⟩, trivial⟩
  have hx : op.executed = true := by
    rcases hj with rfl | rfl <;> rfl
  have hdecode := (instDecode_instEncode_iff tbl (.jump _ hj (jumpField_lt a)) hx).mpr hkept
  rw [← instEncode_congr hsame] at hdecode
  exact hdecode.trans hsame.symm

/-- A use at `pc` of a label at `a` was resolved: there was a message exactly when the jump crosses
regions, and otherwise the jump lands on the word of the label, also when it is decoded from its
encoding. -/
structure JumpResolved (env : Env) (op : Opcode) (r : InstRef) (pc a : Word) (s t : Asm) : Prop where
  reported : ∃ new, t.events = new ++ s.events ∧
    (.report (.jumpRegion pc) ∈ new ↔ regionOf a ≠ regionOf pc)
  lands : regionOf a = regionOf pc → Lands env op (t.machine.insts r) pc (a &&& ~~~3#32)
  decoded : regionOf a = regionOf pc →
    Lands env op (instDecode env.tbl (t.machine.insts r).encoding) pc (a &&& ~~~3#32)

lemma jumping_lands (hb : env.delayedBranches = false) (hop : op.isJump = true) {i : Inst}
    (hi : i.opcode = some op) {a : Word} (h : regionOf a = regionOf pc) :
    Lands env op (i.jumping a) pc (a &&& ~~~3#32) := by
  have hl : Lands env op (i.jumping a) pc _ := lands_of_target hb hop hi
  have htarget : (i.jumping a).target = jumpField a := Inst.target_setTarget i (jumpField a)
  rwa [htarget, region_jumpField h] at hl

/-- A state in which the record is filled in, after the messages. -/
lemma JumpResolved.of_record (hb : env.delayedBranches = false) (hop : op.isJump = true) {i : Inst}
    (hi : i.opcode = some op) {a : Word} {new : List AsmEvent} (hevents : t.events = new ++ s.events)
    (hnew : .report (.jumpRegion pc) ∈ new ↔ regionOf a ≠ regionOf pc)
    (hrec : t.machine.insts r = i.jumping a) : JumpResolved env op r pc a s t where
  reported := ⟨new, hevents, hnew⟩
  lands h := by
    rw [hrec]
    exact jumping_lands hb hop hi h
  decoded h := by
    rw [hrec]
    exact (jumping_lands hb hop hi h).congr (jumping_decoded env.tbl hop hi a).symm

end

/-! Emission. -/

section

variable {env : Env} {op : Opcode} {l : LabelRef} {r : InstRef} {s t : Asm} {pc : Word}

/-- An instruction with its encoding. -/
def Inst.encoded (i : Inst) : Inst :=
  if i.encoding = 0 then { i with encoding := instEncode i } else i

lemma Inst.jumping_encoded (i : Inst) (a : Word) : (i.jumping a).encoded = i.jumping a := by
  unfold Inst.encoded
  split
  · rfl
  · rfl

lemma Inst.JumpsTo.encoded {i : Inst} (h : i.JumpsTo op l) : i.encoded.JumpsTo op l := by
  unfold Inst.encoded
  split
  · exact ⟨h.opcode, h.expr⟩
  · exact h

lemma incrementTextPc_same {delta : Word} (h : (incrementTextPc delta).run s = .ok () t) :
    t.machine = s.machine ∧ t.events = s.events := by
  have hset (u : Asm) (v : Word) : (u.setTextPc v).machine = u.machine ∧
      (u.setTextPc v).events = u.events := by
    unfold Asm.setTextPc
    split
    · exact ⟨rfl, rfl⟩
    · exact ⟨rfl, rfl⟩
  have hk : Keeps (Rel.same fun u : Asm => (u.machine, u.events)) (incrementTextPc delta) := by
    refine Keeps.bind (Keeps.modify fun u => ?_) fun _ => Keeps.get_bind fun u => ?_
    · exact Prod.ext (hset u _).1 (hset u _).2
    · refine KeepsFrom.ite (fun _ => ?_) fun _ => ?_
      · exact Keeps.onlyIf (Keeps.throw _) u
      · exact Keeps.onlyIf (Keeps.throw _) u
  have heq := hk.ok h
  exact ⟨congrArg Prod.fst heq, congrArg Prod.snd heq⟩

lemma onMachine_records {α : Type} {x : Exec α} {a : α} (hx : Keeps keepsRecords x)
    (h : (onMachine x).run s = .ok a t) : ∃ m, s.machine.Records m ∧ t = s.setMachine m := by
  obtain ⟨m, hrun, ht⟩ := ok_of_onMachine h
  exact ⟨m, hx.ok hrun, ht⟩

/-- Storing an instruction in text changes its encoding at most, leaves a note or a message, and
tells the observer. -/
lemma storeInText_record (hr : r < s.machine.nextInst) (h : (storeInText env r).run s = .ok () t) :
    t.label = s.label ∧ r < t.machine.nextInst ∧
      t.machine.insts r = (s.machine.insts r).encoded ∧
      ∃ e, t.events = .fired (.textInst s.currentTextPc (s.machine.insts r).encoded.encoding) ::
        e :: s.events ∧ (e = .instStored s.currentTextPc r ∨
          e = .report (.invalidInstAddress s.currentTextPc)) := by
  obtain ⟨_, _, ⟨⟩, h⟩ := ok_of_bind h
  obtain ⟨_, s₁, h₁, h⟩ := ok_of_bind h
  obtain ⟨_, s₂, h₂, h⟩ := ok_of_bind h
  obtain ⟨_, _, ⟨⟩, h⟩ := ok_of_bind h
  obtain ⟨_, s₃, h₃, h⟩ := ok_of_bind h
  cases h
  obtain ⟨m₁, hm₁, rfl⟩ := onMachine_records (Keeps.modify fun m => printRel_keepsRecords.flag m) h₁
  obtain ⟨m₂, hm₂, rfl⟩ := onMachine_records (printRel_keepsRecords.memWriteInst _ _ _) h₂
  have hm := hm₁.trans hm₂
  have h₃' : s₃.machine = m₂ ∧ ∃ e, s₃.events = e :: s.events ∧
      (e = .instStored s.currentTextPc r ∨ e = .report (.invalidInstAddress s.currentTextPc)) := by
    change (if m₂.exceptionOccurred = true then report (.invalidInstAddress s.currentTextPc) else do
      logEvent (.instStored s.currentTextPc r)
      incrementTextPc 4 : Assemble Unit).run _ = _ at h₃
    by_cases he : m₂.exceptionOccurred = true
    · rw [if_pos he] at h₃
      cases h₃
      exact ⟨rfl, _, rfl, Or.inr rfl⟩
    · rw [if_neg he] at h₃
      obtain ⟨_, _, ⟨⟩, h₃⟩ := ok_of_bind h₃
      obtain ⟨hmachine, hevents⟩ := incrementTextPc_same h₃
      exact ⟨hmachine, _, hevents, Or.inl rfl⟩
  obtain ⟨hmachine, e, hevents, he⟩ := h₃'
  have hinst : s₃.machine.insts r = s.machine.insts r := by
    rw [hmachine]
    exact hm.insts r hr
  have hlabels : s₃.label = s.label := by
    funext k
    change s₃.machine.labels k = _
    rw [hmachine, hm.labels]
    rfl
  have hnext : r < s₃.machine.nextInst := by
    rw [hmachine]
    exact Nat.lt_of_lt_of_le hr hm.nextInst
  have hencoded : (s₃.setEncoding r).machine.insts r = (s.machine.insts r).encoded ∧
      (s₃.setEncoding r).label = s.label ∧ r < (s₃.setEncoding r).machine.nextInst ∧
        (s₃.setEncoding r).events = e :: s.events := by
    unfold Asm.setEncoding
    rw [← hinst]
    dsimp only
    unfold Inst.encoded
    split
    · exact ⟨insts_setInst _ _ _, hlabels, hnext, hevents⟩
    · exact ⟨rfl, hlabels, hnext, hevents⟩
  obtain ⟨hrecord, hlabels, hnext, hevents⟩ := hencoded
  refine ⟨hlabels, hnext, hrecord, e, ?_, he⟩
  change .fired (.textInst _ ((s₃.setEncoding r).machine.insts r).encoding) ::
    (s₃.setEncoding r).events = _
  rw [hrecord, hevents]

/-- j_type_inst in text makes a jump at the location counter; a label that is defined already is
resolved, and otherwise the use waits. -/
lemma jTypeInst_record (hop : op.isJump = true) {target : ImmExpr} (hsym : target.symbol = some l)
    (hbits : target.bits = 0) (hd : s.dataDir = false) (ht : s.textDir = true)
    (h : (jTypeInst env op target).run s = .ok () t) :
    s.machine.nextInst < t.machine.nextInst ∧
      (t.machine.insts s.machine.nextInst).JumpsTo op l ∧
      (.instStored s.currentTextPc s.machine.nextInst ∈ t.events ∨
        .report (.invalidInstAddress s.currentTextPc) ∈ t.events) ∧
      if (s.label l).isDefined = true then
        (∃ i : Inst, i.opcode = some op ∧ t.machine.insts s.machine.nextInst = i.jumping (s.label l).addr) ∧
        ∃ es, t.events = es ++ jumpEvents l (s.label l).addr s.currentTextPc ++ s.events ∧
          .report (.jumpRegion s.currentTextPc) ∉ es
      else { instruction := some s.machine.nextInst, addr := s.currentTextPc } ∈ (t.label l).uses := by
  obtain ⟨o, sym, bits, pcRel⟩ := target
  obtain rfl : sym = some l := hsym
  obtain rfl : bits = 0 := hbits
  obtain ⟨_, s₁, ⟨⟩, h⟩ := ok_of_bind h
  change (storeExprInst env s.machine.nextInst (jumpExpr l)).run
    (s.setMachine (s.machine.allocInst { opcode := some op, expr := some (jumpExpr l) }).2) =
      .ok () t at h
  generalize hs₁ : s.setMachine (s.machine.allocInst _).2 = s₁ at h
  have hrec : s₁.machine.insts s.machine.nextInst =
      { opcode := some op, expr := some (jumpExpr l) } := by
    rw [← hs₁]
    exact Function.update_self _ _ _
  have hjump : (s₁.machine.insts s.machine.nextInst).JumpsTo op l := by
    rw [hrec]
    exact ⟨rfl, rfl⟩
  have hr : s.machine.nextInst < s₁.machine.nextInst := by
    rw [← hs₁]
    exact Nat.lt_succ_self _
  have hlabel : s₁.label = s.label := by
    rw [← hs₁]
    rfl
  have hpc : s₁.currentTextPc = s.currentTextPc := by
    rw [← hs₁]
    rfl
  have hevents : s₁.events = s.events := by
    rw [← hs₁]
    rfl
  have hd₁ : s₁.dataDir = false := by
    rw [← hs₁]
    exact hd
  have ht₁ : s₁.textDir = true := by
    rw [← hs₁]
    exact ht
  have hstore (u : Asm) (hu : u.dataDir = false) (hu' : u.textDir = true) :
      (storeInstruction env s.machine.nextInst).run u =
        (storeInText env s.machine.nextInst).run u := by
    change (if u.dataDir = true then _ else if u.textDir = true then
      storeInText env s.machine.nextInst else _ : Assemble Unit).run u = _
    rw [if_neg (by simp [hu]), if_pos hu']
  obtain ⟨_, _, ⟨⟩, h⟩ := ok_of_bind h
  change (do
    if (s₁.label l).isDefined = true then resolveALabel env (some l) s.machine.nextInst
    else recordInstUsesSymbol s.machine.nextInst l
    storeInstruction env s.machine.nextInst : Assemble Unit).run s₁ = .ok () t at h
  rw [← hpc, ← hlabel, ← hevents]
  by_cases hdef : (s₁.label l).isDefined = true
  · rw [if_pos hdef] at h ⊢
    have hresolve : (resolveALabelSub env l (some s.machine.nextInst) s₁.currentTextPc).run s₁ = _ :=
      resolveALabelSub_jump hop hjump hdef l
    have hat : (if s₁.dataDir = true then s₁.currentDataPc else s₁.currentTextPc) =
        s₁.currentTextPc := if_neg (by simp [hd₁])
    have hrun : (resolveALabel env (some l) s.machine.nextInst).run s₁ = _ :=
      resolveALabel_run _ _ _
    rw [Option.getD_some, hat, hresolve] at hrun
    rw [run_bind_of_ok hrun] at h
    change (storeInstruction env s.machine.nextInst).run _ = _ at h
    rw [hstore (s₁.resolveJump _ _ _) hd₁ ht₁] at h
    obtain ⟨-, hnext, hinst, e, he, hnote⟩ := storeInText_record (s := s₁.resolveJump _ _ _) hr h
    rw [Asm.resolveJump, insts_setInst, Inst.jumping_encoded] at hinst
    refine ⟨hnext, ?_, ?_, ⟨_, hjump.opcode, hinst⟩, [_, e], he, ?_⟩
    · rw [hinst]
      exact hjump.jumping _
    · rw [he]
      rcases hnote with rfl | rfl
      · exact Or.inl (List.mem_cons_of_mem _ List.mem_cons_self)
      · exact Or.inr (List.mem_cons_of_mem _ List.mem_cons_self)
    · rcases hnote with rfl | rfl <;> simp
  · rw [if_neg hdef] at h ⊢
    have hrecord : (recordInstUsesSymbol s.machine.nextInst l).run s₁ = .ok () (s₁.setLabel l
        { s₁.label l with
          uses := ⟨some s.machine.nextInst, s₁.currentTextPc⟩ :: (s₁.label l).uses }) := by
      change (if s₁.dataDir = true then _ else addUse l _ : Assemble Unit).run s₁ = _
      rw [if_neg (by simp [hd₁])]
      rfl
    rw [run_bind_of_ok hrecord] at h
    change (storeInstruction env s.machine.nextInst).run _ = _ at h
    rw [hstore (Asm.setLabel _ _ _) hd₁ ht₁] at h
    obtain ⟨hlab, hnext, hinst, e, he, hnote⟩ := storeInText_record (s := s₁.setLabel l _) hr h
    refine ⟨hnext, ?_, ?_, ?_⟩
    · rw [hinst]
      exact hjump.encoded
    · rw [he]
      rcases hnote with rfl | rfl
      · exact Or.inl (List.mem_cons_of_mem _ List.mem_cons_self)
      · exact Or.inr (List.mem_cons_of_mem _ List.mem_cons_self)
    · rw [hlab, label_setLabel, Function.update_self]
      exact List.mem_cons_self

end

/-! The uses of a label. -/

/-- An allocated record that is no lui stays as it is. -/
def sameRecord (r : InstRef) : Rel Asm where
  rel s t := r < s.machine.nextInst → (s.machine.insts r).opcode ≠ some .lui →
    r < t.machine.nextInst ∧ t.machine.insts r = s.machine.insts r
  refl _ hr _ := ⟨hr, rfl⟩
  trans h h' hr ho := by
    obtain ⟨hr', he⟩ := h hr ho
    obtain ⟨hr'', he'⟩ := h' hr' (he ▸ ho)
    exact ⟨hr'', he'.trans he⟩

section

variable {env : Env} {r : InstRef}

lemma sameRecord_machine (s : Asm) (m : Machine) (h : s.machine.Records m) :
    (sameRecord r).rel s (s.setMachine m) :=
  fun hr _ => ⟨Nat.lt_of_lt_of_le hr h.nextInst, h.insts r hr⟩

lemma sameRecord_setInst (s : Asm) {q : InstRef} (i : Inst)
    (hq : q ≠ r ∨ (s.machine.insts q).opcode = some .lui) : (sameRecord r).rel s (s.setInst q i) := by
  intro hr ho
  have hne : r ≠ q := by
    rintro rfl
    rcases hq with hq | hq
    · exact hq rfl
    · exact ho hq
  exact ⟨hr, Function.update_of_ne hne _ _⟩

lemma sameRecord_onMachine {α : Type} {x : Exec α} (hx : Keeps keepsRecords x) :
    Keeps (sameRecord r) (onMachine x) := keeps_onMachine sameRecord_machine hx

lemma sameRecord_log (s : Asm) (e : AsmEvent) : (sameRecord r).rel s (s.log e) :=
  fun hr _ => ⟨hr, rfl⟩

lemma compensateLui_record (tbl : AOpcodeTbl) (sym : Option LabelRef) (pc : Word) :
    Keeps (sameRecord r) (compensateLui tbl sym pc) := by
  refine Keeps.bind (sameRecord_onMachine (printRel_keepsRecords.memReadInst _ _)) fun prev => ?_
  refine Keeps.bind (sameRecord_onMachine (printRel_keepsRecords.memReadInst _ _)) fun prevPrev => ?_
  refine Keeps.get_bind fun s => ?_
  cases h : (s.waitingLui sym prev).or (s.waitingLui sym prevPrev) with
  | none => exact KeepsFrom.pure _
  | some w =>
    refine KeepsFrom.set (sameRecord_setInst s _ (Or.inr ?_))
    rcases Option.or_eq_some_iff.mp h with h | ⟨-, h⟩
    · exact (Asm.waitingLui_record h).1
    · exact (Asm.waitingLui_record h).1

lemma fieldValue_record (op : Opcode) (e : ImmExpr) (pc : Word) :
    Keeps (sameRecord r) (fieldValue env op e pc) := by
  have hlog (e : AsmEvent) : Keeps (sameRecord r) (logEvent e) :=
    Keeps.modify fun s => sameRecord_log s e
  have hvalue : Keeps (sameRecord r) (evalImmExpr e) := by
    refine Keeps.bind ?_ fun _ => Keeps.pure _
    unfold symbolValue
    cases e.symbol with
    | none => exact Keeps.pure _
    | some l =>
      refine Keeps.get_bind fun s => KeepsFrom.ite (fun _ => ?_) fun _ => ?_
      · exact Keeps.bind (hlog _) (fun _ => Keeps.pure _) s
      · exact Keeps.bind (hlog _) (fun _ => Keeps.pure _) s
  refine Keeps.bind hvalue fun v => Keeps.ite (fun _ => Keeps.pure _) fun _ => ?_
  refine Keeps.ite (fun _ => ?_) fun _ => Keeps.ite (fun _ => ?_) fun _ => Keeps.pure _
  · exact Keeps.bind (Keeps.onlyIf (hlog _)) fun _ => Keeps.pure _
  · exact Keeps.bind (Keeps.onlyIf (compensateLui_record _ _ _)) fun _ => Keeps.pure _

/-- Resolving the use of one record leaves the others alone. -/
lemma resolveALabelSub_record {q : Option InstRef} (hq : q ≠ some r) (sym : LabelRef) (pc : Word) :
    Keeps (sameRecord r) (resolveALabelSub env sym q pc) := by
  have hlog (e : AsmEvent) : Keeps (sameRecord r) (logEvent e) :=
    Keeps.modify fun s => sameRecord_log s e
  refine Keeps.get_bind fun s => ?_
  cases q with
  | none =>
    refine Keeps.bind (Keeps.onlyIf (hlog _)) (fun _ => ?_) s
    exact sameRecord_onMachine (printRel_keepsRecords.memWrite _ _ _ _)
  | some q =>
    have hne : q ≠ r := fun h => hq (congrArg some h)
    dsimp only
    split
    · refine KeepsFrom.bind (KeepsFrom.set (sameRecord_setInst s _ (Or.inl hne))) fun _ t _ => ?_
      refine KeepsFrom.ite (fun _ => ?_) fun _ => hlog _ t
      refine Keeps.bind (fieldValue_record _ _ _) (fun v => ?_) t
      refine Keeps.bind (Keeps.onlyIf ?_) fun _ =>
        Keeps.modify fun u => sameRecord_setInst u _ (Or.inl hne)
      exact Keeps.bind (hlog _) fun _ =>
        sameRecord_onMachine (printRel_keepsRecords.instToString _ _)
    · exact KeepsFrom.throw _

end

section

variable {env : Env} {op : Opcode} {l k : LabelRef} {r : InstRef} {s t u v : Asm} {pc : Word}

/-- Filling in the target twice is the same as once. -/
lemma Inst.jumping_jumping (i : Inst) (a : Word) : (i.jumping a).jumping a = i.jumping a := by
  have hsame : ((i.jumping a).setTarget (jumpField a)).SameFields (i.setTarget (jumpField a)) :=
    (Inst.sameFields_setTarget _ _ _).mpr rfl
  rw [Inst.jumping, instEncode_congr hsame]
  rfl

/-- The uses of a label, one by one: the record of a jump to `l` is filled in, or stays as it is. -/
structure JumpKept (r : InstRef) (l : LabelRef) (s t : Asm) : Prop where
  label : t.label = s.label
  fresh : r < t.machine.nextInst
  record : t.machine.insts r = s.machine.insts r ∨
    t.machine.insts r = (s.machine.insts r).jumping (s.label l).addr

namespace JumpKept

lemma jumpsTo (h : JumpKept r l s t) (hj : (s.machine.insts r).JumpsTo op l) :
    (t.machine.insts r).JumpsTo op l := by
  rcases h.record with he | he
  · rwa [he]
  · rw [he]
    exact hj.jumping _

lemma trans (h : JumpKept r l s t) (h' : JumpKept r l t u) : JumpKept r l s u where
  label := h'.label.trans h.label
  fresh := h'.fresh
  record := by
    rcases h.record with he | he
    · rw [← he, ← h.label]
      exact h'.record
    · right
      rcases h'.record with he' | he'
      · rw [he', he]
      · rw [he', he, h.label, Inst.jumping_jumping]

/-- A record that was filled in stays as it is. -/
lemma filled (h : JumpKept r l s t) {i : Inst}
    (hi : s.machine.insts r = i.jumping (s.label l).addr) :
    t.machine.insts r = s.machine.insts r := by
  rcases h.record with he | he
  · exact he
  · rw [he, hi, Inst.jumping_jumping]

end JumpKept

lemma opcode_ne_lui (hop : op.isJump = true) {i : Inst} (hj : i.JumpsTo op l) :
    i.opcode ≠ some .lui := by
  rw [hj.opcode]
  rintro ⟨⟩
  cases hop

lemma JumpKept.of_record (hop : op.isJump = true) (hr : r < s.machine.nextInst)
    (hj : (s.machine.insts r).JumpsTo op l) (hl : t.label = s.label) (h : (sameRecord r).rel s t) :
    JumpKept r l s t := by
  obtain ⟨hr', he⟩ := h hr (opcode_ne_lui hop hj)
  exact ⟨hl, hr', Or.inl he⟩

lemma JumpKept.machine {m : Machine} (hr : r < s.machine.nextInst) (h : s.machine.Records m) :
    JumpKept r l s (s.setMachine m) where
  label := h.labels
  fresh := Nat.lt_of_lt_of_le hr h.nextInst
  record := Or.inl (h.insts r hr)

/-- One use after the other; data at the address of an instruction are rewritten in between. -/
lemma resolveUses_cons {x : LabelUse} {us : List LabelUse}
    (h : (resolveUses env k (x :: us)).run s = .ok () t) :
    ∃ s₁ m, (resolveALabelSub env k x.instruction x.addr).run s = .ok () s₁ ∧
      s₁.machine.Records m ∧ ∀ us, (resolveUses env k (x :: us)).run s =
        (resolveUses env k us).run (s₁.setMachine m) := by
  obtain ⟨_, s₁, h₁, h⟩ := ok_of_bind h
  obtain ⟨_, _, ⟨⟩, h⟩ := ok_of_bind h
  cases hx : x.instruction with
  | none =>
    rw [hx] at h h₁
    refine ⟨s₁, s₁.machine, h₁, .refl _, fun us => ?_⟩
    rw [resolveUses, hx, run_bind_of_ok h₁]
    rfl
  | some q =>
    rw [hx] at h h₁
    obtain ⟨_, s₂, h₂, h⟩ := ok_of_bind h
    obtain ⟨m, hm, rfl⟩ : ∃ m, s₁.machine.Records m ∧ s₂ = s₁.setMachine m := by
      by_cases hc : dataBot ≤ x.addr ∧ x.addr < s₁.machine.stackBot
      · rw [onlyIf_pos hc] at h₂
        exact onMachine_records (printRel_keepsRecords.memWrite _ _ _ _) h₂
      · rw [onlyIf_neg hc] at h₂
        cases h₂
        exact ⟨s₁.machine, .refl _, rfl⟩
    refine ⟨s₁, m, h₁, hm, fun us => ?_⟩
    rw [resolveUses, hx, run_bind_of_ok h₁, EStateM.run_bind, EStateM.run_get]
    exact run_bind_of_ok h₂

lemma resolveALabelSub_kept (hop : op.isJump = true) (hr : r < s.machine.nextInst)
    (hj : (s.machine.insts r).JumpsTo op l) (hdef : (s.label l).isDefined = true)
    {q : Option InstRef} (h : (resolveALabelSub env k q pc).run s = .ok () t) :
    JumpKept r l s t := by
  by_cases hq : q = some r
  · rw [hq, resolveALabelSub_jump hop hj hdef k] at h
    cases h
    exact ⟨rfl, hr, Or.inr (insts_setInst _ _ _)⟩
  · have hl := (symbols_eq_iff.mp ((resolveRel_symbols.resolveALabelSub env k q pc).ok h)).2.1
    exact .of_record hop hr hj hl ((resolveALabelSub_record hq k pc).ok h)

lemma resolveUses_kept (hop : op.isJump = true) {us : List LabelUse} (hr : r < s.machine.nextInst)
    (hj : (s.machine.insts r).JumpsTo op l) (hdef : (s.label l).isDefined = true)
    (h : (resolveUses env k us).run s = .ok () t) : JumpKept r l s t := by
  induction us generalizing s with
  | nil =>
    cases h
    exact ⟨rfl, hr, Or.inl rfl⟩
  | cons x us ih =>
    obtain ⟨s₁, m, h₁, hm, hrest⟩ := resolveUses_cons h
    rw [hrest] at h
    have hx := resolveALabelSub_kept hop hr hj hdef h₁
    have hx' := hx.trans (JumpKept.machine (l := l) hx.fresh hm)
    refine hx'.trans (ih hx'.fresh (hx'.jumpsTo hj) ?_ h)
    rw [hx'.label]
    exact hdef

/-- The use of a jump that waits for its label is resolved with the others, and they do not change
what was filled in. -/
lemma resolveUses_resolves (hb : env.delayedBranches = false) (hop : op.isJump = true)
    {us : List LabelUse} (hr : r < s.machine.nextInst) (hj : (s.machine.insts r).JumpsTo op l)
    (hdef : (s.label l).isDefined = true) (hmem : ⟨some r, pc⟩ ∈ us)
    (h : (resolveUses env k us).run s = .ok () t) :
    ∃ before after s₁ s₂, us = before ++ ⟨some r, pc⟩ :: after ∧
      (resolveUses env k before).run s = .ok () s₁ ∧
      (resolveALabelSub env k (some r) pc).run s₁ = .ok () s₂ ∧
      JumpResolved env op r pc (s.label l).addr s₁ s₂ ∧
      t.machine.insts r = s₂.machine.insts r := by
  induction us generalizing s with
  | nil => cases hmem
  | cons x us ih =>
    obtain ⟨s₁, m, h₁, hm, hrest⟩ := resolveUses_cons h
    rw [hrest] at h
    have hx := resolveALabelSub_kept hop hr hj hdef h₁
    have hx' := hx.trans (JumpKept.machine (l := l) hx.fresh hm)
    have hdef' : ((s₁.setMachine m).label l).isDefined = true := by
      rw [hx'.label]
      exact hdef
    rcases List.mem_cons.mp hmem with rfl | hmem
    · have h₁' := h₁
      rw [resolveALabelSub_jump hop hj hdef k] at h₁'
      cases h₁'
      have hfilled : (s.resolveJump r l pc).machine.insts r =
          (s.machine.insts r).jumping (s.label l).addr := insts_setInst _ _ _
      refine ⟨[], us, s, _, rfl, rfl, h₁, ?_, ?_⟩
      · exact .of_record hb hop hj.opcode rfl mem_jumpEvents hfilled
      · have hus := resolveUses_kept hop hx'.fresh (hx'.jumpsTo hj) hdef' h
        refine (hus.filled (i := s.machine.insts r) ?_).trans (hm.insts r hx.fresh)
        rw [hx'.label]
        exact (hm.insts r hx.fresh).trans hfilled
    · obtain ⟨before, after, t₁, t₂, rfl, ht₁, ht₂, hres, hrec⟩ :=
        ih hx'.fresh (hx'.jumpsTo hj) hdef' hmem h
      rw [hx'.label] at hres
      exact ⟨x :: before, after, t₁, t₂, rfl, (hrest before).trans ht₁, ht₂, hres, hrec⟩

end

/-! Whatever is assembled later. -/

/-- The record is a jump to `l`. -/
def HasJump (r : InstRef) (op : Opcode) (l : LabelRef) (s : Asm) : Prop :=
  r < s.machine.nextInst ∧ (s.machine.insts r).JumpsTo op l

section

variable {op : Opcode} {l : LabelRef} {r : InstRef}

lemma hasJump_same {s t : Asm} (h : t.machine.insts = s.machine.insts)
    (hn : t.machine.nextInst = s.machine.nextInst) : (Rel.stable (HasJump r op l)).rel s t :=
  fun hs => ⟨hn ▸ hs.1, h ▸ hs.2⟩

theorem labelRel_hasJump (hop : op.isJump = true) :
    LabelRel Set.univ Set.univ (Rel.stable (HasJump r op l)) where
  machine s m h := by
    rintro ⟨hr, hj⟩
    refine ⟨Nat.lt_of_lt_of_le hr h.nextInst, ?_⟩
    rw [show (s.setMachine m).machine.insts r = _ from h.insts r hr]
    exact hj
  setInst s q i h := by
    rintro ⟨hr, hj⟩
    refine ⟨hr, ?_⟩
    by_cases hq : r = q
    · subst hq
      rw [insts_setInst]
      exact ⟨h.opcode.trans hj.opcode, h.expr _ hj.expr rfl (opcode_ne_lui hop hj)⟩
    · rw [show (s.setInst q i).machine.insts r = _ from Function.update_of_ne hq _ _]
      exact hj
  log _ _ _ := hasJump_same rfl rfl
  labelDef _ _ _ _ := hasJump_same rfl rfl
  use _ _ _ := hasJump_same rfl rfl
  addUse _ _ _ _ _ := hasJump_same rfl rfl
  dataPc s v := by
    unfold Asm.setDataPc
    split
    · exact hasJump_same rfl rfl
    · exact hasJump_same rfl rfl
  textPc s v := by
    unfold Asm.setTextPc
    split
    · exact hasJump_same rfl rfl
    · exact hasJump_same rfl rfl
  newLabel _ _ _ := hasJump_same rfl rfl
  clearUses _ _ := hasJump_same rfl rfl
  define _ _ _ _ _ := hasJump_same rfl rfl
  linkLocal _ _ _ _ := hasJump_same rfl rfl
  declareGlobal _ _ _ := hasJump_same rfl rfl
  constant _ _ _ := hasJump_same rfl rfl
  pend _ _ _ := hasJump_same rfl rfl
  unpend _ _ _ _ _ := hasJump_same rfl rfl
  move _ _ := hasJump_same rfl rfl
  parseError _ _ _ := hasJump_same rfl rfl
  flags _ _ _ _ _ _ _ := hasJump_same rfl rfl

theorem parseRel_hasJump (hop : op.isJump = true) : ParseRel (Rel.stable (HasJump r op l)) where
  scan _ _ _ _ := hasJump_same rfl rfl
  unresolved _ _ := hasJump_same rfl rfl
  pseudo _ _ := hasJump_same rfl rfl
  append _ _ _ := hasJump_same rfl rfl
  seg s kind _ := by cases kind <;> exact hasJump_same rfl rfl
  noAlign _ := hasJump_same rfl rfl
  nullTerm _ _ := hasJump_same rfl rfl
  newLine _ := hasJump_same rfl rfl
  newLabel _ _ _ := hasJump_same rfl rfl
  use _ _ _ := hasJump_same rfl rfl
  report _ _ _ := hasJump_same rfl rfl
  parseError _ _ := hasJump_same rfl rfl
  aligned s k _ _ := by
    refine Rel.trans _ ?_ ((labelRel_hasJump hop).alignDirective _ _)
    split
    · exact hasJump_same rfl rfl
    · exact hasJump_same rfl rfl
  clear env := (labelRel_hasJump hop).clearLabels env

theorem endRel_hasJump : EndRel (Rel.stable (HasJump r op l)) where
  erase _ _ _ _ _ := hasJump_same rfl rfl
  report _ _ _ := hasJump_same rfl rfl
  flush _ := hasJump_same rfl rfl
  reset _ := hasJump_same rfl rfl

lemma session_hasJump (hop : op.isJump = true) {calls : List SessionCall} {s t : Asm}
    (hs : HasJump r op l s) (h : CommandRun SessionCall.run (fun _ _ => True) s calls t) :
    HasJump r op l t := by
  refine h.invariant (P := HasJump r op l) ?_ hs
  intro s c t hs _ h
  have hR : LabelRel Set.univ Set.univ (Rel.stable (HasJump r op l)) := labelRel_hasJump hop
  cases c with
  | parserInit input =>
    cases h
    exact hs
  | parseFile env =>
    obtain ⟨p, hp, ⟨-, rfl⟩ | ⟨nodes, -, -, h⟩⟩ := parseFile_run h
    · exact ((parseRel_hasJump hop).parseTree env).ok hp hs
    · have hp' := ((parseRel_hasJump hop).parseTree env).ok hp hs
      obtain ⟨_, q, hq, h⟩ := ok_of_bind h
      have hq' := (hR.emitNodes env.toEnv (fun _ _ => hasJump_same rfl rfl) nodes
        (fun _ _ _ _ => trivial) fun _ _ _ _ => trivial).ok hq hp'
      exact (hR.clearLabels env.toEnv).ok h hq'
  | source input =>
    cases h
    exact hs
  | endFile => exact endRel_hasJump.endFile.ok h hs

end

lemma makeImmExpr_bits {v : Word} {sym : Option String} {rel : Bool} {e : ImmExpr} {s t : Asm}
    (h : (makeImmExpr v sym rel).run s = .ok e t) : e.bits = 0 := by
  cases sym with
  | none =>
    cases h
    rfl
  | some name =>
    obtain ⟨_, _, -, h⟩ := ok_of_bind h
    cases h
    rfl

/-- parse_label asks for the whole of the label's address. -/
lemma parseLabel_bits {env : AsmEnv} {e : ImmExpr} {s t : Asm}
    (h : (parseLabel env).run s = .ok e t) : e.bits = 0 := by
  obtain ⟨name, _, -, h⟩ := ok_of_bind h
  cases name with
  | none =>
    obtain ⟨_, _, -, h⟩ := ok_of_bind h
    exact makeImmExpr_bits h
  | some name =>
    obtain ⟨_, _, -, h⟩ := ok_of_bind h
    exact makeImmExpr_bits h

/-- `jal f` at 0x400000, with `f` at 0x400010. -/
def jalToF : Asm where
  input := [.ident "f" none, .nl]
  table := [0]
  nextLabel := 1
  nextTextPc := textBot
  machine := { ({} : Machine) with
    textTop := 0x500000
    labels := fun _ => { name := "f", addr := 0x400010 } }

end Spimulator
