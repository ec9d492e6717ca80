import Spimulator.Expansion
import Spimulator.FpControl

/-! Condition codes of the floating-point unit: the bits of FCSR that comparisons set and that
branches and conditional moves test, and the fields of instructions that name them. -/
namespace Spimulator
open Frame

/-! The bits. -/

/-- A condition code, from the control registers. -/
def codeOf (f : RegNo → Word) (k : Byte) : Bool := f 31 &&& ccMask k ≠ 0

lemma fcc_eq (m : Machine) (k : Byte) : m.fcc k = if codeOf m.fcr k then 1 else 0 := by
  unfold Machine.fcc codeOf Machine.fcsr
  by_cases h : m.fcr 31 &&& ccMask k = 0
  · rw [if_pos h, h]
    rfl
  · rw [if_neg h, if_pos (by simpa using h)]

lemma ccMask_disjoint : ∀ n : Byte, n ≤ 7 → ∀ k : Byte, k ≤ 7 → n ≠ k → ccMask n &&& ccMask k = 0 := by
  decide +kernel

lemma ccMask_ne_zero (n : Byte) : ccMask n ≠ 0 := by
  revert n
  decide +kernel

lemma and_not_of_disjoint {x a b : Word} (h : a &&& b = 0) : x &&& ~~~a &&& b = x &&& b := by
  ext i hi
  have hbit : (a &&& b).getLsbD i = false := by
    rw [h]
    exact BitVec.getLsbD_zero
  simp only [BitVec.getLsbD_and] at hbit
  simp only [BitVec.getElem_and, BitVec.getElem_not, BitVec.getLsbD_eq_getElem hi] at hbit ⊢
  cases ha : a[i] <;> simp_all

/-- A code is what was last written to it, and other codes stay as they are. -/
lemma codeOf_setFcc (g : Regs) {n k : Byte} (hn : n ≤ 7) (hk : k ≤ 7) (b : Bool) :
    codeOf (g.setFcc n b).fcr k = if n = k then b else codeOf g.fcr k := by
  have hnew : (g.setFcc n b).fcr 31 =
      if b then g.fcr 31 ||| ccMask n else g.fcr 31 &&& ~~~(ccMask n) :=
    Function.update_self (31 : RegNo) _ g.fcr
  unfold codeOf
  rw [hnew]
  by_cases h : n = k
  · subst h
    rw [if_pos rfl]
    cases b with
    | true =>
      have hset : (g.fcr 31 ||| ccMask n) &&& ccMask n = ccMask n := by
        ext i hi
        simp only [BitVec.getElem_and, BitVec.getElem_or]
        cases (ccMask n)[i] <;> simp
      rw [if_pos rfl, hset]
      simpa using ccMask_ne_zero n
    | false =>
      have hclear : g.fcr 31 &&& ~~~ccMask n &&& ccMask n = 0 := by
        ext i hi
        simp
      rw [if_neg (by decide), hclear]
      rfl
  · rw [if_neg h]
    have hdisj := ccMask_disjoint n hn k hk h
    cases b with
    | true =>
      have hor : (g.fcr 31 ||| ccMask n) &&& ccMask k = g.fcr 31 &&& ccMask k := by
        rw [BitVec.and_comm, BitVec.and_or_distrib_left, BitVec.and_comm (ccMask k) (ccMask n),
          hdisj, BitVec.and_comm]
        exact BitVec.or_zero
      rw [if_pos rfl, hor]
    | false => rw [if_neg (by decide), and_not_of_disjoint hdisj]

/-! Comparisons and tests. -/

/-- The outcome of a comparison: less, equal or unordered. -/
structure FpOutcome where
  less : Bool
  equal : Bool
  unordered : Bool
  deriving DecidableEq, Repr

def Fpu.outcome (fpu : Fpu) (v1 v2 : BitVec 64) : FpOutcome :=
  if fpu.isNaN v1 ∨ fpu.isNaN v2 then ⟨false, false, true⟩ else ⟨fpu.lt v1 v2, fpu.eq v1 v2, false⟩

/-- The bits that the condition selects from an outcome, or-ed. -/
def FpOutcome.holds (o : FpOutcome) (cond : Byte) : Bool :=
  (cond &&& condLt ≠ 0 && o.less) || (cond &&& condEq ≠ 0 && o.equal) ||
    (cond &&& condUn ≠ 0 && o.unordered)

namespace Visit

variable (env : Env) (v : Visit)

/-- The outcome of an executed comparison. -/
def outcome : Option FpOutcome :=
  match v.inst.opcode with
  | none => none
  | some op =>
    if op.comparesS then
      some (env.fpu.outcome (env.fpu.ofSingle (v.state.fpr v.inst.fs))
        (env.fpu.ofSingle (v.state.fpr v.inst.ft)))
    else if op.comparesD then
      if v.inst.fs &&& 1 ≠ 0 ∨ v.inst.ft &&& 1 ≠ 0 then none
      else some (env.fpu.outcome (v.state.fprD v.inst.fs) (v.state.fprD v.inst.ft))
    else none

/-- The code that an executed comparison names, with its result, unless it is a signalling one of
unordered operands. -/
def result : Option (Byte × Bool) :=
  (v.outcome env).bind fun o =>
    if o.unordered ∧ v.inst.cond &&& condIn ≠ 0 then none
    else some (v.inst.ccfp, o.holds v.inst.cond)

end Visit

/-- The result of the last comparison that named the code, or 0 if there was none. -/
def lastResult (env : Env) (k : Byte) : List Visit → Bool
  | [] => false
  | v :: older =>
    match v.result env with
    | some (n, b) => if n = k then b else lastResult env k older
    | none => lastResult env k older

/-- The instructions that test a condition code. -/
def Opcode.testsCode : Opcode → Bool
  | .bc1f | .bc1fl | .bc1t | .bc1tl | .movf | .movfS | .movfD | .movt | .movtS | .movtD => true
  | _ => false

/-- What a test does when it sees its code as `b`. -/
def Machine.testWith (m : Machine) (i : Inst) (b : Bool) : Option Action :=
  match i.opcode with
  | some .bc1f | some .bc1fl | some .bc1t | some .bc1tl =>
    some (m.branchIf i ((if b then 1 else 0) = i.tf) (i.nd ≠ 0))
  | some .movf => some (if b = false then m.setRd i (m.gpr i.rs) else m.nothing)
  | some .movt => some (if b then m.setRd i (m.gpr i.rs) else m.nothing)
  | some .movfS => some (m.moveS i (b = false))
  | some .movtS => some (m.moveS i (b = true))
  | some .movfD => some (m.moveD i (b = false))
  | some .movtD => some (m.moveD i (b = true))
  | _ => none

lemma compareFp_outcome (m : Machine) (i : Inst) (fpu : Fpu) (v1 v2 : BitVec 64) :
    m.compareFp i fpu v1 v2 =
      if (fpu.outcome v1 v2).unordered ∧ i.cond &&& condIn ≠ 0 then .raise .fpe
      else .regs (m.toRegs.setFcc i.ccfp ((fpu.outcome v1 v2).holds i.cond)) := by
  unfold Machine.compareFp Fpu.outcome
  by_cases h : fpu.isNaN v1 = true ∨ fpu.isNaN v2 = true
  · rw [if_pos h, if_pos h]
    simp only [true_and]
    rfl
  · rw [if_neg h, if_neg h]
    simp only [Bool.false_eq_true, false_and, if_false]
    rfl

/-- A test sees the bit of its code. -/
lemma dispatch_test (env : Env) (m : Machine) {i : Inst} {op : Opcode} (hop : i.opcode = some op)
    (h : op.testsCode = true) :
    m.testWith i (codeOf m.fcr i.cc) = some (dispatch env i m) := by
  cases op
  all_goals first
    | exact absurd h (by decide)
    | simp [Machine.testWith, dispatch, hop, fcc_eq]

section

variable {env : Env} {v : Visit}

/-- What an instruction other than ctc1 makes of a condition code. -/
lemma codeOf_fcrAfter {f : RegNo → Word} (hf : v.state.fcr = f) (hctc1 : v.inst.opcode ≠ some .ctc1)
    {k : Byte} (hk : k ≤ 7) (hn : ∀ n b, v.result env = some (n, b) → n ≤ 7) :
    codeOf ((v.action env).fcrAfter f) k =
      match v.result env with
      | some (n, b) => if n = k then b else codeOf f k
      | none => codeOf f k := by
  subst hf
  have hcompare : ∀ v1 v2 a, a = v.state.start.compareFp v.inst env.fpu v1 v2 →
      v.outcome env = some (env.fpu.outcome v1 v2) →
      codeOf (a.fcrAfter v.state.fcr) k =
        match v.result env with
        | some (n, b) => if n = k then b else codeOf v.state.fcr k
        | none => codeOf v.state.fcr k := by
    rintro v1 v2 _ rfl ho
    rw [compareFp_outcome]
    unfold Visit.result at hn ⊢
    rw [ho] at hn ⊢
    simp only [Option.bind_some] at hn ⊢
    split
    · rfl
    · rename_i hquiet
      rw [if_neg hquiet] at hn
      exact codeOf_setFcc _ (hn _ _ rfl) hk _
  have hsame : v.outcome env = none → (v.action env).fcrAfter v.state.fcr = v.state.fcr →
      codeOf ((v.action env).fcrAfter v.state.fcr) k =
        match v.result env with
        | some (n, b) => if n = k then b else codeOf v.state.fcr k
        | none => codeOf v.state.fcr k := by
    intro ho ha
    rw [ha, Visit.result, ho]
    rfl
  cases hop : v.inst.opcode with
  | none =>
    refine hsame (by simp only [Visit.outcome, hop]) ?_
    simp only [Visit.action, dispatch, hop]
    rfl
  | some op =>
    cases hs : op.comparesS with
    | true =>
      refine hcompare _ _ _ (dispatch_comparesS env v.state.start hop hs) ?_
      simp only [Visit.outcome, hop, hs, if_true]
      rfl
    | false =>
      cases hd : op.comparesD with
      | true =>
        have ha : v.action env = _ := dispatch_comparesD env v.state.start hop hd
        have hout : v.outcome env =
            if v.inst.fs &&& 1 ≠ 0 ∨ v.inst.ft &&& 1 ≠ 0 then none
            else some (env.fpu.outcome (v.state.fprD v.inst.fs) (v.state.fprD v.inst.ft)) := by
          simp only [Visit.outcome, hop, hs, hd, if_true, Bool.false_eq_true, if_false]
        by_cases hodd : v.inst.fs &&& 1 ≠ 0 ∨ v.inst.ft &&& 1 ≠ 0
        · refine hsame (by rw [hout, if_pos hodd]) ?_
          have hhalt : v.action env = .halt .oddDouble := by
            rw [ha, Machine.compareD, evenRegs, if_pos (by simpa using hodd)]
          rw [hhalt]
          rfl
        · refine hcompare (v.state.fprD v.inst.fs) (v.state.fprD v.inst.ft) _ ?_ ?_
          · rw [ha, Machine.compareD, evenRegs, if_neg (by simpa using hodd)]
            rfl
          · rw [hout, if_neg hodd]
      | false =>
        refine hsame (by simp [Visit.outcome, hop, hs, hd]) ?_
        have hkeeps : (v.action env).KeepsFcr v.state.start := by
          refine dispatch_keepsFcr env v.state.start hctc1 fun op' hop' => ?_
          cases hop.symm.trans hop'
          exact ⟨hs, hd⟩
        cases ha : v.action env with
        | regs g | branch g | jump g =>
          rw [ha] at hkeeps
          exact hkeeps
        | ctc1 fs x =>
          rw [ha] at hkeeps
          exact hkeeps.elim
        | _ => rfl

/-- Without ctc1, a code is the result of the last comparison that named it. -/
lemma codeOf_controlAfter {f : RegNo → Word} (hf : ∀ k, codeOf f k = false) {k : Byte} (hk : k ≤ 7)
    {older : List Visit} (h : ControlHistory env f older)
    (hctc1 : ∀ u ∈ older, u.inst.opcode ≠ some .ctc1)
    (hn : ∀ u ∈ older, ∀ n b, u.result env = some (n, b) → n ≤ 7) :
    codeOf (controlAfter env f older) k = lastResult env k older := by
  induction older with
  | nil => exact hf k
  | cons v older ih =>
    rw [List.forall_mem_cons] at hctc1 hn
    have hold := ih h.2 hctc1.2 hn.2
    rw [controlAfter, lastResult, codeOf_fcrAfter h.1 hctc1.1 hk hn.1, hold]

end

/-! The records that the assembler makes. -/

/-- The second source of a record, which holds the code of a branch, and its opcode stay as they
are. -/
def sameRt (r : InstRef) : Rel Asm where
  rel s t := r < s.machine.nextInst → r < t.machine.nextInst ∧
    (t.machine.insts r).opcode = (s.machine.insts r).opcode ∧
    (t.machine.insts r).rt = (s.machine.insts r).rt
  refl _ hr := ⟨hr, rfl, rfl⟩
  trans h h' hr := by
    obtain ⟨hr', ho, ht⟩ := h hr
    obtain ⟨hr'', ho', ht'⟩ := h' hr'
    exact ⟨hr'', ho'.trans ho, ht'.trans ht⟩

section

variable {env : Env} {r : InstRef}

lemma sameRt_machine (s : Asm) (m : Machine) (h : s.machine.Records m) :
    (sameRt r).rel s (s.setMachine m) := by
  intro hr
  have hinst : m.insts r = s.machine.insts r := h.insts r hr
  exact ⟨Nat.lt_of_lt_of_le hr h.nextInst, congrArg Inst.opcode hinst, congrArg Inst.rt hinst⟩

lemma sameRt_onMachine {α : Type} {x : Exec α} (hx : Keeps keepsRecords x) :
    Keeps (sameRt r) (onMachine x) := keeps_onMachine sameRt_machine hx

/-- A change of a record that keeps the two fields. -/
lemma sameRt_setInst (s : Asm) (q : InstRef) {i : Inst}
    (ho : i.opcode = (s.machine.insts q).opcode) (ht : i.rt = (s.machine.insts q).rt) :
    (sameRt r).rel s (s.setInst q i) := by
  intro hr
  by_cases hq : r = q
  · subst hq
    refine ⟨hr, ?_, ?_⟩
    · rw [insts_setInst]
      exact ho
    · rw [insts_setInst]
      exact ht
  · have hinst : (s.setInst q i).machine.insts r = s.machine.insts r := Function.update_of_ne hq _ _
    exact ⟨hr, congrArg Inst.opcode hinst, congrArg Inst.rt hinst⟩

lemma sameRt_evalImmExpr (e : ImmExpr) : Keeps (sameRt r) (evalImmExpr e) := by
  have hlog (e : AsmEvent) : Keeps (sameRt r) (logEvent e) := Keeps.modify fun s hr => ⟨hr, rfl, rfl⟩
  refine Keeps.bind ?_ fun _ => Keeps.pure _
  unfold symbolValue
  cases e.symbol with
  | none => exact Keeps.pure _
  | some l =>
    refine Keeps.get_bind fun s => KeepsFrom.ite (fun _ => ?_) fun _ => ?_
    · exact Keeps.bind (hlog _) (fun _ => Keeps.pure _) s
    · exact Keeps.bind (hlog _) (fun _ => Keeps.pure _) s

lemma sameRt_resolveInst {op : Opcode} (hop : op.isBranch = true) (q : InstRef) (e : ImmExpr)
    (pc : Word) : Keeps (sameRt r) (resolveInst env q op e pc) := by
  have hjump : op.isJump = false := by
    cases op <;> first | rfl | cases hop
  refine Keeps.bind ?_ fun v => Keeps.bind (Keeps.onlyIf ?_) fun _ => Keeps.modify fun s => ?_
  · refine Keeps.bind (sameRt_evalImmExpr e) fun v => ?_
    rw [if_pos hop]
    exact Keeps.pure _
  · exact Keeps.bind (Keeps.modify fun s hr => ⟨hr, rfl, rfl⟩) fun _ =>
      sameRt_onMachine (printRel_keepsRecords.instToString _ _)
  · rw [hjump]
    exact sameRt_setInst s q rfl rfl

lemma sameRt_resolveALabel {op : Opcode} (hop : op.isBranch = true) (sym : Option LabelRef)
    {q : InstRef} {s : Asm} (ho : (s.machine.insts q).opcode = some op) :
    KeepsFrom (sameRt r) (resolveALabel env sym q) s := by
  refine KeepsFrom.get_bind (KeepsFrom.get_bind ?_)
  dsimp only
  split
  · rename_i op' e ho' he
    cases ho.symm.trans ho'
    refine KeepsFrom.bind (KeepsFrom.set (sameRt_setInst s q rfl rfl)) fun _ t _ => ?_
    refine KeepsFrom.ite (fun _ => sameRt_resolveInst hop q _ _ t) fun _ => ?_
    exact KeepsFrom.modify fun hr => ⟨hr, rfl, rfl⟩
  · exact KeepsFrom.throw _

lemma sameRt_recordInstUsesSymbol (q : InstRef) (l : LabelRef) :
    Keeps (sameRt r) (recordInstUsesSymbol q l) := by
  have huse (u : LabelUse) : Keeps (sameRt r) (addUse l u) :=
    Keeps.modify fun s hr => ⟨hr, rfl, rfl⟩
  refine Keeps.get_bind fun s => KeepsFrom.ite (fun _ => ?_) fun _ => huse _ s
  refine Keeps.bind ?_ (fun _ => huse _) s
  refine Keeps.get_bind fun s => KeepsFrom.bind (KeepsFrom.set ?_) fun _ _ _ => KeepsFrom.pure _
  exact sameRt_machine s _ (.alloc _ _)

/-- The last thing done is to store a record that is as `P` has it. -/
def EndsStoring (env : Env) (x : Assemble Unit) (P : Inst → Prop) : Prop :=
  ∀ s t, x.run s = .ok () t → ∃ r u, (storeInstruction env r).run u = .ok () t ∧
    r < u.machine.nextInst ∧ P (u.machine.insts r)

lemma endsStoring_storeNew {i : Inst} {P : Inst → Prop} (h : P i) :
    EndsStoring env (storeNew env i) P := by
  intro s t hrun
  obtain ⟨r, u, hnew, hrun⟩ := ok_of_bind hrun
  cases hnew
  refine ⟨_, _, hrun, Nat.lt_succ_self _, ?_⟩
  change P (Function.update s.machine.insts s.machine.nextInst i s.machine.nextInst)
  rw [Function.update_self]
  exact h

/-- A branch whose record has been made. -/
lemma endsStoring_storeExprInst {op : Opcode} (hop : op.isBranch = true) {e : ImmExpr} {rt : Byte}
    {s t : Asm} (hr : r < s.machine.nextInst) (ho : (s.machine.insts r).opcode = some op)
    (ht : (s.machine.insts r).rt = rt) (hrun : (storeExprInst env r e).run s = .ok () t) :
    ∃ r u, (storeInstruction env r).run u = .ok () t ∧ r < u.machine.nextInst ∧
      (u.machine.insts r).opcode = some op ∧ (u.machine.insts r).rt = rt := by
  have hlast {x : Assemble Unit} (hx : KeepsFrom (sameRt r) x s)
      (hrun : (x >>= fun _ => storeInstruction env r).run s = .ok () t) :
      ∃ r u, (storeInstruction env r).run u = .ok () t ∧ r < u.machine.nextInst ∧
        (u.machine.insts r).opcode = some op ∧ (u.machine.insts r).rt = rt := by
    obtain ⟨_, u, hu, hrun⟩ := ok_of_bind hrun
    rw [KeepsFrom, hu] at hx
    obtain ⟨hr', ho', ht'⟩ := hx hr
    exact ⟨r, u, hrun, hr', ho'.trans ho, ht'.trans ht⟩
  cases he : e.symbol with
  | none =>
    rw [storeExprInst_none he] at hrun
    exact hlast (sameRt_resolveALabel hop none ho) hrun
  | some l =>
    cases hd : (s.label l).isDefined with
    | true =>
      rw [storeExprInst_defined he hd] at hrun
      exact hlast (sameRt_resolveALabel hop (some l) ho) hrun
    | false =>
      rw [storeExprInst_undefined he hd] at hrun
      exact hlast (sameRt_recordInstUsesSymbol r l s) hrun

/-- i_type_inst makes a record first. -/
lemma iTypeInst_opens (env : Env) (n : ℕ) (op : Opcode) (rt rs : Word) (e : ImmExpr) (s : Asm) :
    ∃ s₁ : Asm, s₁.machine.insts s.machine.nextInst = openInst op rt rs e ∧
      s.machine.nextInst < s₁.machine.nextInst ∧
      (iTypeInst env (n+1) op rt rs e).run s = (if s₁.symbolDefined e then do
          let value ← evalImmExpr e
          if ¬ env.bareMachine ∧ immTooLarge op e value then
            iTypeInstFullWord env (iTypeInst env n) op rt rs e (some value)
          else storeExprInst env s.machine.nextInst e
        else if env.bareMachine ∨ e.bits ≠ 0 then storeExprInst env s.machine.nextInst e
        else iTypeInstFullWord env (iTypeInst env n) op rt rs e none).run s₁ :=
  ⟨_, Function.update_self _ _ _, Nat.lt_succ_self _, rfl⟩

/-- A branch is stored with the code it was given, also after its label went the long way. -/
lemma endsStoring_branch {op : Opcode} (hop : op.isBranch = true) (n : ℕ) (rt rs : Word)
    (e : ImmExpr) : EndsStoring env (iTypeInst env n op rt rs e)
      fun i => i.opcode = some op ∧ i.rt = rt.setWidth 8 := by
  have hmem : op.isLoadStore = false := by
    cases op <;> first | rfl | cases hop
  induction n generalizing e with
  | zero =>
    intro s t hrun
    cases hrun
  | succ n ih =>
    intro s t hrun
    have hfull (v : Option Word) (s t : Asm)
        (h : (iTypeInstFullWord env (iTypeInst env n) op rt rs e v).run s = .ok () t) :
        ∃ r u, (storeInstruction env r).run u = .ok () t ∧ r < u.machine.nextInst ∧
          (u.machine.insts r).opcode = some op ∧ (u.machine.insts r).rt = rt.setWidth 8 := by
      rw [fullWord_branch _ hmem hop] at h
      exact ih _ s t h
    obtain ⟨s₁, hrec, hnext, hopens⟩ := iTypeInst_opens env n op rt rs e s
    rw [hopens] at hrun
    have hstore (t₁ t : Asm) (hm : t₁.machine = s₁.machine)
        (h : (storeExprInst env s.machine.nextInst e).run t₁ = .ok () t) :
        ∃ r u, (storeInstruction env r).run u = .ok () t ∧ r < u.machine.nextInst ∧
          (u.machine.insts r).opcode = some op ∧ (u.machine.insts r).rt = rt.setWidth 8 := by
      refine endsStoring_storeExprInst hop (hm ▸ hnext) ?_ ?_ h
      · rw [hm, hrec]
        rfl
      · rw [hm, hrec]
        rfl
    split at hrun
    · obtain ⟨v, s₂, heval, hrun⟩ := ok_of_bind hrun
      have hm := evalImmExpr_machine heval
      split at hrun
      · exact hfull _ _ _ hrun
      · exact hstore _ _ hm hrun
    · split at hrun
      · exact hstore _ _ rfl hrun
      · exact hfull _ _ _ hrun

end

/-! Statements. -/

/-- A statement that compares, or tests a condition code, with the number of the code if it gives
one. -/
inductive CodeLine
  | compare (op : Opcode) (n : Option (Fin 8)) (fs ft : Fin 32)
  | branch (op : Opcode) (n : Option (Fin 8)) (label : String)
  | move (op : Opcode) (rd rs : Fin 32) (n : Option (Fin 8))
  | moveFp (op : Opcode) (fd fs : Fin 32) (n : Option (Fin 8))
  deriving DecidableEq, Repr

/-- The number of a code, as a token. -/
def codeToken (n : Option (Fin 8)) : List Token := (n.map fun n => .int (BitVec.ofNat 32 n)).toList

/-- The code that a number gives; 0 by default. -/
def codeNo (n : Option (Fin 8)) : Byte := BitVec.ofNat 8 (n.getD 0)

namespace CodeLine

def tokens : CodeLine → List Token
  | compare op n fs ft =>
    .keyword (.op op) :: (codeToken n ++ [.fpReg (regWord fs), .fpReg (regWord ft)])
  | branch op n label => .keyword (.op op) :: (codeToken n ++ [.id label])
  | move op rd rs n => .keyword (.op op) :: .reg (regWord rd) :: .reg (regWord rs) :: codeToken n
  | moveFp op fd fs n =>
    .keyword (.op op) :: .fpReg (regWord fd) :: .fpReg (regWord fs) :: codeToken n

/-- The operation is of the kind of the statement. -/
def WellFormed : CodeLine → Prop
  | compare op _ _ _ => op.comparesS = true ∨ op.comparesD = true
  | branch op _ _ => op = .bc1f ∨ op = .bc1fl ∨ op = .bc1t ∨ op = .bc1tl
  | move op _ _ _ => op = .movf ∨ op = .movt
  | moveFp op _ _ _ => op = .movfS ∨ op = .movfD ∨ op = .movtS ∨ op = .movtD

/-- The instruction has the operation of the statement, and names its code in the field where the
switch looks for it. A comparison has its condition there too, and a branch what it tests for. -/
def Names : CodeLine → Inst → Prop
  | compare op n _ _, i => i.opcode = some op ∧ i.ccfp = codeNo n ∧ some i.cond = condOf op
  | branch op n _, i => i.opcode = some op ∧ i.cc = codeNo n ∧
      i.tf = (if op.isTrueBranch then 1 else 0) ∧ i.nd = (if op.isNullifiedBranch then 1 else 0)
  | move op _ _ n, i => i.opcode = some op ∧ i.cc = codeNo n
  | moveFp op _ _ n, i => i.opcode = some op ∧ i.cc = codeNo n

/-- The statement, up to its end, is parsed into one node, and emitting the node ends with the
storing of an instruction that names the code. -/
def Assembles (env : AsmEnv) (line : CodeLine) : Prop :=
  ∀ t : Token, t.ends → Parses (parseAsmCode env) (line.tokens ++ [t]) fun ns =>
    ∃ n, ns = [n] ∧ EndsStoring env.toEnv (emitInst env.toEnv n) line.Names

end CodeLine

section

variable {env : AsmEnv}

lemma reads_fpRegister (n : Word) (rest : List Token) :
    Reads (parseFpRegister env) (.fpReg n :: rest) (Gives n [] rest) :=
  (Reads.take (f := Token.asFpReg) rfl).then_ (.pure n)

/-- A condition code is read if there is one. -/
lemma reads_cc (n : Option (Fin 8)) {t : Token} (ht : t.asInt = none) (rest : List Token) :
    Reads (parseCc env) (codeToken n ++ t :: rest)
      (Gives (BitVec.ofNat 32 (n.getD 0)) [] (t :: rest)) := by
  cases n with
  | none => exact (Reads.leave ht).then_ (.pure _)
  | some n => exact (Reads.take (f := Token.asInt) rfl).then_ (.pure _)

lemma ccfp_shift : ∀ k : Fin 8,
    ((BitVec.ofNat 32 k).setWidth 8 <<< 2 : Byte) >>> 2 = BitVec.ofNat 8 k := by
  decide

lemma cc_shift : ∀ k : Fin 8,
    (((BitVec.ofNat 32 k &&& 0x7) <<< 2 : Word).setWidth 8 : Byte) >>> 2 = BitVec.ofNat 8 k := by
  decide

/-- The fields that cc_to_rt packs. -/
lemma ccToRt_fields : ∀ (k : Fin 8) (nd tf : Bool),
    ((ccToRt (BitVec.ofNat 32 k) nd tf).setWidth 8 : Byte) >>> 2 = BitVec.ofNat 8 k ∧
    ((ccToRt (BitVec.ofNat 32 k) nd tf).setWidth 8 : Byte) &&& 1 = (if tf then 1 else 0) ∧
    (((ccToRt (BitVec.ofNat 32 k) nd tf).setWidth 8 : Byte) &&& 2) >>> 1 =
      (if nd then 1 else 0) := by
  decide

lemma condOf_compares {op : Opcode} (h : op.comparesS = true ∨ op.comparesD = true) :
    ∃ c, condOf op = some c ∧ op.opType = .fpCmpFsFt := by
  cases op
  all_goals first
    | exact ⟨_, rfl, rfl⟩
    | exact absurd h (by decide)

/-- What is read and appended, as the node of a statement. -/
lemma assembles_of_reads {line : CodeLine} {op : Opcode} {ts : List Token}
    (htokens : line.tokens = .keyword (.op op) :: ts)
    (hreads : ∀ t : Token, t.ends → Reads (parseOp env op) (ts ++ [t])
      fun _ ns _ => ∃ n, ns = [n] ∧ EndsStoring env.toEnv (emitInst env.toEnv n) line.Names) :
    line.Assembles env := by
  intro t ht
  rw [htokens]
  exact .ofOp (.of_reads (hreads t ht))

lemma compare_assembles {op : Opcode} (hop : op.comparesS = true ∨ op.comparesD = true)
    (n : Option (Fin 8)) (fs ft : Fin 32) : (CodeLine.compare op n fs ft).Assembles env := by
  obtain ⟨c, hc, htype⟩ := condOf_compares hop
  refine assembles_of_reads rfl fun t _ => ?_
  have hparse : parseOp env op = parseFpCmp env op := by rw [parseOp, htype]
  rw [hparse, List.append_assoc]
  refine (reads_cc n rfl _).then_ ((reads_fpRegister _ _).then_ ((reads_fpRegister _ _).then_ ?_))
  refine (Reads.append _).mono ?_
  rintro _ _ _ ⟨-, rfl, -⟩
  refine ⟨_, rfl, endsStoring_storeNew ⟨opcode_makeRCondTypeInst _ _ _ _, ?_, ?_⟩⟩
  · rw [makeRCondTypeInst, hc]
    exact ccfp_shift _
  · rw [makeRCondTypeInst, hc]
    rfl

lemma branch_assembles {op : Opcode} (hop : op = .bc1f ∨ op = .bc1fl ∨ op = .bc1t ∨ op = .bc1tl)
    (n : Option (Fin 8)) (label : String) : (CodeLine.branch op n label).Assembles env := by
  have hparse : parseOp env op = parseBranchCoproc env op ∧ op.isBranch = true := by
    rcases hop with rfl | rfl | rfl | rfl <;> exact ⟨rfl, rfl⟩
  refine assembles_of_reads rfl fun t _ => ?_
  rw [hparse.1, List.append_assoc]
  refine (reads_cc n rfl _).then_ ((Reads.label label).bind ?_)
  rintro e _ ts ⟨-, rfl⟩
  refine (Reads.append _).mono ?_
  rintro _ _ _ ⟨-, rfl, -⟩
  refine ⟨_, rfl, fun s t hrun => ?_⟩
  obtain ⟨r, u, hstore, hr, ho, ht⟩ := endsStoring_branch hparse.2 _ _ _ _ s t hrun
  obtain ⟨hcc, htf, hnd⟩ := ccToRt_fields (n.getD 0) op.isNullifiedBranch op.isTrueBranch
  refine ⟨r, u, hstore, hr, ho, ?_, ?_, ?_⟩
  · rw [Inst.cc, ht]
    exact hcc
  · rw [Inst.tf, ht]
    exact htf
  · rw [Inst.nd, ht]
    exact hnd

lemma move_assembles {op : Opcode} (hop : op = .movf ∨ op = .movt) (rd rs : Fin 32)
    (n : Option (Fin 8)) : (CodeLine.move op rd rs n).Assembles env := by
  have hparse : parseOp env op = parseMovc env op := by
    rcases hop with rfl | rfl <;> rfl
  refine assembles_of_reads rfl fun t ht => ?_
  rw [hparse]
  refine (Reads.register _).then_ ((Reads.register _).then_ ?_)
  refine (reads_cc n (Token.ends_asInt ht) []).then_ ((Reads.append _).mono ?_)
  rintro _ _ _ ⟨-, rfl, -⟩
  exact ⟨_, rfl, endsStoring_storeNew ⟨rfl, cc_shift _⟩⟩

lemma moveFp_assembles {op : Opcode} (hop : op = .movfS ∨ op = .movfD ∨ op = .movtS ∨ op = .movtD)
    (fd fs : Fin 32) (n : Option (Fin 8)) : (CodeLine.moveFp op fd fs n).Assembles env := by
  have hparse : parseOp env op = parseFpMovc env op := by
    rcases hop with rfl | rfl | rfl | rfl <;> rfl
  refine assembles_of_reads rfl fun t ht => ?_
  have hleave : Reads (takeToken env Token.asReg) (codeToken n ++ [t])
      (Gives none [] (codeToken n ++ [t])) := by
    cases n with
    | none =>
      refine Reads.leave ?_
      cases t with
      | reg r => cases ht
      | _ => rfl
    | some k => exact Reads.leave rfl
  rw [hparse]
  refine (reads_fpRegister _ _).then_ ((reads_fpRegister _ _).then_ (hleave.then_ ?_))
  refine (reads_cc n (Token.ends_asInt ht) []).then_ ((Reads.append _).mono ?_)
  rintro _ _ _ ⟨-, rfl, -⟩
  exact ⟨_, rfl, endsStoring_storeNew ⟨rfl, cc_shift _⟩⟩

end

lemma codeOf_initial (m : Machine) (k : Byte) : codeOf m.initializeRegisters.fcr k = false := by
  have hfcsr : m.initializeRegisters.fcr 31 = 0 :=
    Function.update_self (31 : RegNo) _ (Function.update m.fcr 0 0x00009800)
  unfold codeOf
  rw [hfcsr]
  simp

/-- A statement names its condition code where the switch looks for it; and in a run that begins
with the codes clear and writes FCSR by comparisons only, a test sees the result of the last
comparison that named its code. -/
theorem condition_codes_independent (env : AsmEnv) :
    (∀ line : CodeLine, line.WellFormed → line.Assembles env) ∧
    ∀ (display : Bool) (depth : ℕ) (pc : Word) (steps : ℕ) (contBkpt : Bool) (s : Narrator)
      (m : Machine) (c : Core), c.fcr = m.initializeRegisters.fcr →
      ∀ (newer : List Visit) (v : Visit) (older : List Visit),
        (final ((runProgram env.toEnv display depth pc steps contBkpt s).run c.start)).visits =
          newer ++ v :: older →
        (∀ u ∈ older, u.inst.opcode ≠ some .ctc1) →
        (∀ u ∈ older, ∀ n b, u.result env.toEnv = some (n, b) → n ≤ 7) →
        ∀ op, v.inst.opcode = some op → op.testsCode = true → v.inst.cc ≤ 7 →
          v.state.start.testWith v.inst (lastResult env.toEnv v.inst.cc older) =
            some (v.action env.toEnv) := by
  constructor
  · intro line hline
    cases line with
    | compare op n fs ft => exact compare_assembles hline n fs ft
    | branch op n label => exact branch_assembles hline n label
    | move op rd rs n => exact move_assembles hline rd rs n
    | moveFp op fd fs n => exact moveFp_assembles hline fd fs n
  · intro display depth pc steps contBkpt s m c hc newer v older hvisits hctc1 hcodes op hop htest hk
    have hhist := (runProgram_control env.toEnv display depth pc steps contBkpt s c).recorded
    rw [hvisits, hc] at hhist
    have hsees : codeOf v.state.fcr v.inst.cc = lastResult env.toEnv v.inst.cc older := by
      rw [hhist.finds]
      exact codeOf_controlAfter (codeOf_initial m) hk hhist.older hctc1 hcodes
    rw [← hsees]
    exact dispatch_test env.toEnv v.state.start hop htest

/-- Arithmetic in which singles are equal when their bits are. -/
def bitwiseEqual : AsmEnv :=
  { Env.quiet with
    fpu := { Fpu.none with
      ofSingle := fun v => v.setWidth 64
      eq := fun v1 v2 => v1 == v2 } }

/-- `c.eq.s 3, $f0, $f1`, `c.f.s 5, $f0, $f1` and `movt $8, $9, 3`. -/
def comparesTwice : Core :=
  { Machine.ofText [makeRCondTypeInst .cEqS 0 1 3, makeRCondTypeInst .cFS 0 1 5,
      makeRTypeInst .movt 8 9 (3 <<< 2)] with
    fcr := (({} : Machine).initializeRegisters).fcr }

/-- The last of these instructions is a movt of code 3, which the older ones have set. -/
def movtSeesSet (env : Env) : List Visit → Bool
  | [] => false
  | v :: older => v.inst.opcode = some .movt && v.inst.cc = 3 && lastResult env 3 older &&
      older.all fun u => u.inst.opcode ≠ some .ctc1 && (u.result env).all fun p => p.1 ≤ 7

/-- The third instruction sees the result of the first. -/
theorem condition_codes_independent_movt : ∃ v older,
    (final ((runProgram bitwiseEqual.toEnv false 1 0x400000 3 false {}).run
      comparesTwice.start)).visits = v :: older ∧
    v.state.start.testWith v.inst true = some (v.action bitwiseEqual.toEnv) := by
  have hset : movtSeesSet bitwiseEqual.toEnv (final ((runProgram bitwiseEqual.toEnv false 1 0x400000
      3 false {}).run comparesTwice.start)).visits = true := by decide +kernel
  cases hvis : (final ((runProgram bitwiseEqual.toEnv false 1 0x400000 3 false {}).run
      comparesTwice.start)).visits with
  | nil =>
    rw [hvis] at hset
    cases hset
  | cons v older =>
    rw [hvis] at hset
    simp only [movtSeesSet, Bool.and_eq_true, decide_eq_true_eq, List.all_eq_true] at hset
    obtain ⟨⟨⟨hop, hcc⟩, hlast⟩, hall⟩ := hset
    have hsees := (condition_codes_independent bitwiseEqual).2 false 1 0x400000 3 false {} {}
      comparesTwice rfl [] v older hvis (fun u hu => (hall u hu).1)
      (fun u hu n b hr => ?_) .movt hop rfl (by rw [hcc]; decide)
    · rw [hcc, hlast] at hsees
      exact ⟨v, older, rfl, hsees⟩
    · have hle := (hall u hu).2
      rw [hr] at hle
      simpa using hle

end Spimulator
