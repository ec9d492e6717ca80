import Spimulator.PseudoArith
import Spimulator.Undisturbed

/-! Straight-line programs: instructions and pseudo-ops that are assembled one after the other, and
then run by run_spim. -/
namespace Spimulator
open Frame CodeBlock Relation

/-! Instructions that leave text alone. -/

/-- An instruction that neither loads, stores nor asks the host. -/
def Opcode.computes (op : Opcode) : Bool := ¬ op.isLoadStore ∧ op ≠ .syscall

def Inst.computes (i : Inst) : Prop := ∀ op, i.opcode = some op → op.computes = true

/-- A case of the switch that does not go to memory. -/
def Action.atRegisters : Action → Bool
  | .regs _ | .raise _ | .ctc1 .. | .branch .. | .jump .. | .debugBreak | .halt _ => true
  | _ => false

section

variable {env : Env} (m : Machine)

lemma atRegisters_ite {a b : Action} {c : Prop} [Decidable c] (ha : a.atRegisters = true)
    (hb : b.atRegisters = true) : (if c then a else b).atRegisters = true := by
  split
  · exact ha
  · exact hb

lemma atRegisters_evenRegs (rs : List RegNo) {a : Action} (ha : a.atRegisters = true) :
    (evenRegs rs a).atRegisters = true := atRegisters_ite rfl ha

lemma atRegisters_setFdD (i : Inst) (v : BitVec 64) : (m.setFdD i v).atRegisters = true :=
  atRegisters_evenRegs _ rfl

lemma atRegisters_dispatch {i : Inst} (h : i.computes) : (dispatch env i m).atRegisters = true := by
  cases hop : i.opcode with
  | none =>
    simp only [dispatch, hop]
    rfl
  | some op =>
    have hcomputes := h op hop
    cases op
    all_goals simp only [dispatch, hop]
    all_goals first
      | rfl
      | exact absurd hcomputes (by decide)
      | exact atRegisters_ite rfl rfl
      | exact atRegisters_evenRegs _ rfl
      | exact atRegisters_evenRegs _ (atRegisters_setFdD m i _)
      | exact atRegisters_ite (atRegisters_evenRegs _ (atRegisters_setFdD m i _)) rfl
      | exact atRegisters_ite (atRegisters_ite rfl rfl) rfl
      | exact atRegisters_evenRegs _ (atRegisters_ite (atRegisters_ite rfl rfl) rfl)

end

/-- The machines have the same instructions in text, and the same labels. -/
structure SameText (m t : Machine) : Prop where
  textTop : t.textTop = m.textTop
  textSeg : t.textSeg = m.textSeg
  kTextTop : t.kTextTop = m.kTextTop
  kTextSeg : t.kTextSeg = m.kTextSeg
  insts : t.insts = m.insts
  labels : t.labels = m.labels

namespace SameText

variable {m t u : Machine}

lemma refl (m : Machine) : SameText m m := ⟨rfl, rfl, rfl, rfl, rfl, rfl⟩

lemma trans (h : SameText m t) (h' : SameText t u) : SameText m u :=
  ⟨h'.textTop.trans h.textTop, h'.textSeg.trans h.textSeg, h'.kTextTop.trans h.kTextTop,
    h'.kTextSeg.trans h.kTextSeg, h'.insts.trans h.insts, h'.labels.trans h.labels⟩

lemma instAtWord (h : SameText m t) (a : Word) : t.instAtWord a = m.instAtWord a := by
  have hin : t.inText a ↔ m.inText a := inText_congr h.textTop a
  have hkin : t.inKText a ↔ m.inKText a := by
    simp only [Machine.inKText, h.kTextTop]
  simp only [Machine.instAtWord, hin, hkin, h.textSeg, h.kTextSeg]

lemma holds (h : SameText m t) {a : Word} {i : Inst} (hi : m.Holds a i) : t.Holds a i where
  record := by
    rw [h.instAtWord, h.insts]
    exact hi.record
  defined l hl := by
    rw [h.labels]
    exact hi.defined l hl

end SameText

def sameText : Rel Machine where
  rel := SameText
  refl := SameText.refl
  trans := SameText.trans

lemma sameText_raise (m : Machine) (e : ExcCode) : SameText m (m.raiseException e) := by
  obtain ⟨c, b, f, h⟩ := m.raiseException_eq e
  rw [h]
  exact ⟨rfl, rfl, rfl, rfl, rfl, rfl⟩

lemma sameText_perform {env : Env} (hb : env.delayedBranches = false) {ν : Type}
    (slot : ν → Exec ν) (s : ν) {a : Action} (ha : a.atRegisters = true) :
    Keeps sameText (perform env slot s a) := by
  have hjump (target : JumpTarget) : Keeps sameText (jumpInst env slot s target) := by
    simp only [jumpInst, hb, Bool.false_eq_true, if_false]
    exact Keeps.bind (Keeps.modify fun m => ⟨rfl, rfl, rfl, rfl, rfl, rfl⟩) fun _ => Keeps.pure _
  have hmodify {f : Machine → Machine} {r : Flow × ν} (hf : ∀ m, SameText m (f m)) :
      Keeps sameText (do
        modify f
        pure r : Exec (Flow × ν)) := Keeps.bind (Keeps.modify hf) fun _ => Keeps.pure _
  cases a with
  | regs g => exact hmodify fun m => ⟨rfl, rfl, rfl, rfl, rfl, rfl⟩
  | raise e => exact hmodify fun m => sameText_raise m e
  | ctc1 fs v =>
    refine hmodify fun m => ?_
    unfold Machine.ctc1
    dsimp only
    split
    · exact (⟨rfl, rfl, rfl, rfl, rfl, rfl⟩ : SameText m (m.setFcr fs v)).trans (sameText_raise _ _)
    · exact ⟨rfl, rfl, rfl, rfl, rfl, rfl⟩
  | branch g test target nullify =>
    refine Keeps.bind (Keeps.modify fun m => ⟨rfl, rfl, rfl, rfl, rfl, rfl⟩) fun _ => ?_
    refine Keeps.ite (fun _ => ?_) fun _ => ?_
    · exact Keeps.bind (hjump _) fun _ => Keeps.pure _
    · exact hmodify fun m => ⟨rfl, rfl, rfl, rfl, rfl, rfl⟩
  | jump g target =>
    refine Keeps.bind (Keeps.modify fun m => ⟨rfl, rfl, rfl, rfl, rfl, rfl⟩) fun _ => ?_
    exact Keeps.bind (hjump target) fun _ => Keeps.pure _
  | debugBreak => exact hmodify fun m => sameText_raise m .bp
  | halt h => exact Keeps.throw _
  | _ => cases ha

lemma InstRuns.sameText {env : Env} {i : Inst} {m t : Machine} (h : InstRuns env i m t)
    (hb : env.delayedBranches = false) (hi : i.computes) : SameText m t := by
  have hk : Keeps Spimulator.sameText (executeInst env (Pure.pure : Unit → Exec Unit) () i) := by
    refine Keeps.bind (Keeps.modify fun m => ⟨rfl, rfl, rfl, rfl, rfl, rfl⟩) fun _ => ?_
    refine Keeps.get_bind fun m => Keeps.bind
      (sameText_perform hb _ _ (atRegisters_dispatch m hi)) (fun _ => ?_) m
    refine Keeps.bind (Keeps.modify fun m => ?_) fun _ => Keeps.pure _
    unfold deliver
    split <;> exact ⟨rfl, rfl, rfl, rfl, rfl, rfl⟩
  exact hk.ok (h Unit Pure.pure ())

/-! Blocks in text. -/

/-- The block is in text from an address on, up to encodings, and its symbols are defined. -/
def Machine.HoldsCode (m : Machine) (start : Word) (code : List Inst) : Prop :=
  ∀ k i, code[k]? = some i → ∃ j, m.Holds (slot 4 start k) j ∧ j.SameFields i

lemma Inst.SameFields.computes {i j : Inst} (h : j.SameFields i) (hi : i.computes) : j.computes :=
  fun op hop => hi op (h.1.symm.trans hop)

/-- A step of a block in text is an instruction that run_spim carries out. -/
lemma step_executed {env : Env} {start : Word} {code : List Inst} {m t : Machine}
    (hcode : m.HoldsCode start code) (hcomputes : ∀ i ∈ code, i.computes)
    (h : Step 4 (fun m : Machine => m.pc) (InstRuns env) start code m t) : ExecutesAtPc env m t := by
  obtain ⟨hpc, hk, hr⟩ := h
  rename_i k i
  obtain ⟨j, hj, hfields⟩ := hcode k i hk
  refine ⟨j, ?_, fun hop => ?_, hr.congr hfields.symm⟩
  · rw [hpc]
    exact hj
  · have := hfields.computes (hcomputes i (List.mem_of_getElem? hk)) _ hop
    cases this

/-- So many instructions of a run of a block in text, which stays as it is. -/
theorem codeRuns_executed {env : Env} (hb : env.delayedBranches = false) {start : Word}
    {code : List Inst} {m t : Machine} (hcode : m.HoldsCode start code)
    (hcomputes : ∀ i ∈ code, i.computes) (h : CodeRuns env start code m t) :
    ∃ n, Executed env n m t := by
  induction h using ReflTransGen.head_induction_on with
  | refl => exact ⟨0, .zero t⟩
  | head hs _ ih =>
    rename_i m u _
    have hsame : SameText m u := by
      obtain ⟨-, hk, hr⟩ := hs
      exact hr.sameText hb (hcomputes _ (List.mem_of_getElem? hk))
    obtain ⟨n, hn⟩ := ih fun k i hk => by
      obtain ⟨j, hj, hfields⟩ := hcode k i hk
      exact ⟨j, hsame.holds hj, hfields⟩
    exact ⟨n + 1, .succ (step_executed hcode hcomputes hs) hn⟩

/-! Assembled code. -/

/-- Every instruction that the node is emitted as computes. -/
def InstNode.computes (n : InstNode) : Prop := ∀ disp, ∀ i ∈ n.code disp, i.computes

/-- The statement is made of instructions. -/
def AstNode.isInsts : AstNode → Bool
  | .inst _ | .pseudo _ => true
  | _ => false

lemma computes_of {op : Opcode} (h : op.computes = true) {i : Inst} (hi : i.opcode = some op) :
    i.computes := by
  rintro o ho
  rw [hi] at ho
  cases ho
  exact h

lemma produceCode_computes (rt v : Word) : ∀ i ∈ produceCode rt v, i.computes := by
  intro i hi
  have hlui : Opcode.lui.computes = true := rfl
  have hori : Opcode.ori.computes = true := rfl
  unfold produceCode at hi
  split at hi
  · rw [List.mem_singleton.mp hi]
    exact computes_of hlui rfl
  · split at hi
    · rw [List.mem_singleton.mp hi]
      exact computes_of hori rfl
    · rcases List.mem_pair.mp hi with rfl | rfl
      · exact computes_of hlui rfl
      · exact computes_of hori rfl

lemma immOpToOp_computes {op o : Opcode} (h : immOpToOp op = some o) : o.computes = true := by
  unfold immOpToOp at h
  split at h
  all_goals first
    | cases h; rfl
    | cases h

lemma constCode_computes {op : Opcode} (hop : op.computes = true) (rt rs v : Word) :
    ∀ i ∈ constCode op rt rs v, i.computes := by
  intro i hi
  unfold constCode at hi
  split at hi
  · split at hi
    · exact produceCode_computes rt v i hi
    · rcases List.mem_append.mp hi with hi | hi
      · exact produceCode_computes 1 v i hi
      · cases ho : immOpToOp op with
        | none =>
          rw [ho] at hi
          cases hi
        | some o =>
          rw [ho] at hi
          rw [List.mem_singleton.mp hi]
          exact computes_of (immOpToOp_computes ho) rfl
  · rw [List.mem_singleton.mp hi]
    exact computes_of hop rfl

/-- The operation of a node. -/
def InstNode.op : InstNode → Opcode
  | .r op .. | .rShift op .. | .i op .. | .j op .. | .fpR op .. | .fpCompare op .. => op

lemma InstNode.computes_of_op {n : InstNode} (h : n.op.computes = true) : n.computes := by
  intro disp i hi
  cases n with
  | i op rt rs imm =>
    simp only [code] at hi
    split at hi
    · exact constCode_computes h rt rs imm.offset i hi
    · rw [List.mem_singleton.mp hi]
      exact Spimulator.computes_of h rfl
  | fpCompare op fs ft cc =>
    rw [List.mem_singleton.mp hi]
    refine Spimulator.computes_of h ?_
    unfold makeRCondTypeInst
    dsimp only
    split <;> rfl
  | _ =>
    rw [List.mem_singleton.mp hi]
    exact Spimulator.computes_of h rfl

section

variable {env : Env} {s t u : Asm}

/-- The code of nodes that name no label, in a row. -/
def codeOfAll (ns : List InstNode) : List Inst := ns.flatMap fun n => n.code 0

lemma code_fixed {n : InstNode} (h : n.fixed) (disp : Half) : n.code disp = n.code 0 := by
  cases n with
  | i op rt rs imm =>
    obtain ⟨hplain, hlabel⟩ := h
    simp only [InstNode.code]
    split
    · rfl
    · rename_i hsym
      rw [InstNode.plain, if_neg hsym] at hplain
      simp [InstNode.isLabelBranch, hplain, Option.isSome_iff_ne_none, hsym] at hlabel
  | _ => rfl

lemma codeOfAll_placed {ns : List InstNode} (h : ∀ n ∈ ns, n.fixed) (target pc : Word) :
    Placed target pc ns (codeOfAll ns) := by
  induction ns generalizing pc with
  | nil => rfl
  | cons n ns ih =>
    refine ⟨0, codeOfAll ns, rfl, fun hlabel => ?_, ih (fun k hk => h k (List.mem_cons_of_mem _ hk)) _⟩
    rw [(h n List.mem_cons_self).2] at hlabel
    cases hlabel

lemma mem_codeOfAll {ns : List InstNode} (h : ∀ n ∈ ns, n.computes) : ∀ i ∈ codeOfAll ns, i.computes := by
  intro i hi
  obtain ⟨n, hn, hi⟩ := List.mem_flatMap.mp hi
  exact h n hn 0 i hi

/-- No label moves. -/
def sameAddrs : Rel Asm := Rel.same fun s l => (s.label l).addr

theorem storeRel_sameAddrs : StoreRel sameAddrs where
  machine s m h := by
    funext l
    exact congrArg (fun k : Label => k.addr) (congrFun h.labels l)
  setInst _ _ _ _ := rfl
  log _ _ _ := rfl
  use _ _ _ := rfl
  addUse s l u _ _ := by
    funext k
    change (Function.update s.machine.labels l _ k).addr = _
    by_cases hk : k = l
    · subst hk
      rw [Function.update_self]
    · rw [Function.update_of_ne hk]
      rfl
  dataPc s v := by
    unfold Asm.setDataPc
    split <;> rfl
  textPc s v := by
    unfold Asm.setTextPc
    split <;> rfl

/-- Code is stored, no label waits for the next statement, and none moves. -/
structure StoresAll (code : List Inst) (s t : Asm) : Prop where
  stores : Stores code s t
  line : t.thisLineLabels = []
  addrs : sameAddrs.rel s t

namespace StoresAll

lemma user {code : List Inst} (h : StoresAll code s t) : UserText t := h.stores.fill.user

lemma refl (hs : UserText s) (hline : s.thisLineLabels = []) : StoresAll [] s s :=
  ⟨.refl hs, hline, rfl⟩

lemma trans {code code' : List Inst} (hs : UserText s) (h : StoresAll code s t)
    (h' : StoresAll code' t u) : StoresAll (code ++ code') s u :=
  ⟨h.stores.trans hs h'.stores, h'.line, sameAddrs.trans h.addrs h'.addrs⟩

end StoresAll

lemma clearLabels_none (env : Env) (h : s.thisLineLabels = []) :
    (clearLabels env).run s = .ok () s := by
  change (clearLabelList env s.thisLineLabels).run s = _
  rw [h]
  rfl

variable (hb : env.delayedBranches = false) (hbare : env.bareMachine = false)

include hb hbare

lemma emitInst_storesAll (hs : UserText s) (hline : s.thisLineLabels = []) {n : InstNode}
    (hn : n.fixed) (h : (emitInst env n).run s = .ok () t) : StoresAll (n.code 0) s t where
  stores := by
    obtain ⟨disp, hstores⟩ := emitInst_stores hs hn.1 hb hbare h
    rwa [code_fixed hn] at hstores
  line := ((storeRel_thisLineLabels.emitInst env n).ok h).trans hline
  addrs := (storeRel_sameAddrs.emitInst env n).ok h

lemma emitChildren_storesAll (hs : UserText s) (hline : s.thisLineLabels = []) {ns : List InstNode}
    (hns : ∀ n ∈ ns, n.fixed) (h : (emitChildren env ns).run s = .ok () t) :
    StoresAll (codeOfAll ns) s t := by
  induction ns generalizing s with
  | nil =>
    cases h
    exact .refl hs hline
  | cons n ns ih =>
    obtain ⟨_, s₁, h₁, h⟩ := ok_of_bind h
    have hfirst := emitInst_storesAll hb hbare hs hline (hns n List.mem_cons_self) h₁
    rw [run_bind_of_ok (clearLabels_none env hfirst.line)] at h
    exact hfirst.trans hs (ih hfirst.user hfirst.line (fun k hk => hns k (List.mem_cons_of_mem _ hk)) h)

lemma emitNode_storesAll (hs : UserText s) (hline : s.thisLineLabels = [])
    {n : NodeRef × AstNode} (hn : n.2.isInsts = true) (hns : ∀ i ∈ n.2.insts, i.fixed)
    (h : (emitNode env n).run s = .ok () t) : StoresAll (codeOfAll n.2.insts) s t := by
  obtain ⟨_, s₁, ⟨⟩, h⟩ := ok_of_bind h
  obtain ⟨_, s₂, h₂, h⟩ := ok_of_bind h
  have hlog : StoresAll [] s (s.log (.emitted n.1)) :=
    ⟨.nil (userText_log hs n.1) (Nat.le_refl _) (fun _ _ => sameFields_rfl _) rfl, hline, rfl⟩
  have hone : StoresAll (codeOfAll n.2.insts) (s.log (.emitted n.1)) s₂ := by
    obtain ⟨k, n⟩ := n
    cases n with
    | inst i =>
      rw [codeOfAll, AstNode.insts, List.flatMap_singleton]
      exact emitInst_storesAll hb hbare hlog.user hline (hns i List.mem_cons_self) h₂
    | pseudo ns => exact emitChildren_storesAll hb hbare hlog.user hline hns h₂
    | _ => cases hn
  have hclear : t = s₂ := by
    have hrun : (onlyIf (n.2.keepsLabels = false) (clearLabels env)).run s₂ = .ok () s₂ := by
      unfold onlyIf
      split
      · exact clearLabels_none env hone.line
      · rfl
    rw [hrun] at h
    cases h
    rfl
  rw [hclear]
  exact hlog.trans hs hone

/-- Statements made of fixed instructions are stored one after the other. -/
theorem emitNodes_storesAll (hs : UserText s) (hline : s.thisLineLabels = [])
    {nodes : List (NodeRef × AstNode)} (hn : ∀ n ∈ nodes, n.2.isInsts = true)
    (hns : ∀ i ∈ instsOf nodes, i.fixed) (h : (emitNodes env nodes).run s = .ok () t) :
    StoresAll (codeOfAll (instsOf nodes)) s t := by
  induction nodes generalizing s with
  | nil =>
    cases h
    exact .refl hs hline
  | cons n nodes ih =>
    have hinsts : instsOf (n :: nodes) = n.2.insts ++ instsOf nodes := rfl
    rw [hinsts] at hns ⊢
    rw [emitNodes_cons] at h
    obtain ⟨_, s₁, h₁, h⟩ := ok_of_bind h
    have hfirst := emitNode_storesAll hb hbare hs hline (hn n List.mem_cons_self)
      (fun i hi => hns i (List.mem_append_left _ hi)) h₁
    have hrest := ih hfirst.user hfirst.line (fun k hk => hn k (List.mem_cons_of_mem _ hk))
      (fun i hi => hns i (List.mem_append_right _ hi)) h
    rw [codeOfAll, List.flatMap_append]
    exact hfirst.trans hs hrest

end

/-- Every symbol that an instruction in text names is defined. -/
def Machine.Linked (m : Machine) : Prop := ∀ a r, m.instAtWord a = some r →
  ∀ l, (m.insts r).expr.bind ImmExpr.symbol = some l → (m.labels l).addr ≠ 0

/-- What was stored is in text. -/
lemma Stores.holdsCode {s t : Asm} {m : Machine} {code : List Inst} (h : Stores code s t)
    (ht : SameText t.machine m) (hm : m.Linked) : m.HoldsCode s.nextTextPc code := by
  intro k i hk
  have hlt := (List.getElem?_eq_some_iff.mp hk).1
  obtain ⟨r, -, hseg, hfields⟩ := h.stored k i hk
  have hin := h.fill.inside (s.textSlot k) (mem_wordsFrom.mpr ⟨k, hlt, rfl⟩)
  have hin' : m.inText (s.textSlot k) :=
    (inText_congr (ht.textTop.trans h.fill.textTop) _).mpr hin.1
  have hat : m.instAtWord (s.textSlot k) = some r := by
    rw [Machine.instAtWord, if_pos ⟨hin', hin.2⟩, ht.textSeg]
    exact hseg
  refine ⟨m.insts r, ⟨⟨r, hat, rfl⟩, hm _ r hat⟩, ?_⟩
  rw [ht.insts]
  exact hfields

/-- `ori $8, $0, 5` and `addu $9, $8, $8` -/
def sumCode : List (NodeRef × AstNode) :=
  [(0, .inst (.i .ori 8 0 (constImmExpr 5))), (1, .pseudo [.r .addu 9 8 8])]

def sumStart : Asm where
  nextTextPc := textBot
  machine := { ({} : Machine) with
    textTop := 0x500000
    labels := fun _ => { name := "main", addr := textBot } }

lemma sum_runs {m : Machine} (hm : m.Ready) : NodesRun Env.quiet 0 (instsOf sumCode)
    (m.goto textBot) (((m.setGpr 8 5).setGpr 9 10).goto 0x400008) := by
  have hori : NodeRuns Env.quiet 0 _ _ ((m.setGpr 8 5).goto 0x400004) :=
    NodeRuns.oriSmall 8 (hm.goto textBot) (v := 5) rfl
  have hready : ((m.setGpr 8 5).goto 0x400004).Ready := (hm.setGpr (r := 8) (by decide) 5).goto _
  have haddu : NodeRuns Env.quiet 0 _ _ _ := NodeRuns.addu 9 8 8 hready
  exact .next hori rfl (.leave haddu)

lemma sumCode_fixed : ∀ i ∈ instsOf sumCode, i.fixed ∧ i.computes := by
  intro i hi
  rcases List.mem_pair.mp hi with rfl | rfl
  · exact ⟨fixed_ori 8 0 5, InstNode.computes_of_op rfl⟩
  · exact ⟨fixed_r .addu 9 8 8, InstNode.computes_of_op rfl⟩

end Spimulator
