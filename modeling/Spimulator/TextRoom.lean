import Spimulator.BreakpointTable
import Spimulator.EmitProperty
import Spimulator.UserStart

/-! The room in a text segment. increment_text_pc gives up when the location counter comes to the end
of the segment, after the instruction in the last word has been stored. -/
namespace Spimulator
open Frame Failure

/-! Exceptions of the accessors. -/

/-- The flag of an exception stays set. -/
def staysRaised : Rel Machine := Rel.stable fun m => m.exceptionOccurred = true

lemma deviceRel_staysRaised : DeviceRel staysRaised where
  device _ _ _ _ _ _ _ _ := id
  raiseInt _ _ := id
  clearInt _ _ := id
  host _ _ _ := id

lemma raiseAddr_raised (m : Machine) {e : ExcCode} (he : e ≠ .int) (a : Word) :
    (m.raiseAddr e a).exceptionOccurred = true := by
  obtain ⟨f, hf⟩ := Machine.recordFirstBad_eq { m with exceptionOccurred := true } e
  obtain ⟨c, hc⟩ :=
    Machine.recordEpc_eq { m with exceptionOccurred := true, firstBadException := f }
  rw [Machine.raiseAddr, Machine.raiseException, if_pos (Or.inl he)]
  dsimp only
  rw [hf, hc]
  rfl

lemma accessRel_staysRaised : AccessRel staysRaised where
  data _ _ _ _ _ := id
  alloc _ _ := id
  patch _ _ _ := id
  ioRead := deviceRel_staysRaised.ioRead
  ioWrite := deviceRel_staysRaised.ioWrite
  raise m _ a he := fun _ => raiseAddr_raised m he a

/-- Writing an instruction elsewhere than to a word of text raises an exception. -/
lemma memWriteInst_raised (tbl : AOpcodeTbl) {m m' : Machine} {addr : Word}
    (hw : ¬ m.InstWord addr) {r : InstRef}
    (h : (memWriteInst tbl addr (some r)).run m = .ok () m') : m'.exceptionOccurred = true := by
  have ht : ¬ (m.inText addr ∧ addr &&& 3 = 0) := fun ht => hw ⟨.inl ht.1, ht.2⟩
  have hk : ¬ (m.inKText addr ∧ addr &&& 3 = 0) := fun hk => hw ⟨.inr hk.1, hk.2⟩
  change (if m.inText addr ∧ addr &&& 3 = 0 then
      set (m.setText (Machine.textIndex addr) (some r))
    else if m.inKText addr ∧ addr &&& 3 = 0 then
      set (m.setKText (Machine.kTextIndex addr) (some r))
    else badTextWrite tbl addr (some r) : Exec Unit).run m = _ at h
  rw [if_neg ht, if_neg hk] at h
  obtain ⟨_, _, ⟨⟩, h⟩ := ok_of_bind h
  obtain ⟨_, _, ⟨⟩, h⟩ := ok_of_bind h
  exact (accessRel_staysRaised.memWrite tbl _ _ _).ok h (raiseAddr_raised m (by decide) addr)

/-! Storing an instruction. -/

/-- The instruction is stored in the last word of the segment, and nothing else has changed. -/
structure FillsLast (s : Asm) (r : InstRef) (t : Asm) : Prop where
  word : s.machine.InstWord s.currentTextPc
  last : s.textLimit ≤ s.currentTextPc + 4
  limit : t.textLimit = s.textLimit
  events : t.events = .instStored s.currentTextPc r :: s.events
  text : t.machine.instAt = Function.update s.machine.instAt s.currentTextPc (some r)
  insts : t.machine.insts = s.machine.insts
  labels : t.machine.labels = s.machine.labels
  localLabels : t.localLabels = s.localLabels
  pending : t.thisLineLabels = s.thisLineLabels
  data : (t.machine.dataSeg, t.machine.stackSeg, t.machine.kDataSeg) =
    (s.machine.dataSeg, s.machine.stackSeg, s.machine.kDataSeg)

/-- How the assembler goes wrong in a state: for want of text, once an instruction is stored in the
last word; otherwise in the state as it is. -/
def GivesUpAt (e : AsmHalt) (s t : Asm) : Prop :=
  if e.outOfText then ∃ r, FillsLast s r t else t = s

lemma outcome_of_elementary {α : Type} {x : Assemble α} (h : Elementary x) :
    Outcome storesBelow GivesUpAt x := by
  intro s
  have hs := h.keeps s
  rw [KeepsFrom] at hs
  cases hr : x.run s with
  | ok a t =>
    rw [hr] at hs
    exact hs
  | error e t =>
    rw [hr] at hs
    obtain ⟨u, hu, rfl⟩ := hs
    refine ⟨u, hu, ?_⟩
    rw [GivesUpAt, (h.fails s e u hr).2]
    rfl

lemma incrementTextPc_eq (delta : Word) (s : Asm) :
    (incrementTextPc delta).run s =
      if s.textLimit ≤ s.currentTextPc + delta then
        .error (if s.textInKernel then .expandKText else .expandText)
          (s.setTextPc (s.currentTextPc + delta))
      else .ok () (s.setTextPc (s.currentTextPc + delta)) := by
  have hrun : (incrementTextPc delta).run s = (do
      let s ← get
      if s.textInKernel then onlyIf (s.machine.kTextTop ≤ s.nextKTextPc) (throw .expandKText)
      else onlyIf (s.machine.textTop ≤ s.nextTextPc) (throw .expandText) : Assemble Unit).run
        (s.setTextPc (s.currentTextPc + delta)) := rfl
  rw [hrun, EStateM.run_bind, EStateM.run_get]
  cases hk : s.textInKernel with
  | true =>
    have hpc : (s.setTextPc (s.currentTextPc + delta)).nextKTextPc = s.currentTextPc + delta := by
      simp [Asm.setTextPc, hk]
    have hfields : (s.setTextPc (s.currentTextPc + delta)).textInKernel = true ∧
        (s.setTextPc (s.currentTextPc + delta)).machine.kTextTop = s.textLimit := by
      simp [Asm.setTextPc, Asm.textLimit, hk]
    dsimp only
    rw [if_pos hfields.1, hpc, hfields.2]
    by_cases h : s.textLimit ≤ s.currentTextPc + delta
    · rw [onlyIf_pos h, if_pos h]
      rfl
    · rw [onlyIf_neg h, if_neg h]
      rfl
  | false =>
    have hpc : (s.setTextPc (s.currentTextPc + delta)).nextTextPc = s.currentTextPc + delta := by
      simp [Asm.setTextPc, hk]
    have hfields : (s.setTextPc (s.currentTextPc + delta)).textInKernel = false ∧
        (s.setTextPc (s.currentTextPc + delta)).machine.textTop = s.textLimit := by
      simp [Asm.setTextPc, Asm.textLimit, hk]
    dsimp only
    rw [if_neg (by simp [hfields.1]), hpc, hfields.2]
    by_cases h : s.textLimit ≤ s.currentTextPc + delta
    · rw [onlyIf_pos h, if_pos h]
      rfl
    · rw [onlyIf_neg h, if_neg h]
      rfl

lemma setTextPc_fields (s : Asm) (v : Word) :
    (s.setTextPc v).textInKernel = s.textInKernel ∧ (s.setTextPc v).machine = s.machine ∧
      (s.setTextPc v).events = s.events ∧ (s.setTextPc v).localLabels = s.localLabels ∧
      (s.setTextPc v).thisLineLabels = s.thisLineLabels := by
  unfold Asm.setTextPc
  split <;> exact ⟨rfl, rfl, rfl, rfl, rfl⟩

/-- The state in which increment_text_pc is called at a word of text. -/
def Asm.stored (s : Asm) (r : InstRef) : Asm :=
  (s.setMachine (({ s.machine with exceptionOccurred := false } : Machine).setInst s.currentTextPc
    (some r))).log (.instStored s.currentTextPc r)

lemma fillsLast_stored {s : Asm} (hw : s.machine.InstWord s.currentTextPc)
    (hlast : s.textLimit ≤ s.currentTextPc + 4) (r : InstRef) :
    FillsLast s r ((s.stored r).setTextPc (s.currentTextPc + 4)) := by
  obtain ⟨hk, hm, he, hl, hp⟩ := setTextPc_fields (s.stored r) (s.currentTextPc + 4)
  obtain ⟨t, k, hset⟩ := ({ s.machine with exceptionOccurred := false } : Machine).setInst_eq
    s.currentTextPc (some r)
  have hmachine : (s.stored r).machine = { s.machine with
      exceptionOccurred := false, textSeg := t, kTextSeg := k } := hset
  refine ⟨hw, hlast, ?_, he, ?_, ?_, ?_, hl, hp, ?_⟩
  · rw [Asm.textLimit, hk, hm, hmachine]
    rfl
  · rw [hm]
    exact Machine.instAt_setInst (m := { s.machine with exceptionOccurred := false }) hw (some r)
  · rw [hm, hmachine]
  · rw [hm, hmachine]
  · rw [hm, hmachine]

lemma storesBelow_setEncoding (s : Asm) (pc : Word) (r : InstRef) :
    StoresBelow s ((s.setEncoding r).fireTextInst pc r) := by
  refine .trans ?_ (.log _ fun _ _ => AsmEvent.noConfusion)
  rcases setEncoding_eq s r with h | h
  · rw [h]
    exact .refl s
  · rw [h]
    exact .same rfl rfl rfl rfl

/-- store_instruction at a word of text. -/
lemma storeInText_word (env : Env) (r : InstRef) {s : Asm}
    (hw : s.machine.InstWord s.currentTextPc) :
    (storeInText env r).run s =
      if s.textLimit ≤ s.currentTextPc + 4 then
        .error (if s.textInKernel then .expandKText else .expandText)
          ((s.stored r).setTextPc (s.currentTextPc + 4))
      else .ok () ((((s.stored r).setTextPc (s.currentTextPc + 4)).setEncoding r).fireTextInst
        s.currentTextPc r) := by
  have hwrite := onMachine_run (s := s.setMachine { s.machine with exceptionOccurred := false })
    (memWriteInst_instWord env.tbl (m := { s.machine with exceptionOccurred := false }) hw (some r))
  have hflag : (({ s.machine with exceptionOccurred := false } : Machine).setInst s.currentTextPc
      (some r)).exceptionOccurred = false := Machine.exceptionOccurred_setInst _ _ _
  obtain ⟨q, k, hset⟩ := ({ s.machine with exceptionOccurred := false } : Machine).setInst_eq
    s.currentTextPc (some r)
  have hlimit : (s.stored r).textLimit = s.textLimit := by
    rw [Asm.textLimit, Asm.stored, hset]
    rfl
  have hinc := incrementTextPc_eq 4 (s.stored r)
  rw [hlimit] at hinc
  change (do
    onMachine (memWriteInst env.tbl s.currentTextPc (some r))
    let t ← get
    (if t.machine.exceptionOccurred then report (.invalidInstAddress s.currentTextPc)
      else do
        logEvent (.instStored s.currentTextPc r)
        incrementTextPc 4 : Assemble Unit)
    modify fun t => (t.setEncoding r).fireTextInst s.currentTextPc r : Assemble Unit).run
      (s.setMachine { s.machine with exceptionOccurred := false }) = _
  rw [run_bind_of_ok hwrite, EStateM.run_bind, EStateM.run_get]
  dsimp only
  rw [if_neg (by exact fun h => Bool.false_ne_true (hflag.symm.trans h))]
  change (incrementTextPc 4 >>= fun _ => modify fun t =>
    (t.setEncoding r).fireTextInst s.currentTextPc r : Assemble Unit).run (s.stored r) = _
  by_cases hlast : s.textLimit ≤ s.currentTextPc + 4
  · rw [if_pos hlast]
    exact run_bind_of_error (hinc.trans (if_pos hlast))
  · rw [if_neg hlast, run_bind_of_ok (hinc.trans (if_neg hlast))]
    rfl

lemma storesBelow_flag (s : Asm) :
    StoresBelow s (s.setMachine { s.machine with exceptionOccurred := false }) :=
  .same rfl rfl rfl rfl

lemma storeInText_outcome (env : Env) (r : InstRef) :
    Outcome storesBelow GivesUpAt (storeInText env r) := by
  intro s
  by_cases hw : s.machine.InstWord s.currentTextPc
  · rw [storeInText_word env r hw]
    by_cases hlast : s.textLimit ≤ s.currentTextPc + 4
    · rw [if_pos hlast]
      refine ⟨s, .refl s, ?_⟩
      have hout : (if s.textInKernel then .expandKText else .expandText : AsmHalt).outOfText =
          true := by
        split <;> rfl
      rw [GivesUpAt, if_pos hout]
      exact ⟨r, fillsLast_stored hw hlast r⟩
    · rw [if_neg hlast]
      refine storesBelow.trans ?_ (storesBelow_setEncoding _ _ r)
      obtain ⟨hk, hm, he, -⟩ := setTextPc_fields (s.stored r) (s.currentTextPc + 4)
      obtain ⟨q, k, hset⟩ := ({ s.machine with exceptionOccurred := false } : Machine).setInst_eq
        s.currentTextPc (some r)
      refine ⟨hk, ?_, ?_, [.instStored s.currentTextPc r], he, fun pc r' hr => ?_⟩
      · rw [hm, Asm.stored, hset]
        rfl
      · rw [hm, Asm.stored, hset]
        rfl
      · cases List.mem_singleton.mp hr
        simpa using hlast
  · have hrun : (storeInText env r).run s = (do
        onMachine (memWriteInst env.tbl s.currentTextPc (some r))
        let t ← get
        (if t.machine.exceptionOccurred then report (.invalidInstAddress s.currentTextPc)
          else do
            logEvent (.instStored s.currentTextPc r)
            incrementTextPc 4 : Assemble Unit)
        modify fun t => (t.setEncoding r).fireTextInst s.currentTextPc r : Assemble Unit).run
          (s.setMachine { s.machine with exceptionOccurred := false }) := rfl
    have hwrite := outcome_of_elementary (seqProperty_elementary.machine
      (printRel_keepsRecords.memWriteInst env.tbl s.currentTextPc (some r)))
      (s.setMachine { s.machine with exceptionOccurred := false })
    rw [hrun]
    cases hr : (onMachine (memWriteInst env.tbl s.currentTextPc (some r))).run
        (s.setMachine { s.machine with exceptionOccurred := false }) with
    | error e t =>
      rw [hr] at hwrite
      rw [run_bind_of_error hr]
      obtain ⟨u, hu, he⟩ := hwrite
      exact ⟨u, (storesBelow_flag s).trans hu, he⟩
    | ok a t =>
      rw [hr] at hwrite
      have hraised : t.machine.exceptionOccurred = true := by
        obtain ⟨m, hm, rfl⟩ := ok_of_onMachine hr
        exact memWriteInst_raised env.tbl (m := { s.machine with exceptionOccurred := false }) hw hm
      rw [run_bind_of_ok hr, EStateM.run_bind, EStateM.run_get]
      dsimp only
      rw [if_pos hraised]
      refine storesBelow.trans ((storesBelow_flag s).trans hwrite) ?_
      exact (StoresBelow.log t fun _ _ => AsmEvent.noConfusion).trans
        (storesBelow_setEncoding _ _ r)

theorem emitProperty_outcome : EmitProperty fun x => Outcome storesBelow GivesUpAt x where
  elementary := outcome_of_elementary
  seq := Outcome.bind
  store := storeInText_outcome

/-! Statements. -/

variable {env : Env} {s t u : Asm}

lemma clearLabels_elementary (env : Env) : Elementary (clearLabels env) :=
  seqProperty_elementary.clearLabels env

/-- A statement other than a change of segment stores below the last word, or gives up there. -/
lemma emitNode_outcome (env : Env) {n : NodeRef × AstNode} (hn : ∀ kind a, n.2 ≠ .dirSeg kind a) :
    Outcome storesBelow GivesUpAt (emitNode env n) := by
  have hC := emitProperty_outcome.toSeqProperty
  refine Outcome.bind (hC.logged fun _ _ => AsmEvent.noConfusion) fun _ => ?_
  refine Outcome.bind (emitProperty_outcome.emitOne env n.2 fun kind a h => absurd h (hn kind a))
    fun _ => ?_
  exact hC.onlyIf (hC.clearLabels env)

lemma emitDirSeg_stores (kind : DirSegKind) (a : Option Word) (s : Asm) :
    (emitDirSeg kind a s).instStores = s.instStores := by
  unfold emitDirSeg Asm.setTextPc Asm.setDataPc
  cases kind <;> cases a <;> dsimp only [Option.elim] <;> (try split) <;> rfl

/-- A change of segment stores no instruction, and is not given up for want of text. -/
lemma emitNode_seg (env : Env) {n : NodeRef × AstNode} {kind : DirSegKind} {a : Option Word}
    (hn : n.2 = .dirSeg kind a) (s : Asm) :
    (final ((emitNode env n).run s)).instStores = s.instStores ∧
      ∀ e t, (emitNode env n).run s = .error e t → e.outOfText = false := by
  have hrun : (emitNode env n).run s =
      (onlyIf (n.2.keepsLabels = false) (clearLabels env)).run
        (emitDirSeg kind a (s.log (.emitted n.1))) := by
    rw [emitNode, hn]
    rfl
  have hstart : (emitDirSeg kind a (s.log (.emitted n.1))).instStores = s.instStores :=
    emitDirSeg_stores _ _ _
  have hkeeps : Keeps sameStores (onlyIf (n.2.keepsLabels = false) (clearLabels env)) :=
    Keeps.onlyIf ((symbolRel_sameStores ∅ ∅).toRecordRel.clearLabels env)
  have hfails := FailsOnly.onlyIf (c := n.2.keepsLabels = false) (clearLabels_elementary env).fails
  rw [hrun]
  refine ⟨((hkeeps _).final id).trans hstart, fun e t ht => (hfails _ e t ht).2⟩

lemma instStored_mem {pc : Word} {r : InstRef} {new : List AsmEvent}
    (hev : t.events = new ++ s.events) (hr : .instStored pc r ∈ new) :
    t.instStores ≠ s.instStores := by
  intro h
  rw [Asm.instStores, Asm.instStores, hev, List.filterMap_append, List.append_left_eq_self] at h
  exact absurd (List.filterMap_eq_nil_iff.mp h _ hr) (by simp)

/-- The computation is given up for want of text. -/
def GivesUp (x : Assemble Unit) (s : Asm) : Prop :=
  ∃ e t, x.run s = .error e t ∧ e.outOfText = true

/-- An instruction is stored in the last word of the segment that instructions go to. -/
def FillsText (x : Assemble Unit) (s : Asm) : Prop :=
  ∃ pc r new, (final (x.run s)).events = new ++ s.events ∧ .instStored pc r ∈ new ∧
    s.textLimit ≤ pc + 4

theorem emitNode_gives_up_iff (n : NodeRef × AstNode) :
    GivesUp (emitNode env n) s ↔ FillsText (emitNode env n) s := by
  by_cases hn : ∃ kind a, n.2 = .dirSeg kind a
  · obtain ⟨kind, a, hn⟩ := hn
    obtain ⟨hstores, hfails⟩ := emitNode_seg env hn s
    constructor
    · rintro ⟨e, t, ht, he⟩
      exact absurd (hfails e t ht) (by simp [he])
    · rintro ⟨pc, r, new, hev, hr, -⟩
      exact absurd hstores (instStored_mem hev hr)
  · have hout := emitNode_outcome env (n := n) (fun kind a h => hn ⟨kind, a, h⟩)
    have hbelow {t : Asm} (h : StoresBelow s t) {pc : Word} {r : InstRef} {new : List AsmEvent}
        (hev : t.events = new ++ s.events) (hr : .instStored pc r ∈ new)
        (hlast : s.textLimit ≤ pc + 4) : False := by
      obtain ⟨new', hev', hpc⟩ := h.events
      rw [List.append_cancel_right (hev.symm.trans hev')] at hr
      have hlt := hpc pc r hr
      bv_omega
    constructor
    · rintro ⟨e, t, ht, he⟩
      obtain ⟨u, hu, hgive⟩ := hout.error ht
      rw [GivesUpAt, if_pos he] at hgive
      obtain ⟨r, hfill⟩ := hgive
      obtain ⟨new, hev, -⟩ := hu.events
      refine ⟨u.currentTextPc, r, .instStored u.currentTextPc r :: new, ?_, by simp, ?_⟩
      · rw [ht, final_error, hfill.events, hev]
        rfl
      · rw [← hu.textLimit]
        exact hfill.last
    · rintro ⟨pc, r, new, hev, hr, hlast⟩
      cases hrun : (emitNode env n).run s with
      | ok _ t =>
        rw [hrun] at hev
        exact (hbelow (hout.ok hrun) hev hr hlast).elim
      | error e t =>
        rw [hrun] at hev
        refine ⟨e, t, hrun, ?_⟩
        obtain ⟨u, hu, hgive⟩ := hout.error hrun
        by_contra he
        rw [GivesUpAt, if_neg he] at hgive
        subst hgive
        exact hbelow hu hev hr hlast

/-! Trees. -/

lemma emitNodes_append (env : Env) (ns ms : List (NodeRef × AstNode)) :
    emitNodes env (ns ++ ms) = emitNodes env ns >>= fun _ => emitNodes env ms := by
  induction ns with
  | nil => rfl
  | cons n ns ih =>
    rw [List.cons_append, emitNodes_cons, emitNodes_cons, ih, bind_assoc]

/-- A tree is given up at one of its statements. -/
lemma emitNodes_error {ns : List (NodeRef × AstNode)} {e : AsmHalt}
    (h : (emitNodes env ns).run s = .error e t) :
    ∃ pre n post u, ns = pre ++ n :: post ∧ (emitNodes env pre).run s = .ok () u ∧
      (emitNode env n).run u = .error e t := by
  induction ns generalizing s with
  | nil => cases h
  | cons n ns ih =>
    rw [emitNodes_cons] at h
    cases hr : (emitNode env n).run s with
    | error e' t' =>
      rw [run_bind_of_error hr] at h
      cases h
      exact ⟨[], n, ns, s, rfl, rfl, hr⟩
    | ok a v =>
      rw [run_bind_of_ok hr] at h
      obtain ⟨pre, m, post, u, rfl, hpre, hm⟩ := ih h
      refine ⟨n :: pre, m, post, u, rfl, ?_, hm⟩
      rw [emitNodes_cons, run_bind_of_ok hr]
      exact hpre

lemma emitAst_error {ns : List (NodeRef × AstNode)} {e : AsmHalt} (he : e.outOfText = true)
    (h : (emitAst env ns).run s = .error e t) : (emitNodes env ns).run s = .error e t := by
  cases hr : (emitNodes env ns).run s with
  | error e' t' =>
    rw [emitAst, run_bind_of_error hr] at h
    cases h
    rfl
  | ok a v =>
    rw [emitAst, run_bind_of_ok hr] at h
    exact absurd ((clearLabels_elementary env).fails v e t h).2 (by simp [he])

/-- emit_ast gives up for want of text exactly when a statement stores an instruction in the last
word of its text segment; the instruction is stored then, and nothing else is lost. -/
theorem emitAst_gives_up_iff (env : Env) (ns : List (NodeRef × AstNode)) (s : Asm) :
    (GivesUp (emitAst env ns) s ↔ ∃ pre n post u, ns = pre ++ n :: post ∧
      (emitNodes env pre).run s = .ok () u ∧ FillsText (emitNode env n) u) ∧
    ∀ e t, (emitAst env ns).run s = .error e t → e.outOfText = true →
      ∃ pre n post u v r, ns = pre ++ n :: post ∧ (emitNodes env pre).run s = .ok () u ∧
        StoresBelow u v ∧ FillsLast v r t := by
  constructor
  · constructor
    · rintro ⟨e, t, ht, he⟩
      obtain ⟨pre, n, post, u, rfl, hpre, hn⟩ := emitNodes_error (emitAst_error he ht)
      exact ⟨pre, n, post, u, rfl, hpre, (emitNode_gives_up_iff n).mp ⟨e, t, hn, he⟩⟩
    · rintro ⟨pre, n, post, u, rfl, hpre, hfill⟩
      obtain ⟨e, t, ht, he⟩ := (emitNode_gives_up_iff n).mpr hfill
      refine ⟨e, t, run_bind_of_error ?_, he⟩
      rw [emitNodes_append, run_bind_of_ok hpre, emitNodes_cons]
      exact run_bind_of_error ht
  · intro e t ht he
    obtain ⟨pre, n, post, u, rfl, hpre, hn⟩ := emitNodes_error (emitAst_error he ht)
    have hseg : ∀ kind a, n.2 ≠ .dirSeg kind a := fun kind a h =>
      absurd ((emitNode_seg env h u).2 e t hn) (by simp [he])
    obtain ⟨v, hv, hgive⟩ := (emitNode_outcome env hseg).error hn
    rw [GivesUpAt, if_pos he] at hgive
    obtain ⟨r, hr⟩ := hgive
    exact ⟨pre, n, post, u, v, r, rfl, hpre, hv, hr⟩

/-- A text segment of one word. -/
def oneWord : Asm where
  nextTextPc := textBot
  machine := { textTop := textBot + 4 }

def oneNop : List (NodeRef × AstNode) := [(0, .inst (.rShift .sll 0 0 0))]

/-- One nop fills the segment; it is stored, and the program is rejected. -/
theorem oneNop_rejected :
    GivesUp (emitAst Env.quiet oneNop) oneWord ∧
      (final ((emitAst Env.quiet oneNop).run oneWord)).machine.instAt textBot = some 1 ∧
      textBot + 4 = oneWord.textLimit := by
  refine ⟨?_, by decide +kernel, rfl⟩
  have h : failsWith AsmHalt.outOfText ((emitAst Env.quiet oneNop).run oneWord) = true := by
    decide +kernel
  exact error_of_failsWith h

end Spimulator
