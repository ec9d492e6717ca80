import Spimulator.Library.Failure
import Spimulator.NodeEmission

/-! Properties of computations that carry over from the elementary steps of the assembler to the
emission of a tree. -/
namespace Spimulator
open Frame Failure

/-! Where text ends. -/

/-- The end of the text segment that instructions go to. -/
def Asm.textLimit (s : Asm) : Word :=
  if s.textInKernel then s.machine.kTextTop else s.machine.textTop

/-- The events were added to, and the instructions that were stored in between have another word of
the segment after them. -/
structure StoresBelow (s t : Asm) : Prop where
  kernel : t.textInKernel = s.textInKernel
  textTop : t.machine.textTop = s.machine.textTop
  kTextTop : t.machine.kTextTop = s.machine.kTextTop
  events : ∃ new, t.events = new ++ s.events ∧
    ∀ pc r, .instStored pc r ∈ new → pc + 4 < s.textLimit

namespace StoresBelow

variable {s t u : Asm}

lemma textLimit (h : StoresBelow s t) : t.textLimit = s.textLimit := by
  rw [Asm.textLimit, h.kernel, h.textTop, h.kTextTop, ← Asm.textLimit]

lemma refl (s : Asm) : StoresBelow s s := ⟨rfl, rfl, rfl, [], rfl, by simp⟩

lemma trans (h : StoresBelow s t) (h' : StoresBelow t u) : StoresBelow s u := by
  obtain ⟨new, hnew, hpc⟩ := h.events
  obtain ⟨new', hnew', hpc'⟩ := h'.events
  refine ⟨h'.kernel.trans h.kernel, h'.textTop.trans h.textTop, h'.kTextTop.trans h.kTextTop,
    new' ++ new, ?_, fun pc r hr => ?_⟩
  · rw [hnew', hnew, List.append_assoc]
  · rcases List.mem_append.mp hr with hr | hr
    · rw [← h.textLimit]
      exact hpc' pc r hr
    · exact hpc pc r hr

/-- No events are added. -/
lemma same (hk : t.textInKernel = s.textInKernel) (ht : t.machine.textTop = s.machine.textTop)
    (hkt : t.machine.kTextTop = s.machine.kTextTop) (he : t.events = s.events) :
    StoresBelow s t := ⟨hk, ht, hkt, [], he, by simp⟩

lemma log (s : Asm) {e : AsmEvent} (h : ∀ pc r, e ≠ .instStored pc r) : StoresBelow s (s.log e) :=
  ⟨rfl, rfl, rfl, [e], rfl, fun pc r hr => absurd (List.mem_singleton.mp hr).symm (h pc r)⟩

end StoresBelow

/-- The relation, for runs that return and those that fail. -/
def storesBelow : Rel Asm where
  rel := StoresBelow
  refl := StoresBelow.refl
  trans := StoresBelow.trans

/-- The halts of the assembler for want of text. -/
def AsmHalt.outOfText : AsmHalt → Bool
  | .expandText | .expandKText => true
  | _ => false

/-- An elementary step: no instruction is stored but below the last word of its segment, and it
fails neither for want of text nor for want of steps. -/
structure Elementary {α : Type} (x : Assemble α) : Prop where
  keeps : Keeps storesBelow x
  fails : FailsOnly (fun e _ => e ≠ .endless ∧ e.outOfText = false) x

/-- A property of computations that a sequence has when its parts do, and that elementary steps
have. -/
structure SeqProperty (C : {α : Type} → Assemble α → Prop) : Prop where
  elementary : ∀ {α : Type} {x : Assemble α}, Elementary x → C x
  seq : ∀ {α β : Type} {x : Assemble α} {f : α → Assemble β}, C x → (∀ a, C (f a)) → C (x >>= f)

/-- Storing an instruction in text has the property, too. -/
structure EmitProperty (C : {α : Type} → Assemble α → Prop) : Prop extends SeqProperty C where
  store : ∀ env r, C (storeInText env r)

theorem seqProperty_elementary : SeqProperty fun x => Elementary x where
  elementary h := h
  seq h hf := ⟨Keeps.bind h.keeps fun a => (hf a).keeps, FailsOnly.bind h.fails fun a => (hf a).fails⟩

lemma storesBelow_records (s : Asm) (m : Machine) (h : s.machine.Records m) :
    StoresBelow s (s.setMachine m) := .same rfl h.textTop h.kTextTop rfl

namespace SeqProperty

variable {C : {α : Type} → Assemble α → Prop} (hC : SeqProperty C)

include hC

lemma returns {α : Type} {x : Assemble α} (h : ∀ s, ∃ a t, x.run s = .ok a t ∧ StoresBelow s t) :
    C x := by
  refine hC.elementary ⟨fun s => ?_, fun s _ _ ht => ?_⟩
  · obtain ⟨a, t, ht, hst⟩ := h s
    rw [KeepsFrom, ht]
    exact hst
  · obtain ⟨a, t', ht', -⟩ := h s
    rw [ht'] at ht
    cases ht

lemma machine {α : Type} {x : Exec α} (h : Keeps keepsRecords x) : C (onMachine x) := by
  refine hC.elementary ⟨keeps_onMachine storesBelow_records h, fun s e t ht => ?_⟩
  cases hr : x.run s.machine with
  | ok a m =>
    rw [onMachine_run hr] at ht
    cases ht
  | error e m =>
    rw [onMachine_error hr] at ht
    cases ht
    exact ⟨AsmHalt.noConfusion, rfl⟩

lemma throws {α : Type} {e : AsmHalt} (h : e ≠ .endless) (h' : e.outOfText = false) :
    C (throw e : Assemble α) :=
  hC.elementary ⟨Keeps.throw e, FailsOnly.throw fun _ => ⟨h, h'⟩⟩

lemma ret {α : Type} (a : α) : C (pure a : Assemble α) :=
  hC.returns fun s => ⟨a, s, rfl, .refl s⟩

lemma modify {f : Asm → Asm} (h : ∀ s, StoresBelow s (f s)) :
    C (modifyThe Asm f : Assemble PUnit) :=
  hC.returns fun s => ⟨⟨⟩, f s, rfl, h s⟩

/-- What changes neither the events nor where text ends. -/
lemma change {f : Asm → Asm}
    (h : ∀ s, ((f s).textInKernel, (f s).machine.textTop, (f s).machine.kTextTop, (f s).events) =
      (s.textInKernel, s.machine.textTop, s.machine.kTextTop, s.events)) :
    C (modifyThe Asm f : Assemble PUnit) := by
  refine hC.modify fun s => ?_
  have hs := h s
  simp only [Prod.mk.injEq] at hs
  exact .same hs.1 hs.2.1 hs.2.2.1 hs.2.2.2

lemma logged {e : AsmEvent} (h : ∀ pc r, e ≠ .instStored pc r) : C (logEvent e) :=
  hC.modify fun s => .log s h

lemma reported (r : Report) : C (report r) := hC.logged fun _ _ => AsmEvent.noConfusion

/-- A computation that first reads the state. -/
lemma get {α : Type} {f : Asm → Assemble α} (h : ∀ s, C (f s)) : C (MonadState.get >>= f) :=
  hC.seq (hC.returns fun s => ⟨s, s, rfl, .refl s⟩) h

omit hC in
lemma ite {α : Type} {p : Prop} [Decidable p] {x y : Assemble α} (hx : C x) (hy : C y) :
    C (if p then x else y) := by
  split
  · exact hx
  · exact hy

lemma onlyIf {p : Prop} [Decidable p] {x : Assemble Unit} (h : C x) : C (onlyIf p x) :=
  ite h (hC.ret ())

lemma memWrite (tbl : AOpcodeTbl) (w : Width) (addr value : Word) :
    C (onMachine (memWrite tbl w addr value)) :=
  hC.machine (printRel_keepsRecords.memWrite tbl w addr value)

lemma memReadInst (addr : Word) (tbl : AOpcodeTbl) : C (onMachine (memReadInst tbl addr)) :=
  hC.machine (printRel_keepsRecords.memReadInst _ _)

/-! Resolving. -/

lemma evalImmExpr (e : ImmExpr) : C (evalImmExpr e) := by
  refine hC.seq ?_ fun _ => hC.ret _
  unfold symbolValue
  cases e.symbol with
  | none => exact hC.ret _
  | some l =>
    refine hC.get fun s => ite ?_ ?_
    · exact hC.seq (hC.logged fun _ _ => AsmEvent.noConfusion) fun _ => hC.ret _
    · exact hC.seq (hC.reported _) fun _ => hC.ret _

lemma newInst (i : Inst) : C (newInst i) := hC.returns fun _ => ⟨_, _, rfl, .same rfl rfl rfl rfl⟩

lemma copyInst (r : InstRef) : C (copyInst r) :=
  hC.returns fun _ => ⟨_, _, rfl, .same rfl rfl rfl rfl⟩

lemma lookupLabel (name : String) : C (lookupLabel name) := by
  refine hC.returns fun s => ?_
  cases hl : s.labelIsDefined name with
  | some l => exact ⟨l, s, lookupLabel_found hl, .refl s⟩
  | none => exact ⟨_, _, lookupLabel_new hl, .same rfl rfl rfl rfl⟩

lemma compensateLui (tbl : AOpcodeTbl) (sym : Option LabelRef) (pc : Word) :
    C (compensateLui tbl sym pc) := by
  refine hC.seq (hC.memReadInst _ _) fun prev => hC.seq (hC.memReadInst _ _) fun prevPrev => ?_
  refine hC.elementary ⟨Keeps.get_bind fun s => ?_, FailsOnly.get_bind fun s => ?_⟩
  · cases (s.waitingLui sym prev).or (s.waitingLui sym prevPrev) with
    | none => exact KeepsFrom.pure _
    | some w => exact KeepsFrom.set (.same rfl rfl rfl rfl)
  · cases (s.waitingLui sym prev).or (s.waitingLui sym prevPrev) with
    | none => exact FailsOnly.pure _
    | some w => exact FailsOnly.set _

lemma resolveInst (env : Env) (r : InstRef) (op : Opcode) (e : ImmExpr) (pc : Word) :
    C (resolveInst env r op e pc) := by
  refine hC.seq ?_ fun v => ?_
  · refine hC.seq (hC.evalImmExpr e) fun v => ?_
    refine ite (hC.ret _) (ite ?_ (ite ?_ (hC.ret _)))
    · exact hC.seq (hC.onlyIf (hC.reported _)) fun _ => hC.ret _
    · exact hC.seq (hC.onlyIf (hC.compensateLui _ _ _)) fun _ => hC.ret _
  · refine hC.seq (hC.onlyIf ?_) fun _ => hC.change fun _ => rfl
    refine hC.seq (hC.reported _) fun _ => ?_
    exact hC.machine (printRel_keepsRecords.instToString _ _)

end SeqProperty

/-- The head of resolve_a_label_sub for an instruction: its expression is made relative to where
it is now. -/
def relocate (r : InstRef) (pc : Word) : Assemble (Opcode × ImmExpr × Option String) := do
  let s ← get
  match (s.machine.insts r).opcode, (s.machine.insts r).expr with
  | some op, some e =>
    let e := if e.pcRelative then { e with offset := 0 - pc } else e
    set (s.setInst r { s.machine.insts r with expr := some e })
    pure (op, e, if s.symbolDefined e then none
      else some (e.symbol.elim "" (fun l => (s.label l).name)))
  | _, _ => throw (.machine .nullInstruction)

lemma resolveALabelSub_some (env : Env) (sym : LabelRef) (r : InstRef) (pc : Word) :
    resolveALabelSub env sym (some r) pc = relocate r pc >>= fun (op, e, undefined) =>
      match undefined with
      | none => resolveInst env r op e pc
      | some name => report (.resolvingUndefined name) := by
  funext s
  change EStateM.run _ s = EStateM.run _ s
  unfold relocate
  simp only [EStateM.run_bind, EStateM.run_get]
  cases ho : (s.machine.insts r).opcode with
  | none => rfl
  | some op =>
    cases he : (s.machine.insts r).expr with
    | none => rfl
    | some e =>
      dsimp only
      generalize (if e.pcRelative then { e with offset := 0 - pc } else e) = e'
      cases s.symbolDefined e' with
      | true => rfl
      | false => rfl

namespace SeqProperty

variable {C : {α : Type} → Assemble α → Prop} (hC : SeqProperty C)

include hC

lemma relocate (r : InstRef) (pc : Word) : C (relocate r pc) := by
  refine hC.elementary ⟨Keeps.get_bind fun s => ?_, FailsOnly.get_bind fun s => ?_⟩
  · split
    · exact KeepsFrom.bind (KeepsFrom.set (.same rfl rfl rfl rfl)) fun _ _ _ => KeepsFrom.pure _
    · exact KeepsFrom.throw _
  · split
    · exact FailsOnly.bind (FailsOnly.set _) fun _ => FailsOnly.pure _
    · exact FailsOnly.throw fun _ => ⟨AsmHalt.noConfusion, rfl⟩

lemma resolveALabelSub (env : Env) (sym : LabelRef) (i : Option InstRef) (pc : Word) :
    C (resolveALabelSub env sym i pc) := by
  cases i with
  | none =>
    refine hC.get fun s => hC.seq (hC.onlyIf ?_) fun _ => hC.memWrite _ _ _ _
    exact hC.logged fun _ _ => AsmEvent.noConfusion
  | some r =>
    rw [resolveALabelSub_some]
    refine hC.seq (hC.relocate r pc) fun (op, e, undefined) => ?_
    cases undefined with
    | none => exact hC.resolveInst env r op e pc
    | some name => exact hC.reported _

lemma resolveUses (env : Env) (sym : LabelRef) (us : List LabelUse) :
    C (resolveUses env sym us) := by
  induction us with
  | nil => exact hC.ret _
  | cons u us ih =>
    refine hC.seq (hC.resolveALabelSub _ _ _ _) fun _ => hC.get fun s => ?_
    cases u.instruction with
    | none => exact ih
    | some r => exact hC.seq (hC.onlyIf (hC.memWrite _ _ _ _)) fun _ => ih

lemma resolveLabelUses (env : Env) (l : LabelRef) : C (resolveLabelUses env l) :=
  hC.get fun _ => hC.seq (hC.resolveUses _ _ _) fun _ => hC.change fun _ => rfl

lemma clearLabels (env : Env) : C (clearLabels env) := by
  refine hC.get fun s => ?_
  induction s.thisLineLabels with
  | nil => exact hC.ret _
  | cons l ls ih =>
    refine hC.seq (hC.resolveLabelUses env l) fun _ => ?_
    exact hC.seq (hC.change fun _ => rfl) fun _ => ih

/-! Data. -/

lemma expandKData (n : ℤ) : C (expandKData n) := by
  have hthrow {e : AsmHalt} (h : e ≠ .endless ∧ e.outOfText = false) :
      FailsOnly (fun e _ => e ≠ .endless ∧ e.outOfText = false) (throw e : Assemble Unit) :=
    FailsOnly.throw fun _ => h
  refine hC.elementary ⟨Keeps.get_bind fun s => ?_, FailsOnly.get_bind fun s => ?_⟩
  · refine KeepsFrom.ite (fun _ => KeepsFrom.throw _) fun _ => ?_
    refine KeepsFrom.ite (fun _ => KeepsFrom.throw _) fun _ => ?_
    exact KeepsFrom.set (.same rfl rfl rfl rfl)
  · refine FailsOnly.ite (hthrow ⟨AsmHalt.noConfusion, rfl⟩) ?_
    exact FailsOnly.ite (hthrow ⟨AsmHalt.noConfusion, rfl⟩) (FailsOnly.set _)

lemma incrementDataPc (delta : Word) : C (incrementDataPc delta) := by
  refine hC.seq (hC.change fun s => ?_) fun _ => hC.get fun s => ?_
  · unfold Asm.setDataPc
    split <;> rfl
  · refine ite (hC.onlyIf (hC.expandKData _)) (hC.onlyIf ?_)
    exact hC.machine (printRel_keepsRecords.toServiceRel.expandData _)

lemma placing (bytes : List Byte) {store : Assemble Unit} (h : C store) :
    C (Data.placing bytes store) :=
  hC.get fun _ => hC.seq (hC.logged fun _ _ => AsmEvent.noConfusion) fun _ => h

section

variable (tbl : AOpcodeTbl)

lemma storeElement (w : Width) (delta value : Word) (s : Asm) :
    C (do
      onMachine (Spimulator.memWrite tbl w s.currentDataPc value)
      Spimulator.incrementDataPc delta) :=
  hC.seq (hC.memWrite _ _ _ _) fun _ => hC.incrementDataPc _

lemma fireOuter (d : ℕ) (e : Observed) : C (Frame.onlyIf (d = 0) (fire e)) :=
  hC.onlyIf (hC.logged fun _ _ => AsmEvent.noConfusion)

lemma storeByte (d : ℕ) (v : Word) : C (Data.storeByte tbl d v) :=
  hC.get fun _ => hC.seq (hC.memWrite _ _ _ _) fun _ =>
    hC.seq (hC.incrementDataPc _) fun _ => hC.fireOuter d _

lemma storeHalf (d : ℕ) (v : Word) : C (Data.storeHalf tbl d v) := by
  refine hC.get fun s => hC.seq (ite ?_ (hC.storeElement tbl _ _ _ s)) fun _ => hC.fireOuter d _
  exact hC.seq (hC.storeByte tbl _ _) fun _ => hC.storeByte tbl _ _

lemma storeWord (d : ℕ) (v : Word) : C (Data.storeWord tbl d v) := by
  refine hC.get fun s => hC.seq (ite ?_ (hC.storeElement tbl _ _ _ s)) fun _ => hC.fireOuter d _
  exact hC.seq (hC.storeHalf tbl _ _) fun _ => hC.storeHalf tbl _ _

lemma storeDataInt (kind : DataIntKind) (v : Word) : C (storeDataInt tbl kind v) := by
  refine hC.placing _ ?_
  cases kind with
  | byte => exact hC.storeByte tbl _ _
  | half => exact hC.storeHalf tbl _ _
  | word => exact hC.storeWord tbl _ _

lemma storeDataFp (env : Env) (kind : DataFpKind) (v : BitVec 64) : C (storeDataFp env kind v) := by
  cases kind with
  | float =>
    refine hC.placing _ (hC.get fun s => ite ?_ (hC.storeElement _ _ _ _ s))
    exact hC.seq (hC.storeHalf _ _ _) fun _ => hC.storeHalf _ _ _
  | double =>
    refine hC.placing _ (hC.get fun s => hC.seq (ite ?_ ?_) fun _ => hC.fireOuter _ _)
    · exact hC.seq (hC.storeWord _ _ _) fun _ => hC.storeWord _ _ _
    · refine hC.seq (hC.memWrite _ _ _ _) fun _ => hC.seq (hC.incrementDataPc _) fun _ => ?_
      exact hC.get fun s => hC.storeElement _ _ _ _ s

lemma storeString (d : ℕ) (bytes : List Byte) (nul : Bool) :
    C (Data.storeString tbl d bytes nul) := by
  refine hC.get fun s => hC.seq ?_ fun _ => hC.seq (hC.onlyIf (hC.storeByte tbl _ _)) fun _ =>
    hC.fireOuter d _
  induction bytes with
  | nil => exact hC.ret _
  | cons b bs ih => exact hC.seq (hC.storeByte tbl _ _) fun _ => ih

lemma addUse (l : LabelRef) (u : LabelUse) : C (addUse l u) := hC.change fun _ => rfl

lemma emitDataIntNode (kind : DataIntKind) (es : List ImmExpr) :
    C (emitDataIntNode tbl kind es) := by
  induction es with
  | nil => exact hC.ret _
  | cons e es ih =>
    refine hC.seq (hC.get fun s => ?_) fun _ => ih
    have hvalue := hC.seq (hC.evalImmExpr e) fun v => hC.storeDataInt tbl kind v
    cases e.symbol with
    | none => exact hvalue
    | some l => exact ite hvalue (hC.seq (hC.addUse _ _) fun _ => hC.storeDataInt tbl kind _)

lemma emitDataFpNode (env : Env) (kind : DataFpKind) (vs : List (BitVec 64)) :
    C (emitDataFpNode env kind vs) := by
  induction vs with
  | nil => exact hC.ret _
  | cons v vs ih => exact hC.seq (hC.storeDataFp env kind v) fun _ => ih

end

/-! Labels. -/

section

variable (env : Env)

lemma recordLabel (name : String) (a : Word) (resolve : Bool) :
    C (recordLabel env name a resolve) := by
  refine hC.seq (hC.lookupLabel name) fun l => ?_
  refine hC.seq (hC.get fun s => ite ?_ ?_) fun _ => hC.ret _
  · exact hC.seq (hC.change fun _ => rfl) fun _ => hC.reported _
  · refine hC.seq (hC.change fun s => ?_) fun _ => ?_
    · dsimp only
      split <;> rfl
    refine hC.seq (hC.modify fun s => .log s fun _ _ => AsmEvent.noConfusion) fun _ => ?_
    refine hC.seq (hC.onlyIf (hC.resolveLabelUses env l)) fun _ => hC.change fun s => ?_
    split <;> rfl

lemma makeLabelGlobal (name : String) : C (makeLabelGlobal name) :=
  hC.seq (hC.lookupLabel name) fun _ => hC.seq (hC.change fun _ => rfl) fun _ => hC.ret _

lemma emitReserve (name : String) (size : Word) : C (emitReserve env name size) := by
  refine hC.seq (hC.lookupLabel name) fun l => hC.get fun s => ?_
  refine hC.seq (hC.onlyIf ?_) fun _ => hC.incrementDataPc size
  exact hC.seq (hC.recordLabel env name _ _) fun _ => hC.ret _

lemma alignDirective (v : Word) : C (modifyThe Asm fun s => s.alignDirective v) := by
  refine hC.change fun s => ?_
  unfold Asm.alignDirective Asm.alignLabelsTo Asm.setDataAlignment Asm.alignData Asm.setDataPc
  grind [Asm.fixCurrentLabelAddress, Asm.setMachine]

end

end SeqProperty

namespace EmitProperty

variable {C : {α : Type} → Assemble α → Prop} (hC : EmitProperty C)

include hC

/-! Instructions. -/

section

variable (env : Env)

lemma storeInstruction (r : InstRef) : C (storeInstruction env r) := by
  refine hC.get fun s => SeqProperty.ite ?_ (SeqProperty.ite (hC.store env r) (hC.ret _))
  exact hC.placing _ (hC.storeWord _ _ _)

lemma storeNew (i : Inst) : C (storeNew env i) :=
  hC.seq (hC.newInst i) fun r => hC.storeInstruction env r

lemma storeExprInst (r : InstRef) (e : ImmExpr) : C (storeExprInst env r e) := by
  have hresolve (l : Option LabelRef) : C (resolveALabel env l r) :=
    hC.get fun _ => hC.resolveALabelSub _ _ _ _
  refine hC.get fun s => ?_
  cases e.symbol with
  | none => exact hC.seq (hresolve _) fun _ => hC.storeInstruction env r
  | some l =>
    refine SeqProperty.ite (hC.seq (hresolve _) fun _ => hC.storeInstruction env r) ?_
    refine hC.seq (hC.get fun s => SeqProperty.ite ?_ (hC.addUse _ _)) fun _ => hC.storeInstruction env r
    exact hC.seq (hC.copyInst r) fun _ => hC.addUse _ _

section

variable {emitI : Opcode → Word → Word → ImmExpr → Assemble Unit}
  (hI : ∀ op rt rs e, C (emitI op rt rs e))

include hI

lemma produceImmediate (e : ImmExpr) (rt : Word) (v : Option Word) :
    C (produceImmediate emitI e rt v) := by
  refine SeqProperty.ite (hI _ _ _ _) (SeqProperty.ite (hI _ _ _ _) ?_)
  exact hC.seq (hI _ _ _ _) fun _ => hI _ _ _ _

lemma iTypeInstFullWord (op : Opcode) (rt rs : Word) (e : ImmExpr) (v : Option Word) :
    C (iTypeInstFullWord env emitI op rt rs e v) := by
  have hindexed (high low : ImmExpr) : C (do
      emitI .lui 1 0 high
      Frame.onlyIf (rs ≠ 0) (rTypeInst env .addu 1 1 rs)
      emitI op rt 1 low) :=
    hC.seq (hI _ _ _ _) fun _ => hC.seq (hC.onlyIf (hC.storeNew env _)) fun _ => hI _ _ _ _
  refine hC.get fun s => SeqProperty.ite ?_ (SeqProperty.ite (hI _ _ _ _) ?_)
  · split
    · exact hI _ _ _ _
    · exact SeqProperty.ite (hindexed _ _) (hI _ _ _ _)
    · exact hindexed _ _
  · split
    · exact hI _ _ _ _
    refine SeqProperty.ite (hC.produceImmediate hI _ _ _) ?_
    refine hC.seq (hC.produceImmediate hI _ _ _) fun _ => ?_
    cases immOpToOp op with
    | none => exact hC.throws AsmHalt.noConfusion rfl
    | some op' => exact hC.storeNew env _

end

lemma iTypeInst (n : ℕ) (op : Opcode) (rt rs : Word) (e : ImmExpr) :
    C (iTypeInst env n op rt rs e) := by
  induction n generalizing op rt rs e with
  | zero => exact hC.throws AsmHalt.noConfusion rfl
  | succ n ih =>
    refine hC.seq (hC.newInst _) fun r => hC.get fun s => ?_
    refine SeqProperty.ite ?_ (SeqProperty.ite (hC.storeExprInst env r e) ?_)
    · refine hC.seq (hC.evalImmExpr e) fun v => ?_
      exact SeqProperty.ite (hC.iTypeInstFullWord env ih _ _ _ _ _) (hC.storeExprInst env r e)
    · exact hC.iTypeInstFullWord env ih _ _ _ _ _

theorem emitInst (i : InstNode) : C (emitInst env i) := by
  cases i with
  | r | rShift | fpR | fpCompare => exact hC.storeNew env _
  | i op rt rs imm => exact hC.iTypeInst env 4 op rt rs imm
  | j op target => exact hC.seq (hC.newInst _) fun r => hC.storeExprInst env r _

/-! Nodes. -/

lemma emitChildren (cs : List InstNode) : C (emitChildren env cs) := by
  induction cs with
  | nil => exact hC.ret _
  | cons c cs ih =>
    exact hC.seq (hC.emitInst env c) fun _ => hC.seq (hC.clearLabels env) fun _ => ih

/-- The emission of a node, where a change of segment has the property. -/
theorem emitOne (n : AstNode)
    (hseg : ∀ kind a, n = .dirSeg kind a → C (modifyThe Asm (emitDirSeg kind a))) :
    C (emitOne env n) := by
  cases n with
  | inst i => exact hC.emitInst env i
  | pseudo cs => exact hC.emitChildren env cs
  | dataInt kind es =>
    refine hC.seq (hC.onlyIf (hC.alignDirective _)) fun _ => ?_
    refine hC.seq (hC.onlyIf (hC.alignDirective _)) fun _ => ?_
    exact hC.emitDataIntNode _ kind es
  | dataFp kind vs =>
    exact hC.seq (hC.alignDirective _) fun _ => hC.emitDataFpNode env kind vs
  | dataString bytes nul =>
    exact hC.get fun s => hC.onlyIf (hC.placing _ (hC.storeString _ _ bytes nul))
  | dirSeg kind a => exact hseg kind a rfl
  | dirAlign v =>
    refine hC.change fun s => ?_
    unfold emitDirAlign Asm.alignText Asm.alignData Asm.setTextPc Asm.setDataPc
    grind [Asm.fixCurrentLabelAddress, Asm.setMachine]
  | dirSpace size => exact hC.incrementDataPc size
  | dirGlobl name => exact hC.seq (hC.makeLabelGlobal name) fun _ => hC.ret _
  | dirExtern name size =>
    exact hC.seq (hC.makeLabelGlobal name) fun _ => hC.emitReserve env name size
  | dirComm name size =>
    refine hC.seq (hC.change fun s => ?_) fun _ => hC.emitReserve env name size
    unfold Asm.alignData Asm.setDataPc
    grind [Asm.fixCurrentLabelAddress, Asm.setMachine]
  | labelNormal name =>
    refine hC.get fun s => hC.seq (hC.recordLabel env name _ _) fun _ => ?_
    exact hC.change fun _ => rfl
  | labelConst name v =>
    exact hC.seq (hC.recordLabel env name _ _) fun _ => hC.change fun _ => rfl

end

end EmitProperty
end Spimulator
