import Spimulator.Emission
import Spimulator.Library.CommandRun

/-! What the emission of a node may change: labels too, but only the names that the node defines
or declares global. -/
namespace Spimulator
open Frame

/-- The relation also allows the changes of labels: an entry for a new name, addresses for names
in `D` that have none, global declarations of names in `G`, and the labels of the current line. -/
structure SymbolRel (D G : Set String) (R : Rel Asm) : Prop extends ResolveRel R where
  labelDef : ∀ (s : Asm) a l g, R.rel s (s.log (.fired (.labelDef a l g)))
  newLabel : ∀ (s : Asm) name, s.labelIsDefined name = none → R.rel s (s.newLabel name)
  clearUses : ∀ (s : Asm) l, R.rel s (s.setLabel l { s.label l with uses := [] })
  define : ∀ (s : Asm) l a, (s.label l).name ∈ D → (s.label l).addr = 0 →
    R.rel s (s.setLabel l { s.label l with addr := a })
  linkLocal : ∀ (s : Asm) l, (s.label l).name ∈ D → (s.label l).globalFlag = false →
    R.rel s { s with localLabels := l :: s.localLabels }
  declareGlobal : ∀ (s : Asm) l, (s.label l).name ∈ G →
    R.rel s (s.setLabel l { s.label l with globalFlag := true })
  constant : ∀ (s : Asm) l, (s.label l).name ∈ D →
    R.rel s (s.setLabel l { s.label l with constFlag := true })
  pend : ∀ (s : Asm) l, (s.label l).name ∈ D →
    R.rel s { s with thisLineLabels := l :: s.thisLineLabels }
  unpend : ∀ (s : Asm) l ls, s.thisLineLabels = l :: ls → (s.label l).uses = [] →
    R.rel s { s with thisLineLabels := ls }
  parseError : ∀ (s : Asm) r, r.isParseError = true →
    R.rel s (Asm.log { s with
      parseErrorOccurred := true
      parseErrorsSeen := s.parseErrorsSeen + 1 } (.report r))

/-- The relation allows what emission does to labels, where it is known of the definition of a name
in `D` as a whole, and of a label that starts to wait on its line. -/
structure RecordRel (D G : Set String) (R : Rel Asm) : Prop extends ResolveRel R where
  newLabel : ∀ (s : Asm) name, s.labelIsDefined name = none → R.rel s (s.newLabel name)
  clearUses : ∀ (s : Asm) l, R.rel s (s.setLabel l { s.label l with uses := [] })
  declareGlobal : ∀ (s : Asm) l, (s.label l).name ∈ G →
    R.rel s (s.setLabel l { s.label l with globalFlag := true })
  constant : ∀ (s : Asm) l, (s.label l).name ∈ D →
    R.rel s (s.setLabel l { s.label l with constFlag := true })
  unpend : ∀ (s : Asm) l ls, s.thisLineLabels = l :: ls → (s.label l).uses = [] →
    R.rel s { s with thisLineLabels := ls }
  record : ∀ env name a resolve, name ∈ D → Keeps R (recordLabel env name a resolve)
  labelNormal : ∀ env name, name ∈ D → Keeps R (emitLabelNormal env name)

/-- The statements that instructions come from. -/
def AstNode.isCode : AstNode → Bool
  | .inst _ | .pseudo (_ :: _) => true
  | _ => false

/-- The alignment at the head of a statement. -/
def AstNode.align (n : AstNode) (s : Asm) : Asm :=
  match n with
  | .dataInt .half _ => s.alignDirective 1
  | .dataInt .word _ => s.alignDirective 2
  | .dataFp kind _ => s.alignDirective (if kind = .float then 2 else 3)
  | .dirAlign v => emitDirAlign v s
  | .dirComm _ _ => s.alignData 2
  | _ => s

/-- The emission of a statement once it is aligned. -/
def emitPlaced (env : Env) : AstNode → Assemble Unit
  | .dataInt kind exprs => emitDataIntNode env.tbl kind exprs
  | .dataFp kind values => emitDataFpNode env kind values
  | .dirAlign _ => pure ()
  | .dirComm name size => emitReserve env name size
  | n => emitOne env n

lemma emitOne_eq (env : Env) (n : AstNode) :
    emitOne env n = (modify n.align >>= fun _ => emitPlaced env n) := by
  cases n with
  | dataInt kind es => cases kind <;> rfl
  | _ => rfl

/-- The relation also allows a note of the use of a symbol that is not defined, and the storing of
integers and strings. -/
structure PlaceRel (env : Env) (D G : Set String) (R : Rel Asm) : Prop
    extends RecordRel D G R where
  addUse : ∀ (s : Asm) l u, (s.label l).isDefined = false →
    (∀ r, u.instruction = some r → (s.machine.insts r).symbol = some l) →
    R.rel s (s.setLabel l { s.label l with uses := u :: (s.label l).uses })
  dataInt : ∀ kind v, Keeps R (storeDataInt env.tbl kind v)
  dataString : ∀ bytes nul, Keeps R
    (Data.placing (bytes ++ if nul then [0] else []) (Data.storeString env.tbl 0 bytes nul))
  space : ∀ size, Keeps R (incrementDataPc size)

/-- The relation also allows the storing of floating-point values, and the alignment of data. -/
structure NodeRel (env : Env) (D G : Set String) (R : Rel Asm) : Prop
    extends PlaceRel env D G R where
  dataFp : ∀ kind v, Keeps R (storeDataFp env kind v)
  directive : ∀ (s : Asm) k, R.rel s (s.alignDirective k)
  common : ∀ s : Asm, R.rel s (s.alignData 2)

/-- The relation allows all changes of the location counters and of the flags that choose segment
and alignment, besides those of labels. -/
structure LabelRel (D G : Set String) (R : Rel Asm) : Prop extends StoreRel R where
  labelDef : ∀ (s : Asm) a l g, R.rel s (s.log (.fired (.labelDef a l g)))
  newLabel : ∀ (s : Asm) name, s.labelIsDefined name = none → R.rel s (s.newLabel name)
  clearUses : ∀ (s : Asm) l, R.rel s (s.setLabel l { s.label l with uses := [] })
  define : ∀ (s : Asm) l a, (s.label l).name ∈ D → (s.label l).addr = 0 →
    R.rel s (s.setLabel l { s.label l with addr := a })
  linkLocal : ∀ (s : Asm) l, (s.label l).name ∈ D → (s.label l).globalFlag = false →
    R.rel s { s with localLabels := l :: s.localLabels }
  declareGlobal : ∀ (s : Asm) l, (s.label l).name ∈ G →
    R.rel s (s.setLabel l { s.label l with globalFlag := true })
  constant : ∀ (s : Asm) l, (s.label l).name ∈ D →
    R.rel s (s.setLabel l { s.label l with constFlag := true })
  pend : ∀ (s : Asm) l, (s.label l).name ∈ D →
    R.rel s { s with thisLineLabels := l :: s.thisLineLabels }
  unpend : ∀ (s : Asm) l ls, s.thisLineLabels = l :: ls → (s.label l).uses = [] →
    R.rel s { s with thisLineLabels := ls }
  parseError : ∀ (s : Asm) r, r.isParseError = true →
    R.rel s (Asm.log { s with
      parseErrorOccurred := true
      parseErrorsSeen := s.parseErrorsSeen + 1 } (.report r))
  move : ∀ (s : Asm) a, R.rel s (s.fixCurrentLabelAddress a)
  flags : ∀ (s : Asm) tk dk en dd td aa,
    R.rel s { s with
      textInKernel := tk, dataInKernel := dk, enableDataAutoAlignment := en
      dataDir := dd, textDir := td, autoAlign := aa }

/-! Names of labels. -/

/-- Labels keep their names. -/
def sameNames : Rel Asm := Rel.same (fun s l => (s.label l).name)

lemma label_setLabel (s : Asm) (l : LabelRef) (x : Label) :
    (s.setLabel l x).label = Function.update s.label l x := rfl

lemma sameNames_setLabel (s : Asm) (l : LabelRef) (x : Label) (h : x.name = (s.label l).name) :
    sameNames.rel s (s.setLabel l x) := by
  funext k
  change (Function.update s.label l x k).name = (s.label k).name
  by_cases hk : k = l
  · subst hk
    rw [Function.update_self, h]
  · rw [Function.update_of_ne hk]

theorem storeRel_sameNames : StoreRel sameNames where
  machine s m h := by
    funext l
    change (m.labels l).name = (s.machine.labels l).name
    rw [h.labels]
  setInst _ _ _ _ := rfl
  log _ _ _ := rfl
  use _ _ _ := rfl
  addUse s l u _ _ := sameNames_setLabel s l _ rfl
  dataPc s v := by
    unfold Asm.setDataPc
    split <;> rfl
  textPc s v := by
    unfold Asm.setTextPc
    split <;> rfl

lemma resolveLabelUses_sameNames (env : Env) (l : LabelRef) :
    Keeps sameNames (resolveLabelUses env l) :=
  Keeps.get_bind fun s => Keeps.bind (storeRel_sameNames.toResolveRel.resolveUses env l _)
    (fun _ => Keeps.modify fun t => sameNames_setLabel t l { t.label l with uses := [] } rfl) s

/-- The entry that is looked up has the name, and is entered now if there was none. -/
lemma lookupLabel_run {name : String} {s t : Asm} {l : LabelRef}
    (h : (lookupLabel name).run s = .ok l t) :
    (s.labelIsDefined name = some l ∧ t = s) ∨
      (s.labelIsDefined name = none ∧ l = s.nextLabel ∧ t = s.newLabel name) := by
  cases hl : s.labelIsDefined name with
  | some k =>
    rw [lookupLabel_found hl] at h
    cases h
    exact Or.inl ⟨rfl, rfl⟩
  | none =>
    rw [lookupLabel_new hl] at h
    cases h
    exact Or.inr ⟨rfl, rfl, rfl⟩

lemma Asm.name_of_labelIsDefined {s : Asm} {name : String} {l : LabelRef}
    (h : s.labelIsDefined name = some l) : (s.label l).name = name := by
  simpa using List.find?_some h

@[simp] lemma Asm.label_newLabel_self (s : Asm) (name : String) :
    (s.newLabel name).label s.nextLabel = { name := name } := by
  simp [Asm.newLabel, Asm.label, Asm.setLabel, Asm.setMachine]

lemma lookupLabel_name {name : String} {s t : Asm} {l : LabelRef}
    (h : (lookupLabel name).run s = .ok l t) : (t.label l).name = name := by
  rcases lookupLabel_run h with ⟨hl, rfl⟩ | ⟨-, rfl, rfl⟩
  · exact Asm.name_of_labelIsDefined hl
  · rw [Asm.label_newLabel_self]

lemma resolveLabelUses_uses {env : Env} {l : LabelRef} {s t : Asm}
    (h : (resolveLabelUses env l).run s = .ok () t) : (t.label l).uses = [] := by
  have hr : Returns (fun _ t => (Asm.label t l).uses = []) (resolveLabelUses env l) := by
    refine Returns.last fun s => Returns.last fun _ => Returns.modify fun t => ?_
    rw [label_setLabel, Function.update_self]
  exact hr s () t h

lemma recordEntry_sameNames (env : Env) (l : LabelRef) (name : String) (a : Word)
    (resolve : Bool) : Keeps sameNames (recordEntry env l name a resolve) := by
  refine Keeps.get_bind fun s => KeepsFrom.ite (fun _ => ?_) fun _ => ?_
  · exact Keeps.bind (Keeps.modify fun _ => rfl) (fun _ => Keeps.modify fun _ => rfl) s
  refine Keeps.bind (Keeps.modify fun t => ?_) (fun _ => ?_) s
  · split
    · exact sameNames.refl t
    · exact sameNames_setLabel t l { t.label l with addr := a } rfl
  refine Keeps.bind (Keeps.modify fun _ => rfl) fun _ => ?_
  refine Keeps.bind (Keeps.onlyIf (resolveLabelUses_sameNames env l)) fun _ => ?_
  refine Keeps.modify fun t => ?_
  split
  · exact sameNames.refl t
  · rfl

/-- The label that record_label returns has the name, also when it was defined before. -/
lemma recordLabel_name {env : Env} {name : String} {a : Word} {resolve : Bool} {s t : Asm}
    {l : LabelRef} (h : (recordLabel env name a resolve).run s = .ok l t) :
    (t.label l).name = name := by
  have hr : Returns (fun l t => (Asm.label t l).name = name)
      (recordLabel env name a resolve) := by
    refine Returns.bind (Q := fun l t => (Asm.label t l).name = name)
      (fun _ _ _ h => lookupLabel_name h) fun l u hu => ?_
    intro k t ht
    rw [EStateM.run_bind] at ht
    cases hq : (recordEntry env l name a resolve).run u with
    | error e v =>
      rw [hq] at ht
      cases ht
    | ok b v =>
      rw [hq] at ht
      cases ht
      exact (congrFun ((recordEntry_sameNames env l name a resolve).ok hq) l).trans hu
  exact hr s l t h

/-- Storing leaves the labels of the line pending. -/
theorem storeRel_thisLineLabels : StoreRel (Rel.same (fun s : Asm => s.thisLineLabels)) where
  machine _ _ _ := rfl
  setInst _ _ _ _ := rfl
  log _ _ _ := rfl
  use _ _ _ := rfl
  addUse _ _ _ _ _ := rfl
  dataPc s v := by
    unfold Asm.setDataPc
    split <;> rfl
  textPc s v := by
    unfold Asm.setTextPc
    split <;> rfl

lemma resolveLabelUses_thisLineLabels (env : Env) (l : LabelRef) :
    Keeps (Rel.same (fun s : Asm => s.thisLineLabels)) (resolveLabelUses env l) := by
  refine Keeps.get_bind fun s => ?_
  refine Keeps.bind (storeRel_thisLineLabels.toResolveRel.resolveUses env l _) (fun _ => ?_) s
  exact Keeps.modify fun _ => rfl

namespace SymbolRel

variable {D G : Set String} {R : Rel Asm} (hR : SymbolRel D G R)

include hR

lemma lookupLabel (name : String) : Keeps R (lookupLabel name) := by
  refine Keeps.get_bind fun s => ?_
  cases h : s.labelIsDefined name with
  | some l => exact KeepsFrom.pure _
  | none => exact KeepsFrom.bind (KeepsFrom.set (hR.newLabel s name h)) fun _ _ _ => KeepsFrom.pure _

lemma resolveLabelUses (env : Env) (l : LabelRef) : Keeps R (resolveLabelUses env l) :=
  Keeps.get_bind fun s => Keeps.bind (hR.resolveUses env l _)
    (fun _ => Keeps.modify fun t => hR.clearUses t l) s

lemma parseErrorWith {r : Report} (h : r.isParseError = true) : Keeps R (parseErrorWith r) :=
  fun s => hR.parseError s r h

/-- record_label for an entry with a name that may be defined. -/
lemma recordEntry (env : Env) {l : LabelRef} {name : String} {s : Asm}
    (hname : (s.label l).name = name) (hn : name ∈ D) (a : Word) (resolve : Bool) :
    KeepsFrom R (recordEntry env l name a resolve) s := by
  refine KeepsFrom.ite (fun _ => hR.parseErrorWith rfl s) fun hfree => ?_
  refine KeepsFrom.bind ?_ fun _ t ht => ?_
  · change R.rel s (if (s.label l).gpFlag then s else _)
    by_cases hg : (s.label l).gpFlag = true
    · rw [if_pos hg]
      exact R.refl s
    · rw [if_neg hg]
      refine hR.define s l a (hname ▸ hn) ?_
      by_contra ha
      exact hfree ⟨Bool.eq_false_iff.mpr hg, ha⟩
  have hname : (t.label l).name = name := by
    cases ht
    dsimp only
    split
    · exact hname
    · rw [label_setLabel, Function.update_self]
      exact hname
  refine KeepsFrom.bind (KeepsFrom.modify (hR.labelDef t _ _ _)) fun _ t' ht' => ?_
  have hname : (t'.label l).name = name := by
    cases ht'
    exact hname
  refine KeepsFrom.bind (Keeps.onlyIf (hR.resolveLabelUses env l) t') fun _ u hu => ?_
  have hname : (u.label l).name = name := by
    have hk := Keeps.ok (Keeps.onlyIf (resolveLabelUses_sameNames env l)) hu
    exact (congrFun hk l).trans hname
  change R.rel u (if (u.label l).globalFlag then u else _)
  by_cases hg : (u.label l).globalFlag = true
  · rw [if_pos hg]
    exact R.refl u
  · rw [if_neg hg]
    exact hR.linkLocal u l (hname ▸ hn) (Bool.eq_false_iff.mpr hg)

lemma recordLabel (env : Env) {name : String} (hn : name ∈ D) (a : Word) (resolve : Bool) :
    Keeps R (recordLabel env name a resolve) := by
  intro s
  refine KeepsFrom.bind (hR.lookupLabel name s) fun l t ht => ?_
  refine KeepsFrom.bind (hR.recordEntry env (lookupLabel_name ht) hn a resolve) fun _ _ _ => ?_
  exact KeepsFrom.pure _

lemma emitLabelNormal (env : Env) {name : String} (hn : name ∈ D) :
    Keeps R (emitLabelNormal env name) := by
  intro s
  refine KeepsFrom.get_bind (KeepsFrom.bind (hR.recordLabel env hn _ _ s) fun l t ht => ?_)
  refine hR.pend t l ?_
  rw [recordLabel_name ht]
  exact hn

/-- A weaker relation allows the same changes. -/
lemma mono {S : Rel Asm} (h : ∀ s t, R.rel s t → S.rel s t) : SymbolRel D G S where
  machine s m hm := h _ _ (hR.machine s m hm)
  setInst s r i hi := h _ _ (hR.setInst s r i hi)
  report s r hr := h _ _ (hR.report s r hr)
  use s l hl := h _ _ (hR.use s l hl)
  labelDef s a l g := h _ _ (hR.labelDef s a l g)
  newLabel s name hn := h _ _ (hR.newLabel s name hn)
  clearUses s l := h _ _ (hR.clearUses s l)
  define s l a hl ha := h _ _ (hR.define s l a hl ha)
  linkLocal s l hl hg := h _ _ (hR.linkLocal s l hl hg)
  declareGlobal s l hl := h _ _ (hR.declareGlobal s l hl)
  constant s l hl := h _ _ (hR.constant s l hl)
  pend s l hl := h _ _ (hR.pend s l hl)
  unpend s l ls hp hl := h _ _ (hR.unpend s l ls hp hl)
  parseError s r hr := h _ _ (hR.parseError s r hr)

lemma toRecordRel : RecordRel D G R :=
  { hR.toResolveRel with
    newLabel := hR.newLabel
    clearUses := hR.clearUses
    declareGlobal := hR.declareGlobal
    constant := hR.constant
    unpend := hR.unpend
    record := fun env _ a resolve hn => hR.recordLabel env hn a resolve
    labelNormal := fun env _ hn => hR.emitLabelNormal env hn }

end SymbolRel

namespace RecordRel

variable {D G : Set String} {R : Rel Asm} (hR : RecordRel D G R)

include hR

lemma lookupLabel (name : String) : Keeps R (lookupLabel name) := by
  refine Keeps.get_bind fun s => ?_
  cases h : s.labelIsDefined name with
  | some l => exact KeepsFrom.pure _
  | none => exact KeepsFrom.bind (KeepsFrom.set (hR.newLabel s name h)) fun _ _ _ => KeepsFrom.pure _

lemma resolveLabelUses (env : Env) (l : LabelRef) : Keeps R (resolveLabelUses env l) :=
  Keeps.get_bind fun s => Keeps.bind (hR.resolveUses env l _)
    (fun _ => Keeps.modify fun t => hR.clearUses t l) s

lemma makeLabelGlobal {name : String} (hn : name ∈ G) : Keeps R (makeLabelGlobal name) := by
  intro s
  refine KeepsFrom.bind (hR.lookupLabel name s) fun l t ht => ?_
  have hname := lookupLabel_name ht
  refine KeepsFrom.bind (hR.declareGlobal t l ?_) fun _ _ _ => KeepsFrom.pure _
  rw [hname]
  exact hn

/-! Labels of the line. -/

lemma clearLabelList (env : Env) : ∀ (ls : List LabelRef) (s : Asm), s.thisLineLabels = ls →
    KeepsFrom R (clearLabelList env ls) s := by
  intro ls
  induction ls with
  | nil => exact fun s _ => KeepsFrom.pure _
  | cons l ls ih =>
    intro s hs
    refine KeepsFrom.bind (hR.resolveLabelUses env l s) fun _ t ht => ?_
    have hp : t.thisLineLabels = l :: ls :=
      ((resolveLabelUses_thisLineLabels env l).ok ht).trans hs
    refine KeepsFrom.bind (hR.unpend t l ls hp (resolveLabelUses_uses ht)) fun _ u hu => ?_
    cases hu
    exact ih _ rfl

lemma clearLabels (env : Env) : Keeps R (clearLabels env) :=
  fun s => hR.clearLabelList env _ s rfl

lemma emitLabelConst (env : Env) {name : String} (hn : name ∈ D) (v : Word) :
    Keeps R (emitLabelConst env name v) := by
  intro s
  refine KeepsFrom.bind (hR.record env name _ _ hn s) fun l t ht => ?_
  refine hR.constant t l ?_
  rw [recordLabel_name ht]
  exact hn

/-- A run of emit_ast whose nodes are emitted as the relation allows. -/
theorem emitNodes (env : Env) (hlog : ∀ (s : Asm) k, R.rel s (s.log (.emitted k)))
    (ns : List (NodeRef × AstNode)) (hone : ∀ n ∈ ns, Keeps R (emitOne env n.2)) :
    Keeps R (emitNodes env ns) := by
  induction ns with
  | nil => exact Keeps.pure _
  | cons n ns ih =>
    refine Keeps.bind (Keeps.modify fun s => hlog s n.1) fun _ => ?_
    refine Keeps.bind (hone n List.mem_cons_self) fun _ => ?_
    refine Keeps.bind (Keeps.onlyIf (hR.clearLabels env)) fun _ => ?_
    exact ih fun m hm => hone m (List.mem_cons_of_mem _ hm)

end RecordRel

/-! Data. -/

namespace PlainRel

variable {R : Rel Asm} (hR : PlainRel R)

include hR

lemma storeDataInt (tbl : AOpcodeTbl) (kind : DataIntKind) (v : Word) :
    Keeps R (storeDataInt tbl kind v) := by
  refine hR.placing _ ?_
  cases kind with
  | byte => exact hR.storeByte _ _ _
  | half => exact hR.storeHalf _ _ _
  | word => exact hR.storeWord _ _ _

lemma storeDataFp (env : Env) (kind : DataFpKind) (v : BitVec 64) :
    Keeps R (storeDataFp env kind v) := by
  cases kind with
  | float => exact hR.placing _ (hR.storeFloat _ _ _)
  | double => exact hR.placing _ (hR.storeDouble _ _ _)

end PlainRel

namespace DataRel

variable {R : Rel Asm} (hR : DataRel R)

include hR

lemma storeDataInt (tbl : AOpcodeTbl) (kind : DataIntKind) (v : Word) :
    Keeps R (storeDataInt tbl kind v) := hR.toPlainRel.storeDataInt tbl kind v

lemma storeDataFp (env : Env) (kind : DataFpKind) (v : BitVec 64) :
    Keeps R (storeDataFp env kind v) := hR.toPlainRel.storeDataFp env kind v

end DataRel

lemma keeps_emitDataFpNode {R : Rel Asm} {env : Env} {kind : DataFpKind}
    (h : ∀ v, Keeps R (storeDataFp env kind v)) (vs : List (BitVec 64)) :
    Keeps R (emitDataFpNode env kind vs) := by
  induction vs with
  | nil => exact Keeps.pure _
  | cons v vs ih => exact Keeps.bind (h v) fun _ => ih

namespace PlaceRel

variable {env : Env} {D G : Set String} {R : Rel Asm} (hR : PlaceRel env D G R)

include hR

lemma emitDataExpr (kind : DataIntKind) (e : ImmExpr) :
    Keeps R (emitDataExpr env.tbl kind e) := by
  have hvalue := Keeps.bind (hR.evalImmExpr e) fun v => hR.dataInt kind v
  refine Keeps.get_bind fun s => ?_
  cases e.symbol with
  | none => exact hvalue s
  | some l =>
    refine KeepsFrom.ite (fun _ => hvalue s) fun h => ?_
    have hu := hR.addUse s l { instruction := none, addr := s.currentDataPc }
      (Bool.eq_false_iff.mpr h) (fun _ h => by cases h)
    exact KeepsFrom.bind hu fun _ t _ => hR.dataInt kind _ t

lemma emitDataIntNode (kind : DataIntKind) (es : List ImmExpr) :
    Keeps R (emitDataIntNode env.tbl kind es) := by
  induction es with
  | nil => exact Keeps.pure _
  | cons e es ih => exact Keeps.bind (hR.emitDataExpr _ _) fun _ => ih

lemma emitReserve {name : String} (hn : name ∈ D) (size : Word) :
    Keeps R (emitReserve env name size) := by
  refine Keeps.bind (hR.lookupLabel name) fun l => Keeps.get_bind fun s => ?_
  refine Keeps.bind (Keeps.onlyIf ?_) (fun _ => hR.space _) s
  exact Keeps.bind (hR.record env name _ _ hn) fun _ => Keeps.pure _

lemma toInstRel (hstore : ∀ r, Keeps R (storeInstruction env r)) : InstRel env R :=
  { hR.toResolveRel with
    addUse := hR.addUse
    store := hstore }

lemma emitChildren (hI : InstRel env R) (cs : List InstNode) : Keeps R (emitChildren env cs) := by
  induction cs with
  | nil => exact Keeps.pure _
  | cons c cs ih =>
    exact Keeps.bind (hI.emitInst c) fun _ => Keeps.bind (hR.clearLabels env) fun _ => ih

/-- What follows the alignment of a node that only defines names in `D` and declares names in `G`
global, and whose floating-point values, instructions and change of segment the relation allows. -/
theorem emitPlaced (n : AstNode) (hd : ∀ name ∈ n.defines, name ∈ D)
    (hg : ∀ name ∈ n.globals, name ∈ G)
    (hfp : ∀ kind vs, n = .dataFp kind vs → Keeps R (emitDataFpNode env kind vs))
    (hcode : n.isCode = true → ∀ r, Keeps R (storeInstruction env r))
    (hseg : ∀ kind a, n = .dirSeg kind a → ∀ s, R.rel s (emitDirSeg kind a s)) :
    Keeps R (emitPlaced env n) := by
  cases n with
  | inst i => exact (hR.toInstRel (hcode rfl)).emitInst i
  | pseudo cs =>
    cases cs with
    | nil => exact Keeps.pure _
    | cons c cs => exact hR.emitChildren (hR.toInstRel (hcode rfl)) (c :: cs)
  | dataInt kind es => exact hR.emitDataIntNode kind es
  | dataFp kind vs => exact hfp kind vs rfl
  | dataString bytes nul =>
    exact Keeps.get_bind fun s => Keeps.onlyIf (hR.dataString _ _) s
  | dirSeg kind a => exact Keeps.modify (hseg kind a rfl)
  | dirAlign v => exact Keeps.pure _
  | dirSpace size => exact hR.space _
  | dirGlobl name =>
    exact Keeps.bind (hR.makeLabelGlobal (hg name List.mem_cons_self)) fun _ => Keeps.pure _
  | dirExtern name size =>
    refine Keeps.bind (hR.makeLabelGlobal (hg name List.mem_cons_self)) fun _ => ?_
    exact hR.emitReserve (hd name List.mem_cons_self) size
  | dirComm name size => exact hR.emitReserve (hd name List.mem_cons_self) size
  | labelNormal name => exact hR.labelNormal env name (hd name List.mem_cons_self)
  | labelConst name v => exact hR.emitLabelConst env (hd name List.mem_cons_self) v

end PlaceRel

/-- The emission of a node that only defines names in `D` and declares names in `G` global, and
whose instructions, change of segment or alignment the relation allows. -/
theorem NodeRel.emitOne {env : Env} {D G : Set String} {R : Rel Asm} (hR : NodeRel env D G R)
    (n : AstNode) (hd : ∀ name ∈ n.defines, name ∈ D) (hg : ∀ name ∈ n.globals, name ∈ G)
    (hcode : n.isCode = true → ∀ r, Keeps R (storeInstruction env r))
    (hseg : ∀ kind a, n = .dirSeg kind a → ∀ s, R.rel s (emitDirSeg kind a s))
    (halign : ∀ v, n = .dirAlign v → ∀ s, R.rel s (emitDirAlign v s)) : Keeps R (emitOne env n) := by
  rw [emitOne_eq]
  refine Keeps.bind (Keeps.modify fun s => ?_) fun _ => hR.emitPlaced n hd hg
    (fun kind vs _ => keeps_emitDataFpNode (hR.dataFp kind) vs) hcode hseg
  cases n with
  | dataInt kind es =>
    cases kind with
    | byte => exact R.refl s
    | half | word => exact hR.directive s _
  | dataFp kind vs => exact hR.directive s _
  | dirAlign v => exact halign v rfl s
  | dirComm name size => exact hR.common s
  | _ => exact R.refl s

/-! Segments. -/

lemma rel_emitDirSeg {R : Rel Asm}
    (hflags : ∀ (s : Asm) tk dk en dd td aa, R.rel s { s with
      textInKernel := tk, dataInKernel := dk, enableDataAutoAlignment := en
      dataDir := dd, textDir := td, autoAlign := aa })
    (hdata : ∀ (s : Asm) v, R.rel s (s.setDataPc v)) (htext : ∀ (s : Asm) v, R.rel s (s.setTextPc v))
    (s : Asm) (kind : DirSegKind) (a : Option Word) : R.rel s (emitDirSeg kind a s) := by
  cases kind with
  | text =>
    refine R.trans (hflags s false s.dataInKernel s.enableDataAutoAlignment false true s.autoAlign) ?_
    cases a with
    | none => exact R.refl _
    | some v => exact htext _ v
  | kText =>
    refine R.trans (hflags s true s.dataInKernel s.enableDataAutoAlignment false true s.autoAlign) ?_
    cases a with
    | none => exact R.refl _
    | some v => exact htext _ v
  | data =>
    refine R.trans (hflags s s.textInKernel false true true false true) ?_
    cases a with
    | none => exact R.refl _
    | some v => exact hdata _ v
  | kData =>
    refine R.trans (hflags s s.textInKernel true true true false true) ?_
    cases a with
    | none => exact R.refl _
    | some v => exact hdata _ v

/-! Alignment. -/

lemma rel_emitDirAlign {R : Rel Asm} (hauto : ∀ s : Asm, R.rel s { s with autoAlign := false })
    (hdata : ∀ (s : Asm) v, R.rel s (s.alignData v)) (htext : ∀ (s : Asm) v, R.rel s (s.alignText v))
    (s : Asm) (n : Word) : R.rel s (emitDirAlign n s) := by
  unfold emitDirAlign
  dsimp only
  split
  · refine R.trans (hauto s) ?_
    split
    · exact htext _ n
    · exact hdata _ n
  · split
    · exact htext s n
    · exact hdata s n

section

variable {R : Rel Asm} (hmove : ∀ (s : Asm) a, R.rel s (s.fixCurrentLabelAddress a))

include hmove

lemma rel_alignData (hoff : ∀ s : Asm, R.rel s { s with enableDataAutoAlignment := false })
    (hpc : ∀ (s : Asm) v, R.rel s (s.setDataPc v)) (s : Asm) (v : Word) :
    R.rel s (s.alignData v) := by
  unfold Asm.alignData
  split
  · exact hoff s
  · exact R.trans (hpc s (alignUp v s.currentDataPc)) (hmove _ _)

lemma rel_alignDirective (hdata : ∀ (s : Asm) v, R.rel s (s.alignData v)) (s : Asm) (v : Word) :
    R.rel s (s.alignDirective v) := by
  have hlabels : R.rel s (s.alignLabelsTo v) := by
    unfold Asm.alignLabelsTo
    split
    · exact R.refl s
    · exact hmove s _
  refine R.trans hlabels ?_
  unfold Asm.alignDirective
  dsimp only
  split
  · unfold Asm.setDataAlignment
    split
    · exact hdata _ v
    · exact R.refl _
  · exact R.refl _

lemma rel_alignText (hpc : ∀ (s : Asm) v, R.rel s (s.setTextPc v)) (s : Asm) (v : Word) :
    R.rel s (s.alignText v) := by
  unfold Asm.alignText
  split
  · exact R.refl s
  · exact R.trans (hpc s _) (hmove _ _)

/-- The alignment at the head of a statement. -/
lemma rel_align (hauto : ∀ s : Asm, R.rel s { s with autoAlign := false })
    (hdata : ∀ (s : Asm) v, R.rel s (s.alignData v)) (htext : ∀ (s : Asm) v, R.rel s (s.alignText v))
    (n : AstNode) (s : Asm) : R.rel s (n.align s) := by
  cases n with
  | dataInt kind es =>
    cases kind with
    | byte => exact R.refl s
    | half | word => exact rel_alignDirective hmove hdata s _
  | dataFp kind vs => exact rel_alignDirective hmove hdata s _
  | dirComm name size => exact hdata s 2
  | dirAlign v => exact rel_emitDirAlign hauto hdata htext s v
  | _ => exact R.refl s

end

namespace LabelRel

variable {D G : Set String} {R : Rel Asm} (hR : LabelRel D G R)

include hR

lemma alignData (s : Asm) (v : Word) : R.rel s (s.alignData v) :=
  rel_alignData hR.move (fun t => hR.flags t _ _ false _ _ _) hR.dataPc s v

lemma alignText (s : Asm) (v : Word) : R.rel s (s.alignText v) := rel_alignText hR.move hR.textPc s v

lemma alignDirective (s : Asm) (v : Word) : R.rel s (s.alignDirective v) :=
  rel_alignDirective hR.move hR.alignData s v

lemma emitDirSeg (s : Asm) (kind : DirSegKind) (a : Option Word) : R.rel s (emitDirSeg kind a s) :=
  rel_emitDirSeg hR.flags hR.dataPc hR.textPc s kind a

lemma emitDirAlign (s : Asm) (n : Word) : R.rel s (emitDirAlign n s) :=
  rel_emitDirAlign (fun t => hR.flags t _ _ _ _ _ false) hR.alignData hR.alignText s n

lemma toSymbolRel : SymbolRel D G R :=
  { hR.toResolveRel with
    labelDef := hR.labelDef
    newLabel := hR.newLabel
    clearUses := hR.clearUses
    define := hR.define
    linkLocal := hR.linkLocal
    declareGlobal := hR.declareGlobal
    constant := hR.constant
    pend := hR.pend
    unpend := hR.unpend
    parseError := hR.parseError }

lemma toNodeRel (env : Env) : NodeRel env D G R :=
  { hR.toSymbolRel.toRecordRel with
    addUse := hR.addUse
    dataInt := hR.toDataRel.storeDataInt env.tbl
    dataFp := hR.toDataRel.storeDataFp env
    dataString := fun _ _ => hR.toDataRel.placing _ (hR.toDataRel.storeString _ _ _ _)
    space := hR.toDataRel.incrementDataPc
    directive := hR.alignDirective
    common := fun s => hR.alignData s 2 }

lemma clearLabels (env : Env) : Keeps R (clearLabels env) := hR.toSymbolRel.toRecordRel.clearLabels env

theorem emitOne (env : Env) (n : AstNode) (hd : ∀ name ∈ n.defines, name ∈ D)
    (hg : ∀ name ∈ n.globals, name ∈ G) : Keeps R (emitOne env n) :=
  (hR.toNodeRel env).emitOne n hd hg (fun _ r => hR.storeInstruction env r) (fun kind a _ s => hR.emitDirSeg s kind a)
    fun v _ s => hR.emitDirAlign s v

/-- A run of emit_ast whose nodes only define names in `D` and declare names in `G` global. -/
theorem emitNodes (env : Env) (hlog : ∀ (s : Asm) k, R.rel s (s.log (.emitted k)))
    (ns : List (NodeRef × AstNode)) (hd : ∀ n ∈ ns, ∀ name ∈ n.2.defines, name ∈ D)
    (hg : ∀ n ∈ ns, ∀ name ∈ n.2.globals, name ∈ G) : Keeps R (emitNodes env ns) :=
  hR.toSymbolRel.toRecordRel.emitNodes env hlog ns fun n hn => hR.emitOne env n.2 (hd n hn) (hg n hn)

end LabelRel

/-! A run of emit_ast, node by node. -/

/-- What emit_ast does for a node. -/
def emitNode (env : Env) (n : NodeRef × AstNode) : Assemble Unit := do
  logEvent (.emitted n.1)
  emitOne env n.2
  onlyIf (n.2.keepsLabels = false) (clearLabels env)

lemma emitNodes_cons (env : Env) (n : NodeRef × AstNode) (ns : List (NodeRef × AstNode)) :
    emitNodes env (n :: ns) = emitNode env n >>= fun _ => emitNodes env ns := by
  simp only [emitNodes, emitNode, bind_assoc]

theorem emitNodes_run {env : Env} {ns : List (NodeRef × AstNode)} {s t : Asm} :
    (emitNodes env ns).run s = .ok () t ↔
      CommandRun (emitNode env) (fun _ _ => True) s ns t := by
  induction ns generalizing s with
  | nil =>
    constructor
    · rintro ⟨⟩
      exact .nil _
    · rintro ⟨⟩
      rfl
  | cons n ns ih =>
    rw [emitNodes_cons]
    constructor
    · intro h
      obtain ⟨_, u, hu, h⟩ := ok_of_bind h
      exact .cons trivial hu (ih.mp h)
    · rintro ⟨⟩
      rename_i u _ hu hr
      rw [EStateM.run_bind, hu]
      exact ih.mpr hr

end Spimulator
