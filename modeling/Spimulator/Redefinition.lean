import Spimulator.DataInText
import Spimulator.LocalLabels
import Spimulator.TextRoom

/-! A second definition of a label. It is reported, and still the label waits on the line, so that
an alignment that follows moves it away from its first address. -/
namespace Spimulator
open Frame

/-! Where labels move. -/

/-- Where the alignment of a data directive moves the labels of the line, if it does. -/
def Asm.directiveTo (s : Asm) (alignment : Word) : Option Word :=
  if s.dataDir = true ∧ (s.autoAlign = true ∨ s.enableDataAutoAlignment = true) then
    some (alignUp alignment s.currentDataPc)
  else none

/-- Where the alignment at the head of a statement moves the labels of the line, if it does. -/
def AstNode.moveTo (n : AstNode) (s : Asm) : Option Word :=
  match n with
  | .dataInt .half _ => s.directiveTo 1
  | .dataInt .word _ => s.directiveTo 2
  | .dataFp kind _ => s.directiveTo (if kind = .float then 2 else 3)
  | .dirAlign v =>
    if v = 0 then none else some (alignUp v (if s.textDir then s.currentTextPc else s.currentDataPc))
  | .dirComm _ _ => some (alignUp 2 s.currentDataPc)
  | _ => none

lemma moveTo_log (n : AstNode) (s : Asm) (e : AsmEvent) : n.moveTo (s.log e) = n.moveTo s := by
  cases n with
  | dataInt kind _ => cases kind <;> rfl
  | _ => rfl

/-- The labels of the line have moved there, and of the symbols nothing else has changed. -/
structure Moved (s t : Asm) (dest : Option Word) : Prop where
  table : t.toSymbolTable = s.toSymbolTable
  pending : t.thisLineLabels = s.thisLineLabels
  used : t.usedSymbols = s.usedSymbols
  label : ∀ l, t.label l = dest.elim (s.label l) fun a =>
    if l ∈ s.thisLineLabels then { s.label l with addr := a } else s.label l

namespace Moved

variable {s t u : Asm}

lemma still (ht : t.symbols = s.symbols) (hu : t.usedSymbols = s.usedSymbols) : Moved s t none := by
  obtain ⟨htable, hl, hp, -⟩ := symbols_eq_iff.mp ht
  exact ⟨htable, hp, hu, fun l => congrFun hl l⟩

lemma fix (s : Asm) (a : Word) : Moved s (s.fixCurrentLabelAddress a) (some a) :=
  ⟨rfl, rfl, rfl, fun l => s.label_fixCurrentLabelAddress a l⟩

lemma after_still {dest : Option Word} (h : Moved s t none) (h' : Moved t u dest) :
    Moved s u dest := by
  refine ⟨h'.table.trans h.table, h'.pending.trans h.pending, h'.used.trans h.used, fun l => ?_⟩
  rw [h'.label, h.label, h.pending]
  rfl

lemma again {a : Word} (h : Moved s t (some a)) (h' : Moved t u (some a)) : Moved s u (some a) := by
  refine ⟨h'.table.trans h.table, h'.pending.trans h.pending, h'.used.trans h.used, fun l => ?_⟩
  rw [h'.label, h.label, h.pending]
  by_cases hl : l ∈ s.thisLineLabels <;> simp [hl]

/-- Where no label waits, there is none to move. -/
lemma empty {a : Option Word} (hp : s.thisLineLabels = []) (h : Moved s t none) : Moved s t a := by
  refine ⟨h.table, h.pending, h.used, fun l => ?_⟩
  rw [h.label, hp]
  cases a <;> simp

lemma dataPc (s : Asm) (v : Word) : Moved s (s.setDataPc v) none := by
  unfold Asm.setDataPc
  split <;> exact still rfl rfl

lemma textPc (s : Asm) (v : Word) : Moved s (s.setTextPc v) none := by
  unfold Asm.setTextPc
  split <;> exact still rfl rfl

end Moved

lemma currentTextPc_setTextPc (s : Asm) (v : Word) : (s.setTextPc v).currentTextPc = v := by
  unfold Asm.setTextPc Asm.currentTextPc
  cases s.textInKernel <;> simp

lemma moved_alignData (s : Asm) {k : Word} (hk : k ≠ 0) :
    Moved s (s.alignData k) (some (alignUp k s.currentDataPc)) := by
  unfold Asm.alignData
  rw [if_neg hk]
  dsimp only
  rw [currentDataPc_setDataPc]
  exact (Moved.dataPc s _).after_still (Moved.fix _ _)

lemma moved_alignText (s : Asm) {k : Word} (hk : k ≠ 0) :
    Moved s (s.alignText k) (some (alignUp k s.currentTextPc)) := by
  unfold Asm.alignText
  rw [if_neg hk]
  dsimp only
  rw [currentTextPc_setTextPc]
  exact (Moved.textPc s _).after_still (Moved.fix _ _)

lemma moved_alignDirective (s : Asm) {k : Word} (hk : k ≠ 0) :
    Moved s (s.alignDirective k) (s.directiveTo k) := by
  unfold Asm.alignDirective Asm.directiveTo
  cases hdir : s.dataDir with
  | false =>
    have hstill : s.alignLabelsTo k = s := if_pos (Or.inl hdir)
    simp only [hstill, hdir, Bool.false_eq_true, if_false, false_and]
    exact Moved.still rfl rfl
  | true =>
    have hlabels : Moved s (s.alignLabelsTo k)
        (if s.autoAlign = true then some (alignUp k s.currentDataPc) else none) := by
      unfold Asm.alignLabelsTo
      by_cases ha : s.autoAlign = true
      · by_cases hp : s.thisLineLabels = []
        · rw [if_pos (Or.inr (Or.inr hp))]
          exact Moved.empty hp (Moved.still rfl rfl)
        · rw [if_neg (by simp [hdir, ha, hp]), if_pos ha]
          exact Moved.fix s _
      · rw [if_pos (Or.inr (Or.inl (by simpa using ha))), if_neg ha]
        exact Moved.still rfl rfl
    have hsame : (s.alignLabelsTo k).dataDir = true ∧
        (s.alignLabelsTo k).enableDataAutoAlignment = s.enableDataAutoAlignment ∧
          (s.alignLabelsTo k).currentDataPc = s.currentDataPc := by
      unfold Asm.alignLabelsTo
      split <;> exact ⟨hdir, rfl, rfl⟩
    generalize s.alignLabelsTo k = t at hlabels hsame
    obtain ⟨hd, he, hpc⟩ := hsame
    unfold Asm.setDataAlignment
    rw [if_pos hd, he]
    by_cases henable : s.enableDataAutoAlignment = true
    · have hdata := moved_alignData t hk
      rw [hpc] at hdata
      rw [if_pos henable, if_pos ⟨rfl, Or.inr henable⟩]
      by_cases ha : s.autoAlign = true
      · rw [if_pos ha] at hlabels
        exact hlabels.again hdata
      · rw [if_neg ha] at hlabels
        exact hlabels.after_still hdata
    · rw [if_neg henable]
      simpa [henable] using hlabels

/-- The alignment of a statement moves the labels of the line where it says. -/
theorem moved_align (n : AstNode) (s : Asm) : Moved s (n.align s) (n.moveTo s) := by
  cases n with
  | dataInt kind es =>
    cases kind with
    | byte => exact Moved.still rfl rfl
    | half | word => exact moved_alignDirective s (by decide)
  | dataFp kind vs => exact moved_alignDirective s (by cases kind <;> decide)
  | dirComm name size => exact moved_alignData s (by decide)
  | dirAlign v =>
    change Moved s (emitDirAlign v s) (if v = 0 then none else _)
    unfold emitDirAlign
    by_cases hv : v = 0
    · subst hv
      simp only [if_true]
      split <;> exact Moved.still rfl rfl
    · simp only [if_neg hv]
      split
      · exact moved_alignText s hv
      · exact moved_alignData s hv
  | _ => exact Moved.still rfl rfl

/-! A label with an address. -/

/-- The entry of the name has the address `a`. -/
structure BoundAt (r : LabelRef) (N : String) (a : Word) (s : Asm) : Prop extends EntryOf r N s where
  addr : (s.label r).addr = a

/-- The symbol keeps its address, and is used by this address only. -/
def boundAt (r : LabelRef) (N : String) (a : Word) : Rel Asm where
  rel s t := BoundAt r N a s → BoundAt r N a t ∧
    ∃ new, t.usedSymbols = new ++ s.usedSymbols ∧ ∀ x ∈ new, x.1 = r → x.2 = a
  refl _ h := ⟨h, [], rfl, by simp⟩
  trans {s t u} h h' hs := by
    obtain ⟨ht, new, hu, hnew⟩ := h hs
    obtain ⟨hu', new', hu'', hnew'⟩ := h' ht
    refine ⟨hu', new' ++ new, ?_, fun x hx => ?_⟩
    · rw [hu'', hu, List.append_assoc]
    · rcases List.mem_append.mp hx with hx | hx
      · exact hnew' x hx
      · exact hnew x hx

section

variable (r : LabelRef) (N : String) (a : Word)

lemma boundAt_of (s t : Asm) (hu : t.usedSymbols = s.usedSymbols)
    (h : BoundAt r N a s → BoundAt r N a t) : (boundAt r N a).rel s t :=
  fun hs => ⟨h hs, [], hu, by simp⟩

lemma boundAt_setLabel (s : Asm) (l : LabelRef) (x : Label) (hn : x.name = (s.label l).name)
    (ha : x.addr = (s.label l).addr) : (boundAt r N a).rel s (s.setLabel l x) := by
  refine boundAt_of r N a s _ rfl fun hs => { hs.toEntryOf.setLabel hn with addr := ?_ }
  rw [label_setLabel]
  by_cases hr : r = l
  · rw [hr, Function.update_self, ha, ← hr]
    exact hs.addr
  · rw [Function.update_of_ne hr]
    exact hs.addr

lemma boundAt_same (s t : Asm) (h : t.symbols = s.symbols) (hu : t.usedSymbols = s.usedSymbols) :
    (boundAt r N a).rel s t := by
  refine boundAt_of r N a s t hu fun hs => { hs.toEntryOf.same h with addr := ?_ }
  obtain ⟨-, hl, -, -⟩ := symbols_eq_iff.mp h
  rw [hl]
  exact hs.addr

lemma boundAt_use (s : Asm) (l : LabelRef) (_ : (s.label l).isDefined = true) :
    (boundAt r N a).rel s (s.log (.used l (s.label l).addr)) := by
  intro hs
  refine ⟨{ hs.toEntryOf.same rfl with addr := hs.addr }, [(l, (s.label l).addr)], rfl, ?_⟩
  rintro x hx rfl
  rw [List.mem_singleton.mp hx] at hs ⊢
  exact hs.addr

/-- Nothing in the emission but the moves changes the address, as long as a name without one is not
defined. -/
theorem stillRel_boundAt :
    StillRel { name | a = 0 → name ≠ N } Set.univ (boundAt r N a) := by
  have hR := resolveRel_of_same (boundAt_same r N a) (boundAt_use r N a)
  refine StillRel.of_symbolRel (boundAt_same r N a)
    { hR with
      labelDef := fun s _ _ _ => boundAt_same r N a s _ rfl rfl
      newLabel := fun s name h => boundAt_of r N a s _ rfl fun hs =>
        { hs.toEntryOf.newLabel h with addr := ?_ }
      clearUses := fun s l => boundAt_setLabel r N a s l _ rfl rfl
      define := fun s l b hl hb => boundAt_of r N a s _ rfl fun hs =>
        ⟨hs.toEntryOf.setLabel rfl, ?_⟩
      linkLocal := fun s l _ _ => boundAt_of r N a s _ rfl fun hs => { hs with }
      declareGlobal := fun s l _ => boundAt_setLabel r N a s l _ rfl rfl
      constant := fun s l _ => boundAt_setLabel r N a s l _ rfl rfl
      pend := fun s l _ => boundAt_of r N a s _ rfl fun hs => { hs with }
      unpend := fun s l ls _ _ => boundAt_of r N a s _ rfl fun hs => { hs with }
      parseError := fun s _ hr => boundAt_of r N a s _ rfl fun hs => { hs with } }
    fun s l _ _ => boundAt_setLabel r N a s l _ rfl rfl
  · rw [Asm.label_newLabel, if_neg (Nat.ne_of_lt hs.old)]
    exact hs.addr
  · have hne : r ≠ l := by
      rintro rfl
      exact hl (hs.addr.symm.trans hb) hs.name
    rw [label_setLabel, Function.update_of_ne hne]
    exact hs.addr

end

/-- The labels of the line move, and the symbol with them if it waits there. -/
lemma Moved.boundAt {s t : Asm} {dest : Option Word} {r : LabelRef} {N : String} {a b : Word}
    (h : Moved s t dest) (hs : BoundAt r N a s)
    (hb : b = if r ∈ s.thisLineLabels then dest.getD a else a) : BoundAt r N b t := by
  refine ⟨hs.toEntryOf.relabel (congrArg SymbolTable.table h.table)
    (congrArg SymbolTable.nextLabel h.table) fun l => ?_, ?_⟩
  · rw [h.label]
    cases dest with
    | none => rfl
    | some c =>
      dsimp only [Option.elim_some]
      split <;> rfl
  · rw [h.label, hb]
    cases dest with
    | none =>
      simp only [Option.elim_none, Option.getD_none, ite_self]
      exact hs.addr
    | some c =>
      dsimp only [Option.elim_some, Option.getD_some]
      split
      · rfl
      · exact hs.addr

section

variable {env : Env} {r : LabelRef} {N : String} {a : Word} {n : NodeRef × AstNode} {s t : Asm}

/-- What follows the alignment of a statement leaves the symbol at the address that it has then. -/
lemma boundAt_emitPlaced {m : AstNode} (hd : ∀ name ∈ m.defines, a = 0 → name ≠ N) :
    Keeps (boundAt r N a) (emitPlaced env m) := by
  have hR := stillRel_boundAt r N a
  exact (hR.toPlaceRel env).emitPlaced m hd (fun _ _ => trivial)
    (fun kind vs _ => keeps_emitDataFpNode (hR.toStoreRel.toDataRel.storeDataFp env kind) vs)
    (fun _ i => hR.toStoreRel.storeInstruction env i) fun kind v _ => hR.emitDirSeg kind v

lemma boundAt_clearLabels : Keeps (boundAt r N a) (clearLabels env) :=
  (stillRel_boundAt r N a).toRecordRel.clearLabels env

/-- A statement whose alignment, if the symbol waits on the line, leads to its own address. -/
theorem boundAt_emitNode (ha : a ≠ 0)
    (hstill : r ∈ s.thisLineLabels → ∀ b, n.2.moveTo s = some b → b = a) :
    KeepsFrom (boundAt r N a) (emitNode env n) s := by
  refine KeepsFrom.bind (KeepsFrom.modify (boundAt_same r N a s _ rfl rfl)) fun _ u hu => ?_
  cases hu
  rw [emitOne_eq]
  have hmoved : Moved (s.log (.emitted n.1)) (n.2.align (s.log (.emitted n.1))) (n.2.moveTo s) := by
    rw [← moveTo_log n.2 s (.emitted n.1)]
    exact moved_align n.2 _
  refine KeepsFrom.bind (KeepsFrom.bind (KeepsFrom.modify ?_) fun _ t _ =>
    boundAt_emitPlaced (fun _ _ h => absurd h ha) t) fun _ t _ =>
      Keeps.onlyIf boundAt_clearLabels t
  refine boundAt_of r N a _ _ hmoved.used fun hs => hmoved.boundAt hs ?_
  by_cases hr : r ∈ s.thisLineLabels
  · cases hto : n.2.moveTo s with
    | none => simp
    | some b => simp [hstill hr b hto]
  · exact (if_neg hr).symm

end

/-- Along the emission of the statements, an alignment that finds the symbol on its line leads to
the address `a`. -/
def KeepsPlace (env : Env) (r : LabelRef) (a : Word) (s : Asm) (ns : List (NodeRef × AstNode)) :
    Prop :=
  ∀ mid n u t, mid ++ [n] <+: ns → (emitNodes env mid).run s = .ok () u →
    (emitNode env n).run u = .ok () t → r ∈ u.thisLineLabels → ∀ b, n.2.moveTo u = some b → b = a

theorem boundAt_emitNodes {env : Env} {r : LabelRef} {N : String} {a : Word} {s u : Asm}
    {ns : List (NodeRef × AstNode)} (ha : a ≠ 0) (hstill : KeepsPlace env r a s ns)
    (h : (emitNodes env ns).run s = .ok () u) : (boundAt r N a).rel s u := by
  induction ns generalizing s with
  | nil =>
    cases h
    exact (boundAt r N a).refl _
  | cons n ns ih =>
    rw [emitNodes_cons] at h
    obtain ⟨_, t, ht, h⟩ := ok_of_bind h
    have hn : (boundAt r N a).rel s t := by
      have hkeeps : KeepsFrom (boundAt r N a) (emitNode env n) _ :=
        boundAt_emitNode ha (hstill [] n _ t (List.prefix_append [n] ns) rfl ht)
      rw [KeepsFrom, ht] at hkeeps
      exact hkeeps
    refine (boundAt r N a).trans hn (ih (fun mid m v w hp hv hw => ?_) h)
    refine hstill (n :: mid) m v w ((List.prefix_cons_inj n).mpr hp) ?_ hw
    rw [emitNodes_cons, run_bind_of_ok ht]
    exact hv

/-! The second definition. -/

/-- The name that a definition of a label defines. -/
def AstNode.labelName : AstNode → Option String
  | .labelNormal name | .labelConst name _ => some name
  | _ => none

/-- The second definition of a name is reported. -/
def Asm.reject (s : Asm) (name : String) : Asm :=
  Asm.log { s with
    parseErrorOccurred := true
    parseErrorsSeen := s.parseErrorsSeen + 1 } (.report (.duplicateLabel name))

/-- The second definition is reported, and neither an address nor another label has changed. -/
structure Rejected (N : String) (r : LabelRef) (s t : Asm) : Prop where
  reported : t.duplicates = N :: s.duplicates
  address : (t.label r).addr = (s.label r).addr
  others : ∀ l, l ≠ r → t.label l = s.label l
  pending : ∀ l, l ≠ r ∨ l ∈ s.thisLineLabels → (l ∈ t.thisLineLabels ↔ l ∈ s.thisLineLabels)
  table : t.toSymbolTable = s.toSymbolTable
  used : t.usedSymbols = s.usedSymbols

section

variable {env : Env} {r : LabelRef} {N : String} {d : NodeRef × AstNode} {s t : Asm}

/-- record_label for a name with an address. -/
lemma recordLabel_second (hr : s.labelIsDefined N = some r) (hg : (s.label r).gpFlag = false)
    (ha : (s.label r).addr ≠ 0) (v : Word) (resolve : Bool) :
    (recordLabel env N v resolve).run s = .ok r (s.reject N) := by
  have hentry : (recordEntry env r N v resolve).run s = .ok () (s.reject N) := by
    change (if (s.label r).gpFlag = false ∧ (s.label r).addr ≠ 0 then
      parseErrorWith (.duplicateLabel N) else _ : Assemble Unit).run s = _
    rw [if_pos ⟨hg, ha⟩]
    rfl
  change (lookupLabel N >>= fun l => recordEntry env l N v resolve >>= fun _ => pure l).run s = _
  rw [run_bind_of_ok (lookupLabel_found hr), run_bind_of_ok hentry]
  rfl

lemma emitOne_labelNormal (env : Env) (name : String) (s : Asm) :
    (emitOne env (.labelNormal name)).run s = (recordLabel env name
      (if s.textDir then s.currentTextPc else s.currentDataPc) false >>= consLabel).run s := rfl

lemma emitOne_labelConst (env : Env) (name : String) (v : Word) (s : Asm) :
    (emitOne env (.labelConst name v)).run s = (recordLabel env name v true >>= fun l =>
      modify fun s => s.setLabel l { s.label l with constFlag := true }).run s := rfl

lemma emitNode_keeping (hk : d.2.keepsLabels = true)
    (h : (emitOne env d.2).run (s.log (.emitted d.1)) = .ok () t) :
    (emitNode env d).run s = .ok () t := by
  change (emitOne env d.2 >>= fun _ => onlyIf (d.2.keepsLabels = false) (clearLabels env)).run
    (s.log (.emitted d.1)) = _
  rw [run_bind_of_ok h, onlyIf_neg (by simp [hk])]
  rfl

/-- The label waits on the line. -/
def Asm.pend (s : Asm) (l : LabelRef) : Asm := { s with thisLineLabels := l :: s.thisLineLabels }

lemma rejected_pend (h : Rejected N r s t) (hp : t.thisLineLabels = s.thisLineLabels) :
    Rejected N r s (t.pend r) := by
  refine ⟨h.reported, h.address, h.others, fun l hl => ?_, h.table, h.used⟩
  change l ∈ r :: t.thisLineLabels ↔ _
  rw [hp, List.mem_cons, or_iff_right_iff_imp]
  rintro rfl
  exact hl.resolve_left fun h => h rfl

lemma rejected_reject (s : Asm) (k : NodeRef) (N : String) (r : LabelRef) :
    Rejected N r s ((s.log (.emitted k)).reject N) :=
  ⟨rfl, rfl, fun _ _ => rfl, fun _ _ => Iff.rfl, rfl, rfl⟩

lemma rejected_constant (h : Rejected N r s t) :
    Rejected N r s (t.setLabel r { t.label r with constFlag := true }) := by
  refine ⟨h.reported, ?_, fun l hl => ?_, h.pending, h.table, h.used⟩
  · rw [label_setLabel, Function.update_self]
    exact h.address
  · rw [label_setLabel, Function.update_of_ne hl]
    exact h.others l hl

/-- The definition of a label with an address is rejected, and a normal label waits on the line. -/
theorem emitNode_second (hd : d.2.labelName = some N) (hr : s.labelIsDefined N = some r)
    (hg : (s.label r).gpFlag = false) (ha : (s.label r).addr ≠ 0) :
    ∃ t, (emitNode env d).run s = .ok () t ∧ Rejected N r s t := by
  have hrecord (v : Word) (resolve : Bool) : (recordLabel env N v resolve).run
      (s.log (.emitted d.1)) = .ok r ((s.log (.emitted d.1)).reject N) :=
    recordLabel_second (s := s.log (.emitted d.1)) hr hg ha v resolve
  have hrejected := rejected_reject s d.1 N r
  obtain ⟨k, n⟩ := d
  cases n with
  | labelNormal name =>
    cases hd
    refine ⟨((s.log (.emitted k)).reject N).pend r, emitNode_keeping rfl ?_,
      rejected_pend hrejected rfl⟩
    rw [emitOne_labelNormal, run_bind_of_ok (hrecord _ false)]
    rfl
  | labelConst name v =>
    cases hd
    refine ⟨_, emitNode_keeping rfl ?_, rejected_constant hrejected⟩
    rw [emitOne_labelConst, run_bind_of_ok (hrecord v true)]
    rfl
  | _ => cases hd

/-- record_label for a name that is found. -/
lemma recordLabel_found {l : LabelRef} {v : Word} {resolve : Bool}
    (hr : s.labelIsDefined N = some r) (hg : (s.label r).gpFlag = false)
    (h : (recordLabel env N v resolve).run s = .ok l t) :
    l = r ∧ (Recorded s t r v resolve ∨ SecondDefinition s t r N) := by
  change (lookupLabel N >>= fun l => recordEntry env l N v resolve >>= fun _ => pure l).run s = _
    at h
  rw [run_bind_of_ok (lookupLabel_found hr)] at h
  obtain ⟨_, u, hu, h⟩ := ok_of_bind h
  cases h
  exact ⟨rfl, recordEntry_run hg hu⟩

/-- The definition of a label at 0 is not reported. -/
theorem emitNode_first (hd : d.2.labelName = some N) (hr : s.labelIsDefined N = some r)
    (hg : (s.label r).gpFlag = false) (ha : (s.label r).addr = 0)
    (h : (emitNode env d).run s = .ok () t) : t.duplicates = s.duplicates := by
  have hfirst {l : LabelRef} {v : Word} {resolve : Bool} {u : Asm}
      (hu : (recordLabel env N v resolve).run (s.log (.emitted d.1)) = .ok l u) :
      u.duplicates = s.duplicates := by
    rcases (recordLabel_found (s := s.log (.emitted d.1)) hr hg hu).2 with h | h
    · exact h.duplicates
    · exact absurd ha h.defined
  obtain ⟨k, n⟩ := d
  obtain ⟨_, _, ⟨⟩, h⟩ := ok_of_bind h
  obtain ⟨_, u, hu, h⟩ := ok_of_bind h
  cases n with
  | labelNormal name =>
    cases hd
    cases h
    rw [emitOne_labelNormal] at hu
    obtain ⟨l, v, hv, hu⟩ := ok_of_bind hu
    have hdup := hfirst hv
    cases hu
    exact hdup
  | labelConst name v =>
    cases hd
    cases h
    rw [emitOne_labelConst] at hu
    obtain ⟨l, v, hv, hu⟩ := ok_of_bind hu
    have hdup := hfirst hv
    cases hu
    exact hdup
  | _ => cases hd

/-- .comm for a label at 0, at location counter 0. -/
lemma boundAt_reserve (hs : BoundAt r N 0 s) (hg : (s.label r).gpFlag = false)
    (hpc : s.currentDataPc = 0) {size : Word} (h : (emitReserve env N size).run s = .ok () t) :
    BoundAt r N 0 t := by
  change (lookupLabel N >>= fun l => get >>= fun s => onlyIf ((s.label l).addr = 0)
    (recordLabel env N s.currentDataPc true >>= fun _ => pure ()) >>= fun _ =>
      incrementDataPc size).run s = _ at h
  rw [run_bind_of_ok (lookupLabel_found hs.found)] at h
  obtain ⟨_, _, ⟨⟩, h⟩ := ok_of_bind h
  obtain ⟨_, u, hu, h⟩ := ok_of_bind h
  rw [onlyIf_pos hs.addr, hpc] at hu
  obtain ⟨l, _, hl, hu⟩ := ok_of_bind hu
  cases hu
  have hu : BoundAt r N 0 u := by
    rcases (recordLabel_found hs.found hg hl).2 with hrec | hsecond
    · refine ⟨hs.toEntryOf.relabel hrec.table hrec.nextLabel fun k => ?_, ?_⟩
      · rw [hrec.label]
        by_cases hk : k = r
        · rw [hk, Function.update_self]
        · rw [Function.update_of_ne hk]
      · rw [hrec.label, Function.update_self]
    · exact absurd hs.addr hsecond.defined
  exact ((stillRel_boundAt r N 0).toStoreRel.toDataRel.incrementDataPc size).ok h hu |>.1

/-- A statement whose alignment moves the symbol leaves it there. -/
theorem boundAt_moved {n : NodeRef × AstNode} {a b : Word} (hs : BoundAt r N a s)
    (hg : (s.label r).gpFlag = false) (hr : r ∈ s.thisLineLabels) (hb : n.2.moveTo s = some b)
    (h : (emitNode env n).run s = .ok () t) : BoundAt r N b t := by
  obtain ⟨_, _, ⟨⟩, h⟩ := ok_of_bind h
  obtain ⟨_, u, hu, h⟩ := ok_of_bind h
  refine ((Keeps.onlyIf boundAt_clearLabels).ok h ?_).1
  rw [emitOne_eq] at hu
  obtain ⟨_, v, hv, hu⟩ := ok_of_bind hu
  have hmoved := moved_align n.2 (s.log (.emitted n.1))
  rw [moveTo_log, hb] at hmoved
  have hv' : BoundAt r N b v := by
    cases hv
    refine hmoved.boundAt (a := a) { hs.toEntryOf.same rfl with addr := hs.addr } ?_
    exact (if_pos hr).symm
  have hplaced (hd : ∀ name ∈ n.2.defines, b = 0 → name ≠ N) : BoundAt r N b u :=
    ((boundAt_emitPlaced hd).ok hu hv').1
  by_cases hzero : b = 0
  · obtain ⟨k, n⟩ := n
    cases n with
    | dirComm name size =>
      by_cases hname : name = N
      · subst hname hzero
        cases hv
        refine boundAt_reserve hv' ?_ ((currentDataPc_setDataPc _ _).trans (Option.some.inj hb)) hu
        rw [hmoved.label]
        dsimp only [Option.elim_some]
        split <;> exact hg
      · exact hplaced fun name h _ => by rwa [List.mem_singleton.mp h]
    | dataInt | dataFp | dirAlign => exact hplaced (by simp [AstNode.defines])
    | _ => cases hb
  · exact hplaced fun _ _ h => absurd h hzero

end

/-! The rest of the file. -/

/-- The state after some statements of the tree, or at its end. -/
def Reaches (env : Env) (ns : List (NodeRef × AstNode)) (s u : Asm) : Prop :=
  (∃ mid, mid <+: ns ∧ (emitNodes env mid).run s = .ok () u) ∨ (emitAst env ns).run s = .ok () u

/-- The definition `d` of a name that has an entry already is reported and changes no address. If
the line of the first definition is over, the symbol keeps its address in the rest of the file, and
is used by this address only. -/
structure ChangesNothing (env : Env) (d : NodeRef × AstNode) (rest : List (NodeRef × AstNode))
    (N : String) (r : LabelRef) (s : Asm) : Prop where
  rejected : ∃ t, (emitNode env d).run s = .ok () t ∧ Rejected N r s t
  keeps : r ∉ s.thisLineLabels → ∀ u, Reaches env (d :: rest) s u →
    u.labelIsDefined N = some r ∧ (u.label r).addr = (s.label r).addr ∧
      ∃ new, u.usedSymbols = new ++ s.usedSymbols ∧ ∀ x ∈ new, x.1 = r → x.2 = (s.label r).addr

section

variable {env : Env} {r : LabelRef} {N : String} {a : Word} {d : NodeRef × AstNode}
  {rest : List (NodeRef × AstNode)} {s u : Asm}

lemma boundAt_reaches (ha : a ≠ 0) (hstill : KeepsPlace env r a s rest)
    (hu : Reaches env rest s u) : (boundAt r N a).rel s u := by
  rcases hu with ⟨mid, hmid, hu⟩ | hu
  · exact boundAt_emitNodes ha (fun pre n v t hp => hstill pre n v t (hp.trans hmid)) hu
  · obtain ⟨_, v, hv, hu⟩ := ok_of_bind hu
    exact (boundAt r N a).trans (boundAt_emitNodes ha hstill hv) (boundAt_clearLabels.ok hu)

theorem changesNothing_iff (hs : s.WellFormed) (hd : d.2.labelName = some N)
    (hr : s.labelIsDefined N = some r) :
    ChangesNothing env d rest N r s ↔ (s.label r).addr ≠ 0 ∧
      (r ∉ s.thisLineLabels → KeepsPlace env r (s.label r).addr s (d :: rest)) := by
  constructor
  · rintro ⟨⟨t, ht, hrejected⟩, hkeeps⟩
    refine ⟨fun ha => ?_, fun hp mid n u v hmid hu hv hru b hb => ?_⟩
    · have hdup := (emitNode_first hd hr (hs.noGp r) ha ht).symm.trans hrejected.reported
      simpa using congrArg List.length hdup
    · obtain ⟨hfound, haddr, -⟩ := hkeeps hp u
        (Or.inl ⟨mid, (List.prefix_append mid [n]).trans hmid, hu⟩)
      have hw : u.WellFormed := (symbolsKeep_wellFormed.toSymbolsRel.emitNodes env mid
        (fun _ _ _ _ => trivial) fun _ _ _ _ => trivial).ok hu hs
      have hmoved := boundAt_moved { hw.entryOf hfound with addr := rfl } (hw.noGp r) hru hb hv
      have hvr : (emitNodes env (mid ++ [n])).run s = .ok () v := by
        rw [emitNodes_append, run_bind_of_ok hu, emitNodes_cons, run_bind_of_ok hv]
        rfl
      exact hmoved.addr.symm.trans (hkeeps hp v (Or.inl ⟨_, hmid, hvr⟩)).2.1
  · rintro ⟨ha, hstill⟩
    refine ⟨emitNode_second hd hr (hs.noGp r) ha, fun hp u hu => ?_⟩
    obtain ⟨hbound, hused⟩ := boundAt_reaches (N := N) ha (hstill hp) hu
      { hs.entryOf hr with addr := rfl }
    exact ⟨hbound.found, hbound.addr, hused⟩

end

/-! Files. -/

lemma wellFormed_parse {f : FileLoad} {s p : Asm} (hs : s.WellFormed)
    (hp : (parseTree f.1).run (parserInit f.2 s) = .ok () p) : p.WellFormed :=
  (symbolsKeep_wellFormed.toSymbolsRel.toParseRel.parseTree f.1).ok hp
    (symbolsKeep_wellFormed.same s (parserInit f.2 s) rfl hs)

lemma wellFormed_load {f : FileLoad} {s u : Asm} (hs : s.WellFormed)
    (h : f.run.run s = .ok () u) : u.WellFormed := by
  obtain ⟨p, t, hp, ht, hu⟩ := loadSource_parsed h
  have hw := wellFormed_parse hs hp
  have ht : t.WellFormed := by
    rcases ht with ⟨-, rfl⟩ | ⟨ns, -, -, ht⟩
    · exact hw
    · exact (symbolsKeep_wellFormed.toSymbolsRel.emitAst f.1.toEnv ns (fun _ _ _ _ => trivial)
        fun _ _ _ _ => trivial).ok ht hw
  exact (endFile_flushed ht hu).1.wellFormed

/-- After the files `before`, the statements of the file `f` up to the definition `d` of the name `N`
lead to `s`, where the name has the entry `r`. -/
structure DefinedAgain (env : AsmEnv) (before : List FileLoad) (f : FileLoad)
    (d : NodeRef × AstNode) (rest : List (NodeRef × AstNode)) (N : String) (r : LabelRef)
    (s : Asm) : Prop where
  run : ∃ s₀ p lead, CommandRun FileLoad.run (fun _ _ => True) (.fresh env) before s₀ ∧
    (parseTree f.1).run (parserInit f.2 s₀) = .ok () p ∧
      p.currentFile = some (lead ++ d :: rest) ∧ (emitNodes f.1.toEnv lead).run p = .ok () s
  name : d.2.labelName = some N
  entry : s.labelIsDefined N = some r

lemma DefinedAgain.wellFormed {env : AsmEnv} {before : List FileLoad} {f : FileLoad}
    {d : NodeRef × AstNode} {rest : List (NodeRef × AstNode)} {N : String} {r : LabelRef} {s : Asm}
    (h : DefinedAgain env before f d rest N r s) : s.WellFormed := by
  obtain ⟨s₀, p, lead, hbefore, hp, -, hs⟩ := h.run
  have hw := hbefore.invariant (fun _ _ _ hs _ hr => wellFormed_load hs hr) (fresh_wellFormed env)
  exact (symbolsKeep_wellFormed.toSymbolsRel.emitNodes f.1.toEnv lead (fun _ _ _ _ => trivial)
    fun _ _ _ _ => trivial).ok hs (wellFormed_parse hw hp)

/-- The second definition of a label in a file changes nothing if and only if the address of the
first is not 0 and, where the line of the first is over, no alignment that finds the label waiting
again leads elsewhere than to its address. -/
theorem redefinition_changes_nothing_iff {env : AsmEnv} {before : List FileLoad} {f : FileLoad}
    {d : NodeRef × AstNode} {rest : List (NodeRef × AstNode)} {N : String} {r : LabelRef} {s : Asm}
    (h : DefinedAgain env before f d rest N r s) :
    ChangesNothing f.1.toEnv d rest N r s ↔ (s.label r).addr ≠ 0 ∧
      (r ∉ s.thisLineLabels → KeepsPlace f.1.toEnv r (s.label r).addr s (d :: rest)) :=
  changesNothing_iff h.wellFormed h.name h.entry

lemma definedAgain_of_eval {f : FileLoad} {d : NodeRef × AstNode}
    (lead rest : List (NodeRef × AstNode)) {N : String} {r : LabelRef} {q : Asm → Bool}
    (h : returnsTo (parseTree f.1) (parserInit f.2 (.fresh f.1)) (fun p =>
      decide (p.currentFile = some (lead ++ d :: rest)) &&
        returnsTo (emitNodes f.1.toEnv lead) p fun s =>
          decide (s.labelIsDefined N = some r) && q s) = true) (hd : d.2.labelName = some N) :
    ∃ s, DefinedAgain f.1 [] f d rest N r s ∧ q s = true := by
  obtain ⟨p, hp, h⟩ := of_returnsTo h
  obtain ⟨hf, h⟩ := Bool.and_eq_true_iff.mp h
  obtain ⟨s, hs, h⟩ := of_returnsTo h
  obtain ⟨hr, hq⟩ := Bool.and_eq_true_iff.mp h
  exact ⟨s, ⟨⟨_, p, lead, .nil _, hp, of_decide_eq_true hf, hs⟩, hd, of_decide_eq_true hr⟩, hq⟩

/-- A label on two instructions. -/
def labelTwice : List Lexeme :=
  [.ident "x" none, .punct ':', .ident "ssnop" (some (.op .ssnop)), .nl,
    .ident "x" none, .punct ':', .ident "ssnop" (some (.op .ssnop)), .nl]

/-- The instruction ssnop, an sll. -/
def ssnopNode : AstNode := .inst (.rShift .sll 0 0 1)

/-- The second definition changes nothing, as code does not align. -/
theorem redefinition_of_code : ∃ s,
    DefinedAgain { Env.quiet with } [] ({ Env.quiet with }, labelTwice) (2, .labelNormal "x")
      [(3, ssnopNode)] "x" 0 s ∧ ChangesNothing Env.quiet (2, .labelNormal "x") [(3, ssnopNode)] "x" 0 s := by
  obtain ⟨s, hs, ha⟩ := definedAgain_of_eval (f := ({ Env.quiet with }, labelTwice))
    (d := (2, .labelNormal "x")) [(0, .labelNormal "x"), (1, ssnopNode)] [(3, ssnopNode)]
    (N := "x") (r := 0)
    (q := fun s => decide ((s.label 0).addr = 0x400000)) (by decide +kernel) rfl
  refine ⟨s, hs, (redefinition_changes_nothing_iff hs).mpr ⟨?_, fun _ mid n u t hn _ _ _ b hb => ?_⟩⟩
  · rw [of_decide_eq_true ha]
    decide
  · have hmem := hn.subset (List.mem_append_right mid (List.mem_singleton_self n))
    rcases List.mem_cons.mp hmem with rfl | hmem
    · cases hb
    · rw [List.mem_singleton.mp hmem] at hb
      cases hb

/-- The directive .word with one constant. -/
def wordNode (v : Word) : AstNode := .dataInt .word [⟨v, none, 0, false⟩]

/-- A label on two words. -/
def wordTwice : List Lexeme :=
  [.ident ".data" (some (.dir .data)), .nl,
    .ident "x" none, .punct ':', .ident ".word" (some (.dir .word)), .int 1, .nl,
    .ident "x" none, .punct ':', .ident ".word" (some (.dir .word)), .int 2, .nl]

/-- The second definition is reported, and the label goes on to the second word. -/
theorem redefinition_of_word : ∃ s u,
    DefinedAgain { Env.quiet with } [] ({ Env.quiet with }, wordTwice) (3, .labelNormal "x")
      [(4, wordNode 2)] "x" 0 s ∧
        0 ∉ s.thisLineLabels ∧ (s.label 0).addr = 0x10010000 ∧
          (emitAst Env.quiet [(3, .labelNormal "x"), (4, wordNode 2)]).run s =
            .ok () u ∧ u.duplicates = ["x"] ∧ (u.label 0).addr = 0x10010004 ∧
              ¬ ChangesNothing Env.quiet (3, .labelNormal "x")
                [(4, wordNode 2)] "x" 0 s := by
  obtain ⟨s, hs, hq⟩ := definedAgain_of_eval (f := ({ Env.quiet with }, wordTwice))
    (d := (3, .labelNormal "x"))
    [(0, .dirSeg .data none), (1, .labelNormal "x"), (2, wordNode 1)] [(4, wordNode 2)]
    (N := "x") (r := 0)
    (q := fun s => decide (0 ∉ s.thisLineLabels ∧ (s.label 0).addr = 0x10010000) &&
      returnsTo (emitAst Env.quiet [(3, .labelNormal "x"), (4, wordNode 2)]) s
        fun u => decide (u.duplicates = ["x"] ∧ (u.label 0).addr = 0x10010004))
    (by decide +kernel) rfl
  obtain ⟨ha, hu⟩ := Bool.and_eq_true_iff.mp hq
  obtain ⟨hp, ha⟩ := of_decide_eq_true ha
  obtain ⟨u, hu, hmoved⟩ := of_returnsTo hu
  obtain ⟨hdup, hmoved⟩ := of_decide_eq_true hmoved
  refine ⟨s, u, hs, hp, ha, hu, hdup, hmoved, fun hc => ?_⟩
  have hsame := (hc.keeps hp u (Or.inr hu)).2.1
  rw [hmoved, ha] at hsame
  exact absurd hsame (by decide)

end Spimulator
