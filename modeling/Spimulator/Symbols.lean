import Spimulator.Loading
import Spimulator.ParseEffect

/-! The symbol table as parsing, emission and the end of a file change it. -/
namespace Spimulator
open Frame

namespace Asm

/-- The names whose second definition was reported, newest first. -/
def duplicates (s : Asm) : List String :=
  s.events.filterMap fun
    | .report (.duplicateLabel name) => some name
    | _ => none

/-- The uses of symbols by their addresses, newest first. -/
def usedSymbols (s : Asm) : List (LabelRef × Word) :=
  s.events.filterMap fun
    | .used l a => some (l, a)
    | _ => none

/-- The symbol table, its labels, the labels of the line, and the second definitions. -/
def symbols (s : Asm) : SymbolTable × (LabelRef → Label) × List LabelRef × List String :=
  (s.toSymbolTable, s.label, s.thisLineLabels, s.duplicates)

end Asm

/-- The relation allows everything that leaves the symbols and their uses alone, and of the changes
of symbols what emission does where no alignment moves the labels of the line. -/
structure StillRel (D G : Set String) (R : Rel Asm) : Prop where
  same : ∀ s t : Asm, t.symbols = s.symbols → t.usedSymbols = s.usedSymbols → R.rel s t
  use : ∀ (s : Asm) l, (s.label l).isDefined = true →
    R.rel s (s.log (.used l (s.label l).addr))
  addUse : ∀ (s : Asm) l u, (s.label l).isDefined = false →
    R.rel s (s.setLabel l { s.label l with uses := u :: (s.label l).uses })
  newLabel : ∀ (s : Asm) name, s.labelIsDefined name = none → R.rel s (s.newLabel name)
  clearUses : ∀ (s : Asm) l, R.rel s (s.setLabel l { s.label l with uses := [] })
  declareGlobal : ∀ (s : Asm) l, (s.label l).name ∈ G →
    R.rel s (s.setLabel l { s.label l with globalFlag := true })
  constant : ∀ (s : Asm) l, (s.label l).name ∈ D →
    R.rel s (s.setLabel l { s.label l with constFlag := true })
  unpend : ∀ (s : Asm) l ls, s.thisLineLabels = l :: ls → (s.label l).uses = [] →
    R.rel s { s with thisLineLabels := ls }
  record : ∀ env name a resolve, name ∈ D → Keeps R (recordLabel env name a resolve)
  labelNormal : ∀ env name, name ∈ D → Keeps R (emitLabelNormal env name)

/-- The relation also allows the moves. -/
structure SymbolsRel (D G : Set String) (R : Rel Asm) : Prop extends StillRel D G R where
  move : ∀ (s : Asm) a, R.rel s (s.fixCurrentLabelAddress a)

section

variable {R : Rel Asm}
  (same : ∀ s t : Asm, t.symbols = s.symbols → t.usedSymbols = s.usedSymbols → R.rel s t)

include same

lemma resolveRel_of_same (use : ∀ (s : Asm) l, (s.label l).isDefined = true →
    R.rel s (s.log (.used l (s.label l).addr))) : ResolveRel R where
  machine s m h := by
    have hl : (s.setMachine m).label = s.label := h.labels
    refine same s _ ?_ rfl
    rw [Asm.symbols, hl]
    rfl
  setInst s _ _ _ := same s _ rfl rfl
  report s r h := by
    refine same s _ ?_ ?_
    · cases r <;> first | rfl | cases h
    · rfl
  use := use

/-- A relation that allows the changes of labels one by one. -/
theorem StillRel.of_symbolRel {D G : Set String} (hS : SymbolRel D G R)
    (addUse : ∀ (s : Asm) l u, (s.label l).isDefined = false →
      R.rel s (s.setLabel l { s.label l with uses := u :: (s.label l).uses })) : StillRel D G R where
  same := same
  use := hS.use
  addUse := addUse
  newLabel := hS.newLabel
  clearUses := hS.clearUses
  declareGlobal := hS.declareGlobal
  constant := hS.constant
  unpend := hS.unpend
  record := hS.toRecordRel.record
  labelNormal := hS.toRecordRel.labelNormal

theorem SymbolsRel.of_symbolRel {D G : Set String} (hS : SymbolRel D G R)
    (addUse : ∀ (s : Asm) l u, (s.label l).isDefined = false →
      R.rel s (s.setLabel l { s.label l with uses := u :: (s.label l).uses }))
    (move : ∀ (s : Asm) a, R.rel s (s.fixCurrentLabelAddress a)) : SymbolsRel D G R :=
  { StillRel.of_symbolRel same hS addUse with move := move }

end

namespace StillRel

variable {D G : Set String} {R : Rel Asm} (hR : StillRel D G R)

include hR

lemma toStoreRel : StoreRel R where
  machine := (resolveRel_of_same hR.same hR.use).machine
  setInst := (resolveRel_of_same hR.same hR.use).setInst
  log s e h := by
    refine hR.same s _ ?_ ?_
    · cases e with
      | report r => cases r <;> first | rfl | cases h
      | _ => rfl
    · cases e <;> first | rfl | cases h
  use := hR.use
  addUse s l u h _ := hR.addUse s l u h
  dataPc s v := by
    unfold Asm.setDataPc
    split
    · exact hR.same s _ rfl rfl
    · exact hR.same s _ rfl rfl
  textPc s v := by
    unfold Asm.setTextPc
    split
    · exact hR.same s _ rfl rfl
    · exact hR.same s _ rfl rfl

lemma toRecordRel : RecordRel D G R :=
  { hR.toStoreRel.toResolveRel with
    newLabel := hR.newLabel
    clearUses := hR.clearUses
    declareGlobal := hR.declareGlobal
    constant := hR.constant
    unpend := hR.unpend
    record := hR.record
    labelNormal := hR.labelNormal }

lemma toPlaceRel (env : Env) : PlaceRel env D G R :=
  { hR.toRecordRel with
    addUse := hR.toStoreRel.addUse
    dataInt := hR.toStoreRel.toDataRel.storeDataInt env.tbl
    dataString := fun _ _ =>
      hR.toStoreRel.toDataRel.placing _ (hR.toStoreRel.toDataRel.storeString _ _ _ _)
    space := hR.toStoreRel.toDataRel.incrementDataPc }

lemma emitDirSeg (kind : DirSegKind) (a : Option Word) (s : Asm) :
    R.rel s (emitDirSeg kind a s) := by
  cases kind <;> cases a <;> exact hR.same s _ rfl rfl

end StillRel

namespace SymbolsRel

variable {D G : Set String} {R : Rel Asm} (hR : SymbolsRel D G R)

include hR

lemma alignData (s : Asm) (v : Word) : R.rel s (s.alignData v) :=
  rel_alignData hR.move (fun s => hR.same s _ rfl rfl) hR.toStoreRel.dataPc s v

lemma alignText (s : Asm) (v : Word) : R.rel s (s.alignText v) := by
  unfold Asm.alignText
  split
  · exact R.refl s
  · exact R.trans (hR.toStoreRel.textPc s (alignUp v s.currentTextPc)) (hR.move _ _)

lemma alignDirective (s : Asm) (v : Word) : R.rel s (s.alignDirective v) :=
  rel_alignDirective hR.move hR.alignData s v

lemma toNodeRel (env : Env) : NodeRel env D G R :=
  { hR.toPlaceRel env with
    dataFp := hR.toStoreRel.toDataRel.storeDataFp env
    directive := hR.alignDirective
    common := fun s => hR.alignData s 2 }

lemma emitDirAlign (v : Word) (s : Asm) : R.rel s (emitDirAlign v s) := by
  have hflag : R.rel s (if v = 0 then { s with autoAlign := false } else s) := by
    split
    · exact hR.same s _ rfl rfl
    · exact R.refl s
  refine R.trans hflag ?_
  unfold Spimulator.emitDirAlign
  generalize (if v = 0 then { s with autoAlign := false } else s) = t
  dsimp only
  split
  · exact hR.alignText t v
  · exact hR.alignData t v

theorem emitOne (env : Env) (n : AstNode) (hd : ∀ name ∈ n.defines, name ∈ D)
    (hg : ∀ name ∈ n.globals, name ∈ G) : Keeps R (emitOne env n) :=
  (hR.toNodeRel env).emitOne n hd hg (fun _ r => hR.toStoreRel.storeInstruction env r)
    (fun kind a _ => hR.emitDirSeg kind a) fun v _ => hR.emitDirAlign v

theorem emitNodes (env : Env) (ns : List (NodeRef × AstNode))
    (hd : ∀ n ∈ ns, ∀ name ∈ n.2.defines, name ∈ D)
    (hg : ∀ n ∈ ns, ∀ name ∈ n.2.globals, name ∈ G) : Keeps R (emitNodes env ns) :=
  hR.toRecordRel.emitNodes env (fun s _ => hR.same s _ rfl rfl) ns
    fun n hn => hR.emitOne env n.2 (hd n hn) (hg n hn)

theorem emitAst (env : Env) (ns : List (NodeRef × AstNode))
    (hd : ∀ n ∈ ns, ∀ name ∈ n.2.defines, name ∈ D)
    (hg : ∀ n ∈ ns, ∀ name ∈ n.2.globals, name ∈ G) : Keeps R (emitAst env ns) :=
  Keeps.bind (hR.emitNodes env ns hd hg) fun _ => hR.toRecordRel.clearLabels env

theorem toParseRel : ParseRel R where
  scan s _ _ _ := hR.same s _ rfl rfl
  unresolved s _ := hR.same s _ rfl rfl
  pseudo s _ := hR.same s _ rfl rfl
  append s _ _ := hR.same s _ rfl rfl
  seg s kind _ := by cases kind <;> exact hR.same s _ rfl rfl
  noAlign s := hR.same s _ rfl rfl
  nullTerm s _ := hR.same s _ rfl rfl
  newLine s := hR.same s _ rfl rfl
  newLabel := hR.newLabel
  use := hR.use
  report s r h := by
    refine hR.same s _ ?_ rfl
    cases r <;> first | rfl | cases h
  parseError s _ := hR.same s _ rfl rfl
  aligned s k _ _ := by
    refine R.trans ?_ (hR.alignDirective _ _)
    split
    · exact hR.same s _ rfl rfl
    · exact R.refl s
  clear env := hR.toRecordRel.clearLabels env

end SymbolsRel
/-! The definition of a label. -/

lemma symbols_eq_iff {s t : Asm} : t.symbols = s.symbols ↔ t.toSymbolTable = s.toSymbolTable ∧
    t.label = s.label ∧ t.thisLineLabels = s.thisLineLabels ∧ t.duplicates = s.duplicates := by
  simp only [Asm.symbols, Prod.mk.injEq]

theorem resolveRel_symbols : ResolveRel (Rel.same Asm.symbols) where
  machine s m h := by
    have hl : (s.setMachine m).label = s.label := h.labels
    exact symbols_eq_iff.mpr ⟨rfl, hl, rfl, rfl⟩
  setInst _ _ _ _ := rfl
  report s r h := by
    cases r <;> first | rfl | cases h
  use _ _ _ := rfl

lemma resolveLabelUses_symbols {env : Env} {l : LabelRef} {s t : Asm}
    (h : (resolveLabelUses env l).run s = .ok () t) :
    t.symbols = (s.setLabel l { s.label l with uses := [] }).symbols := by
  obtain ⟨_, _, h₀, h⟩ := ok_of_bind h
  cases h₀
  obtain ⟨_, u, hu, h⟩ := ok_of_bind h
  cases h
  obtain ⟨ht, hl, hp, hd⟩ := symbols_eq_iff.mp ((resolveRel_symbols.resolveUses env l _).ok hu)
  refine symbols_eq_iff.mpr ⟨ht, ?_, hp, hd⟩
  rw [label_setLabel, label_setLabel, hl]

/-- The label `l`, without an address before, is defined at `a`, and becomes local to the file if it
is not global. -/
structure Recorded (s t : Asm) (l : LabelRef) (a : Word) (resolve : Bool) : Prop where
  undefined : (s.label l).addr = 0
  table : t.table = s.table
  nextLabel : t.nextLabel = s.nextLabel
  localLabels : t.localLabels =
    if (s.label l).globalFlag then s.localLabels else l :: s.localLabels
  pending : t.thisLineLabels = s.thisLineLabels
  duplicates : t.duplicates = s.duplicates
  label : t.label = Function.update s.label l
    { s.label l with addr := a, uses := if resolve then [] else (s.label l).uses }

/-- The label `l` had an address before: a message. -/
structure SecondDefinition (s t : Asm) (l : LabelRef) (name : String) : Prop where
  defined : (s.label l).addr ≠ 0
  table : t.toSymbolTable = s.toSymbolTable
  label : t.label = s.label
  pending : t.thisLineLabels = s.thisLineLabels
  duplicates : t.duplicates = name :: s.duplicates

lemma label_log (s : Asm) (e : AsmEvent) : (s.log e).label = s.label := rfl

theorem recordEntry_run {env : Env} {l : LabelRef} {name : String} {a : Word} {resolve : Bool}
    {s t : Asm} (hg : (s.label l).gpFlag = false)
    (h : (recordEntry env l name a resolve).run s = .ok () t) :
    Recorded s t l a resolve ∨ SecondDefinition s t l name := by
  change (if (s.label l).gpFlag = false ∧ (s.label l).addr ≠ 0 then _ else _ :
    Assemble Unit).run s = _ at h
  by_cases ha : (s.label l).addr = 0
  · rw [if_neg (by simp [ha])] at h
    obtain ⟨_, s₁, h₁, h⟩ := ok_of_bind h
    obtain ⟨_, s₁', h₁', h⟩ := ok_of_bind h
    obtain ⟨_, s₂, h₂, h⟩ := ok_of_bind h
    have hs₁ : s₁' = (s.setLabel l { s.label l with addr := a }).log
        (.fired (.labelDef a l (s.label l).globalFlag)) := by
      cases h₁'
      cases h₁
      simp [hg, label_setLabel]
    have hs₂ : s₂.symbols = (s.setLabel l { s.label l with
        addr := a, uses := if resolve then [] else (s.label l).uses }).symbols := by
      subst hs₁
      cases resolve with
      | true =>
        rw [onlyIf_pos rfl] at h₂
        refine (resolveLabelUses_symbols h₂).trans (symbols_eq_iff.mpr ⟨rfl, ?_, rfl, rfl⟩)
        simp [label_setLabel, label_log]
      | false =>
        rw [onlyIf_neg (by decide)] at h₂
        cases h₂
        rfl
    obtain ⟨ht, hl, hp, hd⟩ := symbols_eq_iff.mp hs₂
    rw [label_setLabel] at hl
    have hglobal : (s₂.label l).globalFlag = (s.label l).globalFlag := by simp [hl]
    have htable : s₂.toSymbolTable = s.toSymbolTable := ht
    left
    cases h
    cases hf : (s.label l).globalFlag with
    | true =>
      simp only [hglobal, hf, if_true]
      exact ⟨ha, by rw [htable], by rw [htable], by rw [htable, hf, if_pos rfl], hp, hd, hl⟩
    | false =>
      simp only [hglobal, hf, Bool.false_eq_true, if_false]
      exact ⟨ha, by rw [htable], by rw [htable], by simp [htable, hf], hp, hd, hl⟩
  · rw [if_pos ⟨hg, ha⟩] at h
    cases h
    exact Or.inr ⟨ha, rfl, rfl, rfl, rfl⟩

/-! Tables without rivals. -/

/-- The labels of the table and of the line are allocated, as are those with an address, no two of
the table share a name, and none is of small data. -/
structure Asm.WellFormed (s : Asm) : Prop where
  nodup : s.table.Nodup
  old : ∀ l ∈ s.table, l < s.nextLabel
  pendingOld : ∀ l ∈ s.thisLineLabels, l < s.nextLabel
  unique : ∀ l ∈ s.table, ∀ k ∈ s.table, (s.label l).name = (s.label k).name → l = k
  fresh : ∀ l, (s.label l).addr ≠ 0 → l < s.nextLabel
  noGp : ∀ l, (s.label l).gpFlag = false

lemma Asm.label_newLabel (s : Asm) (name : String) (l : LabelRef) :
    (s.newLabel name).label l = if l = s.nextLabel then { name := name } else s.label l := by
  change Function.update s.label s.nextLabel { name := name } l = _
  rw [Function.update_apply]

lemma Asm.label_fixCurrentLabelAddress (s : Asm) (a : Word) (l : LabelRef) :
    (s.fixCurrentLabelAddress a).label l =
      if l ∈ s.thisLineLabels then { s.label l with addr := a } else s.label l := rfl

lemma Asm.mem_table_of_labelIsDefined {s : Asm} {name : String} {l : LabelRef}
    (h : s.labelIsDefined name = some l) : l ∈ s.table := List.mem_of_find?_eq_some h

lemma Asm.labelIsDefined_eq_none {s : Asm} {name : String} :
    s.labelIsDefined name = none ↔ ∀ l ∈ s.table, (s.label l).name ≠ name := by
  rw [Asm.labelIsDefined, List.find?_eq_none]
  simp

/-- The entry `r` of the name `N`, which has no rival. -/
structure EntryOf (r : LabelRef) (N : String) (s : Asm) : Prop where
  mem : r ∈ s.table
  name : (s.label r).name = N
  unique : ∀ l ∈ s.table, (s.label l).name = N → l = r
  old : r < s.nextLabel

namespace EntryOf

variable {r : LabelRef} {N : String} {s : Asm}

/-- Labels change, but not in their names. -/
lemma relabel {t : Asm} (h : EntryOf r N s) (ht : t.table = s.table)
    (hnext : t.nextLabel = s.nextLabel) (hn : ∀ l, (t.label l).name = (s.label l).name) :
    EntryOf r N t where
  mem := ht ▸ h.mem
  name := (hn r).trans h.name
  unique l hl hln := h.unique l (ht ▸ hl) ((hn l).symm.trans hln)
  old := hnext ▸ h.old

lemma same {t : Asm} (h : EntryOf r N s) (hs : t.symbols = s.symbols) : EntryOf r N t := by
  obtain ⟨ht, hl, -, -⟩ := symbols_eq_iff.mp hs
  refine h.relabel (congrArg SymbolTable.table ht) (congrArg SymbolTable.nextLabel ht) fun l => ?_
  rw [hl]

lemma setLabel (h : EntryOf r N s) {l : LabelRef} {x : Label} (hn : x.name = (s.label l).name) :
    EntryOf r N (s.setLabel l x) := h.relabel rfl rfl (congrFun (sameNames_setLabel s l x hn))

lemma found (h : EntryOf r N s) : s.labelIsDefined N = some r := by
  cases hf : s.labelIsDefined N with
  | none => exact absurd h.name (Asm.labelIsDefined_eq_none.mp hf r h.mem)
  | some l =>
    rw [h.unique l (Asm.mem_table_of_labelIsDefined hf) (Asm.name_of_labelIsDefined hf)]

lemma newLabel (h : EntryOf r N s) {name : String} (hname : s.labelIsDefined name = none) :
    EntryOf r N (s.newLabel name) := by
  have hne : r ≠ s.nextLabel := Nat.ne_of_lt h.old
  have hN : name ≠ N := by
    rintro rfl
    rw [h.found] at hname
    cases hname
  refine ⟨List.mem_cons_of_mem _ h.mem, ?_, fun l hl hln => ?_, Nat.lt_succ_of_lt h.old⟩
  · rw [Asm.label_newLabel, if_neg hne]
    exact h.name
  · rw [Asm.label_newLabel] at hln
    split at hln
    · exact absurd hln hN
    · rename_i hnext
      exact h.unique l (List.mem_of_ne_of_mem hnext hl) hln

lemma move (h : EntryOf r N s) (a : Word) : EntryOf r N (s.fixCurrentLabelAddress a) := by
  refine h.relabel rfl rfl fun l => ?_
  rw [Asm.label_fixCurrentLabelAddress]
  split <;> rfl

end EntryOf

namespace Asm.WellFormed

variable {s : Asm} (hs : s.WellFormed)

include hs

lemma labelIsDefined_eq_some {name : String} {l : LabelRef} :
    s.labelIsDefined name = some l ↔ l ∈ s.table ∧ (s.label l).name = name := by
  constructor
  · exact fun h => ⟨mem_table_of_labelIsDefined h, name_of_labelIsDefined h⟩
  · rintro ⟨hl, hn⟩
    cases hk : s.labelIsDefined name with
    | none => exact absurd hn (labelIsDefined_eq_none.mp hk l hl)
    | some k =>
      have hname := (name_of_labelIsDefined hk).trans hn.symm
      rw [hs.unique k (mem_table_of_labelIsDefined hk) l hl hname]

lemma entryOf {r : LabelRef} {N : String} (h : s.labelIsDefined N = some r) : EntryOf r N s where
  mem := mem_table_of_labelIsDefined h
  name := name_of_labelIsDefined h
  unique l hl hn := hs.unique l hl r (mem_table_of_labelIsDefined h)
    (hn.trans (name_of_labelIsDefined h).symm)
  old := hs.old r (mem_table_of_labelIsDefined h)

lemma newLabel_ne {l : LabelRef} (hl : l ∈ s.table) : l ≠ s.nextLabel := Nat.ne_of_lt (hs.old l hl)

/-- Label data changes, but not names. -/
lemma relabel {t : Asm} (ht : t.table = s.table) (hn : t.nextLabel = s.nextLabel)
    (hp : ∀ l ∈ t.thisLineLabels, l ∈ s.thisLineLabels ∨ l ∈ s.table)
    (hl : ∀ l, (t.label l).name = (s.label l).name ∧ (t.label l).gpFlag = (s.label l).gpFlag)
    (ha : ∀ l, (t.label l).addr ≠ 0 →
      (s.label l).addr ≠ 0 ∨ l ∈ s.thisLineLabels ∨ l ∈ s.table) : t.WellFormed where
  nodup := by
    rw [ht]
    exact hs.nodup
  old := by
    rw [ht, hn]
    exact hs.old
  pendingOld l h := by
    rw [hn]
    rcases hp l h with h | h
    · exact hs.pendingOld l h
    · exact hs.old l h
  unique l h k hk hname := by
    rw [ht] at h hk
    rw [(hl l).1, (hl k).1] at hname
    exact hs.unique l h k hk hname
  fresh l h := by
    rw [hn]
    rcases ha l h with h | h | h
    · exact hs.fresh l h
    · exact hs.pendingOld l h
    · exact hs.old l h
  noGp l := (hl l).2.trans (hs.noGp l)

lemma newLabel {name : String} (h : s.labelIsDefined name = none) :
    (s.newLabel name).WellFormed := by
  have hfree := labelIsDefined_eq_none.mp h
  exact
    { nodup := List.nodup_cons.mpr ⟨fun hm => hs.newLabel_ne hm rfl, hs.nodup⟩
      old := by
        intro l hl
        rcases List.mem_cons.mp hl with rfl | hl
        · exact Nat.lt_succ_self _
        · exact Nat.lt_succ_of_lt (hs.old l hl)
      pendingOld := fun l hl => Nat.lt_succ_of_lt (hs.pendingOld l hl)
      unique := by
        intro l hl k hk hname
        rw [label_newLabel, label_newLabel] at hname
        rcases List.mem_cons.mp hl with rfl | hl
        · rcases List.mem_cons.mp hk with rfl | hk
          · rfl
          · rw [if_pos rfl, if_neg (hs.newLabel_ne hk)] at hname
            exact absurd hname.symm (hfree k hk)
        · rw [if_neg (hs.newLabel_ne hl)] at hname
          rcases List.mem_cons.mp hk with rfl | hk
          · rw [if_pos rfl] at hname
            exact absurd hname (hfree l hl)
          · rw [if_neg (hs.newLabel_ne hk)] at hname
            exact hs.unique l hl k hk hname
      fresh := by
        intro l hl
        rw [label_newLabel] at hl
        split at hl
        · exact absurd rfl hl
        · exact Nat.lt_succ_of_lt (hs.fresh l hl)
      noGp := by
        intro l
        rw [label_newLabel]
        split
        · rfl
        · exact hs.noGp l }

end Asm.WellFormed

/-- The property of symbols is kept by what emission does to a table without rivals, as long as
only names in `D` are defined and names in `G` declared global. -/
structure SymbolsKeep (D G : Set String) (P : Asm → Prop) : Prop where
  wellFormed : ∀ s, P s → s.WellFormed
  same : ∀ s t : Asm, t.symbols = s.symbols → P s → P t
  relabel : ∀ (s : Asm) l (x : Label), x.name = (s.label l).name → x.addr = (s.label l).addr →
    x.globalFlag = (s.label l).globalFlag → x.gpFlag = (s.label l).gpFlag → P s →
      P (s.setLabel l x)
  newLabel : ∀ (s : Asm) name, s.labelIsDefined name = none → P s → P (s.newLabel name)
  declareGlobal : ∀ (s : Asm) l, (s.label l).name ∈ G → P s →
    P (s.setLabel l { s.label l with globalFlag := true })
  unpend : ∀ (s : Asm) l ls, s.thisLineLabels = l :: ls → P s → P { s with thisLineLabels := ls }
  move : ∀ (s : Asm) a, P s → P (s.fixCurrentLabelAddress a)
  record : ∀ (s t : Asm) l a resolve, l ∈ s.table → (s.label l).name ∈ D →
    Recorded s t l a resolve → P s → P t
  second : ∀ (s t : Asm) l, l ∈ s.table → (s.label l).name ∈ D →
    SecondDefinition s t l (s.label l).name → P s → P t
  pend : ∀ (s : Asm) l, l ∈ s.table → (s.label l).name ∈ D →
    (s.label l).globalFlag = true ∨ l ∈ s.localLabels ∨ (s.label l).addr ≠ 0 → P s →
      P { s with thisLineLabels := l :: s.thisLineLabels }

namespace SymbolsKeep

variable {D G : Set String} {P : Asm → Prop} (hP : SymbolsKeep D G P)

include hP

lemma lookupLabel {name : String} {s t : Asm} {l : LabelRef} (hs : P s)
    (h : (lookupLabel name).run s = .ok l t) : P t ∧ l ∈ t.table ∧ (t.label l).name = name := by
  have hname := lookupLabel_name h
  rcases lookupLabel_run h with ⟨hl, rfl⟩ | ⟨hl, rfl, rfl⟩
  · exact ⟨hs, Asm.mem_table_of_labelIsDefined hl, hname⟩
  · exact ⟨hP.newLabel s name hl hs, List.mem_cons_self, hname⟩

/-- The label that record_label returns is in the table, and known to be defined or global. -/
lemma recordLabel {env : Env} {name : String} {a : Word} {resolve : Bool} {s t : Asm}
    {l : LabelRef} (hn : name ∈ D) (hs : P s)
    (h : (recordLabel env name a resolve).run s = .ok l t) : P t ∧ l ∈ t.table ∧
      (t.label l).name = name ∧
        ((t.label l).globalFlag = true ∨ l ∈ t.localLabels ∨ (t.label l).addr ≠ 0) := by
  obtain ⟨k, s₁, h₁, h⟩ := ok_of_bind h
  obtain ⟨hs₁, hk, hkn⟩ := hP.lookupLabel hs h₁
  obtain ⟨_, s₂, h₂, h⟩ := ok_of_bind h
  cases h
  have hD : (s₁.label l).name ∈ D := by
    rw [hkn]
    exact hn
  rcases recordEntry_run ((hP.wellFormed s₁ hs₁).noGp l) h₂ with hr | hr
  · have hlabel := congrFun hr.label l
    rw [Function.update_self] at hlabel
    refine ⟨hP.record s₁ t l a resolve hk hD hr hs₁, hr.table ▸ hk, ?_, ?_⟩
    · rw [hlabel]
      exact hkn
    · rw [hlabel, hr.localLabels]
      cases hg : (s₁.label l).globalFlag with
      | true => exact Or.inl rfl
      | false => exact Or.inr (Or.inl List.mem_cons_self)
  · have htable : t.table = s₁.table := congrArg SymbolTable.table hr.table
    refine ⟨hP.second s₁ t l hk hD (hkn ▸ hr) hs₁, htable ▸ hk, ?_, ?_⟩
    · rw [hr.label]
      exact hkn
    · rw [hr.label]
      exact Or.inr (Or.inr hr.defined)

theorem toSymbolsRel : SymbolsRel D G (Rel.stable P).returning where
  same s t h _ := hP.same s t h
  use s _ _ := hP.same s _ rfl
  addUse s l _ _ := hP.relabel s l _ rfl rfl rfl rfl
  newLabel := hP.newLabel
  clearUses s l := hP.relabel s l _ rfl rfl rfl rfl
  declareGlobal := hP.declareGlobal
  constant s l _ := hP.relabel s l _ rfl rfl rfl rfl
  unpend s l ls h _ := hP.unpend s l ls h
  move := hP.move
  record env name a resolve hn _ := KeepsFrom.of_ok (fun _ => trivial) fun l t h hs => (hP.recordLabel hn hs h).1
  labelNormal env name hn s := KeepsFrom.of_ok (fun _ => trivial) fun _ t h hs => by
    obtain ⟨_, _, ⟨⟩, h⟩ := ok_of_bind h
    obtain ⟨l, t₁, ht₁, h⟩ := ok_of_bind h
    obtain ⟨hP₁, hl, hln, hk⟩ := hP.recordLabel hn hs ht₁
    cases h
    exact hP.pend t₁ l hl (hln ▸ hn) hk hP₁

end SymbolsKeep

lemma wellFormed_setLabel {s : Asm} (hs : s.WellFormed) {l : LabelRef} {x : Label}
    (hn : x.name = (s.label l).name) (hg : x.gpFlag = (s.label l).gpFlag)
    (ha : x.addr ≠ 0 → (s.label l).addr ≠ 0) : (s.setLabel l x).WellFormed := by
  refine hs.relabel rfl rfl (fun _ => Or.inl) (fun k => ?_) fun k hk => Or.inl ?_
  · rw [label_setLabel]
    by_cases hkl : k = l
    · rw [hkl, Function.update_self]
      exact ⟨hn, hg⟩
    · rw [Function.update_of_ne hkl]
      exact ⟨rfl, rfl⟩
  · rw [label_setLabel] at hk
    by_cases hkl : k = l
    · rw [hkl, Function.update_self] at hk
      rw [hkl]
      exact ha hk
    · rw [Function.update_of_ne hkl] at hk
      exact hk

theorem symbolsKeep_wellFormed : SymbolsKeep Set.univ Set.univ Asm.WellFormed where
  wellFormed _ := id
  same s t h hs := by
    obtain ⟨ht, hl, hp, -⟩ := symbols_eq_iff.mp h
    refine hs.relabel ?_ ?_ (fun l hm => Or.inl (hp ▸ hm)) (fun l => ?_) fun l h => Or.inl (hl ▸ h)
    · rw [ht]
    · rw [ht]
    · rw [hl]
      exact ⟨rfl, rfl⟩
  relabel s l x hn ha _ hg hs := wellFormed_setLabel hs hn hg fun h => ha ▸ h
  newLabel s name h hs := hs.newLabel h
  declareGlobal s l _ hs := wellFormed_setLabel hs rfl rfl id
  unpend s l ls h hs := by
    refine hs.relabel rfl rfl (fun k hk => Or.inl ?_) (fun _ => ⟨rfl, rfl⟩) fun _ => Or.inl
    rw [h]
    exact List.mem_cons_of_mem _ hk
  move s a hs := by
    refine hs.relabel rfl rfl (fun _ => Or.inl) (fun k => ?_) fun k hk => ?_
    · rw [Asm.label_fixCurrentLabelAddress]
      split <;> exact ⟨rfl, rfl⟩
    · rw [Asm.label_fixCurrentLabelAddress] at hk
      split at hk
      · rename_i hp
        exact Or.inr (Or.inl hp)
      · exact Or.inl hk
  record s t l a resolve hl _ h hs := by
    refine hs.relabel h.table h.nextLabel (fun k hk => Or.inl (h.pending ▸ hk)) (fun k => ?_)
      fun k hk => ?_
    · rw [h.label]
      by_cases hkl : k = l
      · rw [hkl, Function.update_self]
        exact ⟨rfl, rfl⟩
      · rw [Function.update_of_ne hkl]
        exact ⟨rfl, rfl⟩
    · by_cases hkl : k = l
      · rw [hkl]
        exact Or.inr (Or.inr hl)
      · rw [h.label, Function.update_of_ne hkl] at hk
        exact Or.inl hk
  second s t l _ _ h hs := by
    refine hs.relabel ?_ ?_ (fun k hk => Or.inl (h.pending ▸ hk)) (fun k => ?_)
      fun k hk => Or.inl (h.label ▸ hk)
    · rw [h.table]
    · rw [h.table]
    · rw [h.label]
      exact ⟨rfl, rfl⟩
  pend s l hl _ _ hs := by
    refine hs.relabel rfl rfl (fun k hk => ?_) (fun _ => ⟨rfl, rfl⟩) fun _ => Or.inl
    rcases List.mem_cons.mp hk with rfl | hk
    · exact Or.inr hl
    · exact Or.inl hk

/-! The symbols that parsing uses have an address. -/

/-- Where no label is pending, labels with an address keep it, and only such labels are used. -/
def usesDefined : Rel Asm where
  rel s t := s.WellFormed → s.thisLineLabels = [] → t.WellFormed ∧ t.thisLineLabels = [] ∧
    (∀ l, (s.label l).addr ≠ 0 → (t.label l).addr = (s.label l).addr) ∧
      ∃ new, t.usedSymbols = new ++ s.usedSymbols ∧ ∀ u ∈ new, (t.label u.1).addr = u.2 ∧ u.2 ≠ 0
  refl _ hs hp := ⟨hs, hp, fun _ _ => rfl, [], rfl, by simp⟩
  trans {s t u} h h' hs hp := by
    obtain ⟨ht, hp, ha, new, hu, hnew⟩ := h hs hp
    obtain ⟨hu', hp, ha', new', hu'', hnew'⟩ := h' ht hp
    refine ⟨hu', hp, fun l hl => ?_, new' ++ new, ?_, fun x hx => ?_⟩
    · have hlt : (t.label l).addr ≠ 0 := (ha l hl).symm ▸ hl
      exact (ha' l hlt).trans (ha l hl)
    · rw [hu'', hu, List.append_assoc]
    · rcases List.mem_append.mp hx with hx | hx
      · exact hnew' x hx
      · obtain ⟨he, hne⟩ := hnew x hx
        rw [ha' x.1 (he ▸ hne)]
        exact ⟨he, hne⟩
  upTo _ _ := True
  upTo_refl _ := trivial

lemma usesDefined_same {s t : Asm} (h : t.symbols = s.symbols)
    (hu : t.usedSymbols = s.usedSymbols) : usesDefined.rel s t := by
  obtain ⟨-, hl, hp, -⟩ := symbols_eq_iff.mp h
  refine fun hs hps => ⟨symbolsKeep_wellFormed.same s t h hs, hp.trans hps, fun l _ => ?_, [], ?_⟩
  · rw [hl]
  · exact ⟨hu, by simp⟩

lemma usedSymbols_parseAligned (s : Asm) (k : ℕ) :
    (s.parseAligned k).usedSymbols = s.usedSymbols := by
  have hpc (t : Asm) (v : Word) : (t.setDataPc v).usedSymbols = t.usedSymbols := by
    unfold Asm.setDataPc
    split <;> rfl
  have hdata (t : Asm) (v : Word) : (t.alignData v).usedSymbols = t.usedSymbols :=
    rel_alignData (R := Rel.same Asm.usedSymbols) (fun _ _ => rfl) (fun _ => rfl) hpc t v
  refine (rel_alignDirective (R := Rel.same Asm.usedSymbols) (fun _ _ => rfl) hdata _ _).trans ?_
  split <;> rfl

theorem parseRel_usesDefined : ParseRel usesDefined where
  scan _ _ _ _ := usesDefined_same rfl rfl
  unresolved _ _ := usesDefined_same rfl rfl
  pseudo _ _ := usesDefined_same rfl rfl
  append _ _ _ := usesDefined_same rfl rfl
  seg _ kind _ := by cases kind <;> exact usesDefined_same rfl rfl
  noAlign _ := usesDefined_same rfl rfl
  nullTerm _ _ := usesDefined_same rfl rfl
  newLine _ := usesDefined_same rfl rfl
  newLabel s name h hs hp := by
    refine ⟨hs.newLabel h, hp, fun l hl => ?_, [], rfl, by simp⟩
    rw [Asm.label_newLabel, if_neg (Nat.ne_of_lt (hs.fresh l hl))]
  use s l hl hs hp := by
    refine ⟨symbolsKeep_wellFormed.same s _ rfl hs, hp, fun _ _ => rfl,
      [(l, (s.label l).addr)], rfl, fun u hu => ?_⟩
    rw [List.mem_singleton.mp hu]
    exact ⟨rfl, by simpa [Label.isDefined] using hl⟩
  report _ r h := by
    refine usesDefined_same ?_ rfl
    cases r <;> first | rfl | cases h
  parseError _ _ := usesDefined_same rfl rfl
  aligned s k h₀ h₁ hs hp := by
    have hf := parseFrame_aligned s h₀ (by omega) hp
    have hw : (Rel.stable Asm.WellFormed).rel s (s.parseAligned k) :=
      symbolsKeep_wellFormed.toSymbolsRel.toParseRel.aligned s k h₀ h₁
    refine ⟨hw hs, hf.pending, fun l hl => hf.labels l (hs.fresh l hl), [], ?_, by simp⟩
    exact usedSymbols_parseAligned s k
  clear env s := by
    refine KeepsFrom.of_ok (fun _ => trivial) fun _ t h hs hp => ?_
    change (clearLabelList env s.thisLineLabels).run s = _ at h
    rw [hp] at h
    cases h
    exact ⟨hs, hp, fun _ _ => rfl, [], rfl, by simp⟩

/-! The end of a file. -/

/-- The entries with the names of the labels `ks` have left the table, and nothing else has. -/
structure Flushed (ks : List LabelRef) (s t : Asm) : Prop where
  mem : ∀ l, l ∈ t.table ↔ l ∈ s.table ∧ ∀ k ∈ ks, (s.label k).name ≠ (s.label l).name
  label : t.label = s.label
  pending : t.thisLineLabels = s.thisLineLabels
  duplicates : t.duplicates = s.duplicates
  used : t.usedSymbols = s.usedSymbols
  wellFormed : t.WellFormed

namespace Flushed

lemma nil {s : Asm} (hs : s.WellFormed) : Flushed [] s s := ⟨by simp, rfl, rfl, rfl, rfl, hs⟩

lemma append {ks ks' : List LabelRef} {s t u : Asm} (h : Flushed ks s t) (h' : Flushed ks' t u) :
    Flushed (ks ++ ks') s u where
  mem l := by
    rw [h'.mem, h.mem, h.label, and_assoc]
    simp only [List.mem_append, or_imp, forall_and]
  label := h'.label.trans h.label
  pending := h'.pending.trans h.pending
  duplicates := h'.duplicates.trans h.duplicates
  used := h'.used.trans h.used
  wellFormed := h'.wellFormed

end Flushed

lemma flushed_erase {s t : Asm} (hs : s.WellFormed) {k e : LabelRef}
    (he : s.labelIsDefined (s.label k).name = some e) (htable : t.table = s.table.erase e)
    (hnext : t.nextLabel = s.nextLabel) (hlabel : t.label = s.label)
    (hpending : t.thisLineLabels = s.thisLineLabels) (hdup : t.duplicates = s.duplicates)
    (hused : t.usedSymbols = s.usedSymbols) : Flushed [k] s t := by
  obtain ⟨hmem, hname⟩ := hs.labelIsDefined_eq_some.mp he
  have hsub {l : LabelRef} (hl : l ∈ t.table) : l ∈ s.table :=
    List.mem_of_mem_erase (htable ▸ hl)
  refine
    { mem := fun l => ?_
      label := hlabel
      pending := hpending
      duplicates := hdup
      used := hused
      wellFormed :=
        { nodup := htable ▸ hs.nodup.erase e
          old := fun l hl => hnext ▸ hs.old l (hsub hl)
          pendingOld := fun l hl => hnext ▸ hs.pendingOld l (hpending ▸ hl)
          unique := fun l hl m hm hlm => hs.unique l (hsub hl) m (hsub hm) (hlabel ▸ hlm)
          fresh := fun l hl => hnext ▸ hs.fresh l (hlabel ▸ hl)
          noGp := fun l => hlabel ▸ hs.noGp l } }
  rw [htable, hs.nodup.mem_erase_iff, and_comm, List.forall_mem_singleton]
  refine and_congr_right fun hl => not_congr ⟨?_, fun hn => ?_⟩
  · rintro rfl
    exact hname.symm
  · exact hs.unique l hl e hmem (hn.symm.trans hname.symm)

lemma flushLabel_flushed {b : Bool} {k : LabelRef} {s t : Asm} (hs : s.WellFormed)
    (h : (flushLabel b k).run s = .ok () t) : Flushed [k] s t := by
  obtain ⟨_, _, ⟨⟩, h⟩ := ok_of_bind h
  cases he : s.labelIsDefined (s.label k).name with
  | none =>
    rw [he] at h
    cases h
    refine ⟨fun l => ?_, rfl, rfl, rfl, rfl, hs⟩
    rw [List.forall_mem_singleton]
    exact ⟨fun hl => ⟨hl, fun hn => Asm.labelIsDefined_eq_none.mp he l hl hn.symm⟩, And.left⟩
  | some e =>
    rw [he] at h
    obtain ⟨_, s₁, h₁, h⟩ := ok_of_bind h
    cases h₁
    by_cases hw : b = true ∧ (s.label e).addr = 0 ∧ (s.label e).constFlag = false
    · rw [onlyIf_pos hw] at h
      cases h
      exact flushed_erase hs he rfl rfl rfl rfl rfl rfl
    · rw [onlyIf_neg hw] at h
      cases h
      exact flushed_erase hs he rfl rfl rfl rfl rfl rfl

lemma flushLabels_flushed {b : Bool} {ks : List LabelRef} {s t : Asm} (hs : s.WellFormed)
    (h : (flushLabels b ks).run s = .ok () t) : Flushed ks s t := by
  induction ks generalizing s with
  | nil =>
    cases h
    exact .nil hs
  | cons k ks ih =>
    obtain ⟨_, s₁, h₁, h⟩ := ok_of_bind h
    have hk := flushLabel_flushed hs h₁
    exact hk.append (ih hk.wellFormed h)

/-- The end of a file flushes its local labels. -/
theorem endFile_flushed {s t : Asm} (hs : s.WellFormed) (h : endFile.run s = .ok () t) :
    Flushed s.localLabels s t ∧ t.localLabels = [] := by
  obtain ⟨_, _, ⟨⟩, h⟩ := ok_of_bind h
  obtain ⟨_, s₁, h₁, h⟩ := ok_of_bind h
  cases h
  obtain ⟨_, _, ⟨⟩, h₁⟩ := ok_of_bind h₁
  by_cases hn : s.localLabels.Nodup
  · rw [if_pos hn] at h₁
    obtain ⟨_, s₂, h₂, h₁⟩ := ok_of_bind h₁
    cases h₁
    have hf := flushLabels_flushed hs h₂
    have hw := hf.wellFormed
    exact ⟨{ hf with wellFormed := { hw with } }, rfl⟩
  · rw [if_neg hn] at h₁
    cases h₁

end Spimulator
