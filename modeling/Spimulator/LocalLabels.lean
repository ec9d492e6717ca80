import Spimulator.ParseEffect
import Spimulator.Symbols

/-! Names that a file refers to and does not define. The entry of such a name stays in the symbol
table when the file ends, and is the entry that the next file finds. -/
namespace Spimulator
open Frame

/-- The uses of one symbol by its address. -/
def Asm.usesOf (s : Asm) (r : LabelRef) : List (LabelRef × Word) :=
  s.usedSymbols.filter fun u => u.1 = r

/-- The entry `r` of the name `N` is undefined, waits for no line, and has no rival. -/
structure Unbound (r : LabelRef) (N : String) (s : Asm) : Prop extends EntryOf r N s where
  undefined : (s.label r).addr = 0
  pending : r ∉ s.thisLineLabels
  locals : ∀ l ∈ s.localLabels, (s.label l).name ≠ N

/-- The symbol stays undefined and is not used. -/
def unbound (r : LabelRef) (N : String) : Rel Asm where
  rel s t := Unbound r N s → Unbound r N t ∧ t.usesOf r = s.usesOf r
  refl _ h := ⟨h, rfl⟩
  trans h h' hs := ⟨(h' (h hs).1).1, (h' (h hs).1).2.trans (h hs).2⟩

namespace Unbound

variable {r : LabelRef} {N : String} {s : Asm}

lemma of_same {t : Asm} (h : Unbound r N s) (hs : t.symbols = s.symbols) : Unbound r N t := by
  obtain ⟨ht, hl, hp, -⟩ := symbols_eq_iff.mp hs
  have hlocal : t.localLabels = s.localLabels := congrArg SymbolTable.localLabels ht
  refine { h.toEntryOf.same hs with
    undefined := hl ▸ h.undefined
    pending := hp ▸ h.pending
    locals := ?_ }
  rw [hlocal, hl]
  exact h.locals

/-- Another label changes, not in its name. -/
lemma setLabel (h : Unbound r N s) {l : LabelRef} {x : Label} (hl : l = r → x.addr = 0)
    (hn : x.name = (s.label l).name) : Unbound r N (s.setLabel l x) := by
  refine { h.toEntryOf.setLabel hn with
    undefined := ?_
    pending := h.pending
    locals := fun k hk hkn => h.locals k hk ?_ }
  · rw [label_setLabel]
    by_cases hr : r = l
    · rw [hr, Function.update_self]
      exact hl hr.symm
    · rw [Function.update_of_ne hr]
      exact h.undefined
  · exact (congrFun (sameNames_setLabel s l x hn) k).symm.trans hkn

end Unbound

section

variable (r : LabelRef) (N : String)

lemma unbound_same (s t : Asm) (h : t.symbols = s.symbols)
    (hu : t.usedSymbols = s.usedSymbols) : (unbound r N).rel s t :=
  fun hs => ⟨hs.of_same h, by rw [Asm.usesOf, hu, Asm.usesOf]⟩

lemma unbound_use (s : Asm) (l : LabelRef) (h : (s.label l).isDefined = true) :
    (unbound r N).rel s (s.log (.used l (s.label l).addr)) := by
  intro hs
  refine ⟨hs.of_same rfl, ?_⟩
  have hne : l ≠ r := by
    rintro rfl
    simp [Label.isDefined, hs.undefined] at h
  change ((l, (s.label l).addr) :: s.usedSymbols).filter (fun u => u.1 = r) = s.usesOf r
  rw [List.filter_cons_of_neg (by simpa using hne)]
  rfl

lemma unbound_setLabel (s : Asm) (l : LabelRef) (x : Label) (ha : x.addr = (s.label l).addr)
    (hn : x.name = (s.label l).name) : (unbound r N).rel s (s.setLabel l x) := by
  refine fun hs => ⟨hs.setLabel (fun hl => ?_) hn, rfl⟩
  subst hl
  exact ha.trans hs.undefined

lemma unbound_newLabel (s : Asm) (name : String) (h : s.labelIsDefined name = none) :
    (unbound r N).rel s (s.newLabel name) := by
  intro hs
  have hname : name ≠ N := by
    rintro rfl
    rw [hs.found] at h
    cases h
  refine ⟨{ hs.toEntryOf.newLabel h with
    undefined := ?_
    pending := hs.pending
    locals := fun l hl hln => ?_ }, rfl⟩
  · rw [Asm.label_newLabel, if_neg (Nat.ne_of_lt hs.old)]
    exact hs.undefined
  · rw [Asm.label_newLabel] at hln
    split at hln
    · exact hname hln
    · exact hs.locals l hl hln

lemma unbound_move (s : Asm) (a : Word) : (unbound r N).rel s (s.fixCurrentLabelAddress a) := by
  intro hs
  refine ⟨{ hs.toEntryOf.move a with
    undefined := ?_
    pending := hs.pending
    locals := fun l hl hln => hs.locals l hl ?_ }, rfl⟩
  · rw [Asm.label_fixCurrentLabelAddress, if_neg hs.pending]
    exact hs.undefined
  · rw [Asm.label_fixCurrentLabelAddress] at hln
    split at hln <;> exact hln

/-- Nothing but a definition of the name binds it. -/
theorem symbolsRel_unbound : SymbolsRel { name | name ≠ N } Set.univ (unbound r N) := by
  have hR := resolveRel_of_same (unbound_same r N) (unbound_use r N)
  refine SymbolsRel.of_symbolRel (unbound_same r N)
    { hR with
      labelDef := fun s _ _ _ => unbound_same r N s _ rfl rfl
      newLabel := unbound_newLabel r N
      clearUses := fun s l => unbound_setLabel r N s l _ rfl rfl
      define := fun s l a hl _ hs => ⟨hs.setLabel (fun h => ?_) rfl, rfl⟩
      linkLocal := fun s l hl _ hs => ⟨{ hs with locals := ?_ }, rfl⟩
      declareGlobal := fun s l _ => unbound_setLabel r N s l _ rfl rfl
      constant := fun s l _ => unbound_setLabel r N s l _ rfl rfl
      pend := fun s l hl hs => ⟨{ hs with pending := ?_ }, rfl⟩
      unpend := fun s l ls h _ hs => ⟨{ hs with pending := ?_ }, rfl⟩
      parseError := fun s _ _ hs => ⟨{ hs with }, rfl⟩ } (fun s l _ _ => unbound_setLabel r N s l _ rfl rfl) (unbound_move r N)
  · exact absurd (h ▸ hs.name) hl
  · intro k hk hkn
    rcases List.mem_cons.mp hk with rfl | hk
    · exact hl hkn
    · exact hs.locals k hk hkn
  · intro hmem
    rcases List.mem_cons.mp hmem with h | hmem
    · exact hl (h ▸ hs.name)
    · exact hs.pending hmem
  · intro hmem
    exact hs.pending (h ▸ List.mem_cons_of_mem _ hmem)

end

/-! The file with the reference, and the files after it. -/

/-- The end of a file takes only entries with the names of its local labels. -/
theorem endRel_unbound (r : LabelRef) (N : String) : EndRel (unbound r N) where
  erase s k l hk hl hs := by
    have hne : r ≠ l := by
      rintro rfl
      exact hs.locals k hk ((Asm.name_of_labelIsDefined hl).symm.trans hs.name)
    refine ⟨?_, rfl⟩
    exact
      { hs with
        mem := (List.mem_erase_of_ne hne).mpr hs.mem
        unique := fun m hm => hs.unique m (List.mem_of_mem_erase hm) }
  report s r h := by
    refine unbound_same _ _ _ _ ?_ rfl
    cases r <;> first | rfl | cases h
  flush s hs := ⟨{ hs with locals := by simp }, rfl⟩
  reset s hs := ⟨{ hs with }, rfl⟩

/-- A file of a sequence, with the settings under which it is loaded. -/
abbrev FileLoad := AsmEnv × List Lexeme

def FileLoad.run (f : FileLoad) : Assemble Unit := loadSource f.1 f.2

/-- The statements of the file, as it is parsed at `s`. -/
def FileLoad.tree (s : Asm) (f : FileLoad) : List (NodeRef × AstNode) :=
  match (parseTree f.1).run (parserInit f.2 s) with
  | .ok _ p => p.currentFile.getD []
  | .error _ _ => []

lemma FileLoad.tree_eq {s p : Asm} {f : FileLoad} {ns : List (NodeRef × AstNode)}
    (hp : (parseTree f.1).run (parserInit f.2 s) = .ok () p) (hf : p.currentFile = some ns) :
    f.tree s = ns := by
  rw [FileLoad.tree, hp]
  dsimp only
  rw [hf, Option.getD_some]

/-- No statement of the file defines the name. -/
def NotDefinedIn (N : String) (s : Asm) (f : FileLoad) : Prop := ∀ n ∈ f.tree s, N ∉ n.2.defines

/-- No statement of the file declares the name global. -/
def NotGlobalIn (N : String) (s : Asm) (f : FileLoad) : Prop := ∀ n ∈ f.tree s, N ∉ n.2.globals

instance (N : String) (s : Asm) (f : FileLoad) : Decidable (NotDefinedIn N s f) :=
  inferInstanceAs (Decidable (∀ n ∈ f.tree s, N ∉ n.2.defines))

instance (N : String) (s : Asm) (f : FileLoad) : Decidable (NotGlobalIn N s f) :=
  inferInstanceAs (Decidable (∀ n ∈ f.tree s, N ∉ n.2.globals))

/-- What is left of a file that does not define the name once it is parsed. -/
lemma unbound_parsed {r : LabelRef} {N : String} {f : FileLoad} {s p u : Asm}
    (hd : NotDefinedIn N s f) (hp : (parseTree f.1).run (parserInit f.2 s) = .ok () p)
    (h : f.run.run s = .ok () u) : (unbound r N).rel p u := by
  obtain ⟨q, t, hq, ht, hu⟩ := loadSource_parsed h
  cases hp.symm.trans hq
  refine (unbound r N).trans ?_ ((endRel_unbound r N).endFile.ok hu)
  rcases ht with ⟨-, rfl⟩ | ⟨ns, -, hf, ht⟩
  · exact (unbound r N).refl _
  · refine ((symbolsRel_unbound r N).emitAst f.1.toEnv ns ?_ fun _ _ _ _ => trivial).ok ht
    rintro n hn name hname rfl
    exact hd n (FileLoad.tree_eq hp hf ▸ hn) hname

lemma unbound_load {r : LabelRef} {N : String} {f : FileLoad} {s u : Asm}
    (hd : NotDefinedIn N s f) (h : f.run.run s = .ok () u) : (unbound r N).rel s u := by
  obtain ⟨p, -, hp, -⟩ := loadSource_parsed h
  have hinit : (unbound r N).rel s (parserInit f.2 s) := unbound_same _ _ _ _ rfl rfl
  refine (unbound r N).trans hinit ((unbound r N).trans ?_ (unbound_parsed hd hp h))
  exact ((symbolsRel_unbound r N).toParseRel.parseTree f.1).ok hp

/-- Files that do not define the name leave its entry unbound. -/
theorem unbound_loads {r : LabelRef} {N : String} {files : List FileLoad} {s t : Asm}
    (h : CommandRun FileLoad.run (NotDefinedIn N) s files t) : (unbound r N).rel s t := by
  induction h with
  | nil s => exact (unbound r N).refl s
  | cons hd hr _ ih => exact (unbound r N).trans (unbound_load hd hr) ih

/-! The files before it. -/

/-- No entry of the name is global, and one with an address is local to the file. -/
structure LocalIn (N : String) (s : Asm) : Prop extends s.WellFormed where
  notGlobal : ∀ l ∈ s.table, (s.label l).name = N → (s.label l).globalFlag = false
  isLocal : ∀ l ∈ s.table, (s.label l).name = N → (s.label l).addr ≠ 0 → l ∈ s.localLabels
  pendingLocal : ∀ l ∈ s.thisLineLabels, (s.label l).name = N → l ∈ s.localLabels

namespace LocalIn

variable {N : String} {s : Asm}

lemma setLabel (h : LocalIn N s) {l : LabelRef} {x : Label} (hw : (s.setLabel l x).WellFormed)
    (hn : x.name = (s.label l).name) (ha : x.addr = (s.label l).addr)
    (hg : (s.label l).name = N → x.globalFlag = (s.label l).globalFlag) :
    LocalIn N (s.setLabel l x) := by
  have hname (k : LabelRef) : ((s.setLabel l x).label k).name = (s.label k).name :=
    congrFun (sameNames_setLabel s l x hn) k
  refine { hw with
    notGlobal := fun k hk hkn => ?_
    isLocal := fun k hk hkn hka => h.isLocal k hk ((hname k).symm.trans hkn) ?_
    pendingLocal := fun k hk hkn => h.pendingLocal k hk ((hname k).symm.trans hkn) }
  · have hkn := (hname k).symm.trans hkn
    rw [label_setLabel]
    by_cases hkl : k = l
    · rw [hkl] at hkn hk ⊢
      rw [Function.update_self, hg hkn]
      exact h.notGlobal l hk hkn
    · rw [Function.update_of_ne hkl]
      exact h.notGlobal k hk hkn
  · rw [label_setLabel] at hka
    by_cases hkl : k = l
    · rw [hkl, Function.update_self, ha] at hka
      rw [hkl]
      exact hka
    · rw [Function.update_of_ne hkl] at hka
      exact hka

end LocalIn

/-- As long as the name is not declared global, it stays local wherever it is defined. -/
theorem symbolsKeep_localIn (N : String) :
    SymbolsKeep Set.univ { name | name ≠ N } (LocalIn N) where
  wellFormed _ h := h.toWellFormed
  same s t h hs := by
    obtain ⟨ht, hl, hp, -⟩ := symbols_eq_iff.mp h
    have htable : t.table = s.table := congrArg SymbolTable.table ht
    have hlocal : t.localLabels = s.localLabels := congrArg SymbolTable.localLabels ht
    refine { symbolsKeep_wellFormed.same s t h hs.toWellFormed with
      notGlobal := ?_
      isLocal := ?_
      pendingLocal := ?_ }
    · rw [htable, hl]
      exact hs.notGlobal
    · rw [htable, hl, hlocal]
      exact hs.isLocal
    · rw [hp, hl, hlocal]
      exact hs.pendingLocal
  relabel s l x hn ha hg hgp hs :=
    hs.setLabel (symbolsKeep_wellFormed.relabel s l x hn ha hg hgp hs.toWellFormed) hn ha fun _ => hg
  newLabel s name h hs := by
    have hold {l : LabelRef} (hl : l ∈ (s.newLabel name).table)
        (hne : l ≠ s.nextLabel) : l ∈ s.table := List.mem_of_ne_of_mem hne hl
    refine { hs.newLabel h with
      notGlobal := fun l hl hln => ?_
      isLocal := fun l hl hln hla => ?_
      pendingLocal := fun l hl hln => ?_ }
    · rw [Asm.label_newLabel] at hln ⊢
      by_cases hne : l = s.nextLabel
      · rw [if_pos hne]
      · rw [if_neg hne] at hln ⊢
        exact hs.notGlobal l (hold hl hne) hln
    · rw [Asm.label_newLabel] at hln hla
      by_cases hne : l = s.nextLabel
      · rw [if_pos hne] at hla
        exact absurd rfl hla
      · rw [if_neg hne] at hln hla
        exact hs.isLocal l (hold hl hne) hln hla
    · have hne : l ≠ s.nextLabel := Nat.ne_of_lt (hs.pendingOld l hl)
      rw [Asm.label_newLabel, if_neg hne] at hln
      exact hs.pendingLocal l hl hln
  declareGlobal s l hl hs := by
    refine hs.setLabel (symbolsKeep_wellFormed.declareGlobal s l trivial hs.toWellFormed) rfl rfl ?_
    exact fun h => absurd h hl
  unpend s l ls h hs := by
    refine { symbolsKeep_wellFormed.unpend s l ls h hs.toWellFormed with
      notGlobal := hs.notGlobal
      isLocal := hs.isLocal
      pendingLocal := fun k hk => hs.pendingLocal k ?_ }
    rw [h]
    exact List.mem_cons_of_mem _ hk
  move s a hs := by
    have hname (l : LabelRef) : ((s.fixCurrentLabelAddress a).label l).name = (s.label l).name := by
      rw [Asm.label_fixCurrentLabelAddress]
      split <;> rfl
    refine { symbolsKeep_wellFormed.move s a hs.toWellFormed with
      notGlobal := fun l hl hln => ?_
      isLocal := fun l hl hln hla => ?_
      pendingLocal := fun l hl hln => hs.pendingLocal l hl ((hname l).symm.trans hln) }
    · have hg := hs.notGlobal l hl ((hname l).symm.trans hln)
      rw [Asm.label_fixCurrentLabelAddress]
      split <;> exact hg
    · have hln := (hname l).symm.trans hln
      rw [Asm.label_fixCurrentLabelAddress] at hla
      split at hla
      · rename_i hp
        exact hs.pendingLocal l hp hln
      · exact hs.isLocal l hl hln hla
  record s t l a resolve hl hD h hs := by
    have hname (k : LabelRef) : (t.label k).name = (s.label k).name := by
      rw [h.label]
      by_cases hk : k = l
      · rw [hk, Function.update_self]
      · rw [Function.update_of_ne hk]
    have hglobal (k : LabelRef) : (t.label k).globalFlag = (s.label k).globalFlag := by
      rw [h.label]
      by_cases hk : k = l
      · rw [hk, Function.update_self]
      · rw [Function.update_of_ne hk]
    have hlocal {k : LabelRef} (hk : k ∈ s.localLabels) : k ∈ t.localLabels := by
      rw [h.localLabels]
      split
      · exact hk
      · exact List.mem_cons_of_mem _ hk
    refine { symbolsKeep_wellFormed.record s t l a resolve hl trivial h hs.toWellFormed with
      notGlobal := fun k hk hkn => ?_
      isLocal := fun k hk hkn hka => ?_
      pendingLocal := fun k hk hkn => ?_ }
    · rw [hglobal]
      exact hs.notGlobal k (h.table ▸ hk) ((hname k).symm.trans hkn)
    · have hkn := (hname k).symm.trans hkn
      by_cases hkl : k = l
      · rw [h.localLabels, hkl, hs.notGlobal l hl (hkl ▸ hkn)]
        exact List.mem_cons_self
      · rw [h.label, Function.update_of_ne hkl] at hka
        exact hlocal (hs.isLocal k (h.table ▸ hk) hkn hka)
    · exact hlocal (hs.pendingLocal k (h.pending ▸ hk) ((hname k).symm.trans hkn))
  second s t l hl hD h hs := by
    have htable : t.table = s.table := congrArg SymbolTable.table h.table
    have hlocal : t.localLabels = s.localLabels := congrArg SymbolTable.localLabels h.table
    refine { symbolsKeep_wellFormed.second s t l hl trivial h hs.toWellFormed with
      notGlobal := ?_
      isLocal := ?_
      pendingLocal := ?_ }
    · rw [htable, h.label]
      exact hs.notGlobal
    · rw [htable, h.label, hlocal]
      exact hs.isLocal
    · rw [h.pending, h.label, hlocal]
      exact hs.pendingLocal
  pend s l hl hD hk hs := by
    refine { symbolsKeep_wellFormed.pend s l hl trivial hk hs.toWellFormed with
      notGlobal := hs.notGlobal
      isLocal := hs.isLocal
      pendingLocal := fun k hm hkn => ?_ }
    rcases List.mem_cons.mp hm with rfl | hm
    · rcases hk with hg | hk | ha
      · rw [hs.notGlobal k hl hkn] at hg
        cases hg
      · exact hk
      · exact hs.isLocal k hl hkn ha
    · exact hs.pendingLocal k hm hkn

/-- Between files, entries of the name have no address. -/
structure NoneDefined (N : String) (s : Asm) : Prop extends LocalIn N s where
  pending : s.thisLineLabels = []
  locals : s.localLabels = []

namespace NoneDefined

variable {N : String} {f : FileLoad} {s p u : Asm}

lemma addr (h : LocalIn N s) (hl : s.localLabels = []) {r : LabelRef}
    (hr : s.labelIsDefined N = some r) : (s.label r).addr = 0 := by
  by_contra ha
  have hr := h.isLocal r (Asm.mem_table_of_labelIsDefined hr) (Asm.name_of_labelIsDefined hr) ha
  rw [hl] at hr
  cases hr

lemma parsed (h : NoneDefined N s) (hp : (parseTree f.1).run (parserInit f.2 s) = .ok () p) :
    NoneDefined N p := by
  have hinit : LocalIn N (parserInit f.2 s) :=
    (symbolsKeep_localIn N).same s (parserInit f.2 s) rfl h.toLocalIn
  have hlocal : LocalIn N p :=
    ((symbolsKeep_localIn N).toSymbolsRel.toParseRel.parseTree f.1).ok hp hinit
  have hframe : ParseFrame (parserInit f.2 s) p :=
    (parseRel_parseFrame.parseTree f.1).ok hp h.pending
  exact { hlocal with
    pending := hframe.pending
    locals := hframe.localLabels.trans h.locals }

/-- What a file defines it takes out of the table when it ends. -/
lemma endFile (h : LocalIn N s) (hp : s.thisLineLabels = [])
    (hu : (Spimulator.endFile).run s = .ok () u) : NoneDefined N u := by
  obtain ⟨hf, hl⟩ := endFile_flushed h.toWellFormed hu
  have hpending : u.thisLineLabels = [] := hf.pending.trans hp
  refine { hf.wellFormed with
    notGlobal := fun l hm hn => ?_
    isLocal := fun l hm hn ha => ?_
    pendingLocal := fun l hm => ?_
    pending := hpending
    locals := hl }
  · rw [hf.label] at hn ⊢
    exact h.notGlobal l ((hf.mem l).mp hm).1 hn
  · rw [hf.label] at hn ha
    obtain ⟨hm, hk⟩ := (hf.mem l).mp hm
    exact absurd rfl (hk l (h.isLocal l hm hn ha))
  · rw [hpending] at hm
    cases hm

lemma load (h : NoneDefined N s) (hg : NotGlobalIn N s f) (hu : f.run.run s = .ok () u) :
    NoneDefined N u := by
  obtain ⟨p, t, hp, ht, hu⟩ := loadSource_parsed hu
  have hparsed := h.parsed hp
  rcases ht with ⟨-, rfl⟩ | ⟨ns, -, hf, ht⟩
  · exact endFile hparsed.toLocalIn hparsed.pending hu
  · refine endFile ?_ (emitAst_pending ht) hu
    refine ((symbolsKeep_localIn N).toSymbolsRel.emitAst f.1.toEnv ns (fun _ _ _ _ => trivial)
      ?_).ok ht hparsed.toLocalIn
    rintro n hn name hname rfl
    exact hg n (FileLoad.tree_eq hp hf ▸ hn) hname

/-- Files that do not declare the name global leave no entry of it with an address. -/
theorem loads {files : List FileLoad} (h : NoneDefined N s)
    (hu : CommandRun FileLoad.run (NotGlobalIn N) s files u) : NoneDefined N u :=
  hu.invariant (fun _ _ _ hs hg hr => hs.load hg hr) h

lemma unbound (h : NoneDefined N s) {r : LabelRef} (hr : s.labelIsDefined N = some r) :
    Unbound r N s :=
  { h.toWellFormed.entryOf hr with
    undefined := addr h.toLocalIn h.locals hr
    pending := by simp [h.pending]
    locals := by simp [h.locals] }

end NoneDefined

lemma fresh_symbols (env : AsmEnv) : (Asm.fresh env).symbols = ({} : Asm).symbols := by
  unfold Asm.fresh freshWorld Data.dataBeginsAtPoint
  cases env.bareMachine <;> rfl

lemma fresh_wellFormed (env : AsmEnv) : (Asm.fresh env).WellFormed := by
  refine symbolsKeep_wellFormed.same {} _ (fresh_symbols env) ?_
  constructor <;> simp [Asm.label]

lemma fresh_noneDefined (env : AsmEnv) (N : String) : NoneDefined N (.fresh env) := by
  have h : NoneDefined N {} := by
    refine { symbolsKeep_wellFormed.same _ {} (fresh_symbols env).symm (fresh_wellFormed env) with
      notGlobal := ?_
      isLocal := ?_
      pendingLocal := ?_
      pending := rfl
      locals := rfl } <;> simp
  obtain ⟨ht, -, hp, -⟩ := symbols_eq_iff.mp (fresh_symbols env)
  exact { (symbolsKeep_localIn N).same {} _ (fresh_symbols env) h.toLocalIn with
    pending := hp
    locals := congrArg SymbolTable.localLabels ht }

/-- A file with a jump to the name. -/
def jumpToN : List Lexeme :=
  [.ident "j" (some (.op .j)), .ident "N" none, .nl]

/-- A file that defines the name, for itself. -/
def definesN : List Lexeme :=
  [.ident "N" none, .punct ':', .ident "ssnop" (some (.op .ssnop)), .nl]

end Spimulator
