import Spimulator.UserStart

/-! The segment in which a file starts, for any files loaded before it. -/
namespace Spimulator
open Frame

/-! The flags that parsing leaves. -/

def DirSegKind.isData : DirSegKind → Bool
  | .data | .kData => true
  | .text | .kText => false

def DirSegKind.isKernel : DirSegKind → Bool
  | .kText | .kData => true
  | .text | .data => false

namespace AstNode

/-- Whether what follows is under a data directive, for a segment directive. -/
def setsData : AstNode → Option Bool
  | dirSeg kind _ => some kind.isData
  | _ => none

def isKernelSeg : AstNode → Bool
  | dirSeg kind _ => kind.isKernel
  | _ => false

end AstNode

/-- The last segment directive of the tree is a data directive. -/
def endsInData (ns : List (NodeRef × AstNode)) : Bool :=
  ns.foldl (fun b n => n.2.setsData.getD b) false

/-- The parser's flags are those of the last segment directive of the tree. -/
def FlagsOfTree (s : Asm) : Prop :=
  ∃ ns, s.currentFile = some ns ∧ s.dataDir = endsInData ns ∧ s.textDir = !endsInData ns

lemma flagsOfTree_of_same {s t : Asm} (h : t.toParser.currentFile = s.toParser.currentFile ∧
    t.dataDir = s.dataDir ∧ t.textDir = s.textDir) : (Rel.stable FlagsOfTree).rel s t := by
  rintro ⟨ns, hf, hd, ht⟩
  exact ⟨ns, h.1.trans hf, h.2.1.trans hd, h.2.2.trans ht⟩

lemma toParser_alignDirective (s : Asm) (v : Word) : (s.alignDirective v).toParser = s.toParser := by
  have hpc (t : Asm) (a : Word) : (t.setDataPc a).toParser = t.toParser := by
    unfold Asm.setDataPc
    split <;> rfl
  have hdata (t : Asm) (a : Word) : (t.alignData a).toParser = t.toParser := by
    unfold Asm.alignData
    split
    · rfl
    · exact hpc t _
  exact rel_alignDirective (R := Rel.same Asm.toParser) (fun _ _ => rfl) hdata s v

/-- The labels of the line, when they are cleared, leave tree and flags alone. -/
lemma clearLabels_tree (env : Env) :
    Keeps (Rel.same fun s : Asm => (s.currentFile, s.dataDir, s.textDir)) (clearLabels env) := by
  have hR : SymbolRel ∅ ∅ (Rel.same fun s : Asm => (s.currentFile, s.dataDir, s.textDir)) :=
    { machine := fun _ _ _ => rfl
      setInst := fun _ _ _ _ => rfl
      report := fun _ _ _ => rfl
      use := fun _ _ _ => rfl
      labelDef := fun _ _ _ _ => rfl
      newLabel := fun _ _ _ => rfl
      clearUses := fun _ _ => rfl
      define := fun _ _ _ _ _ => rfl
      linkLocal := fun _ _ _ _ => rfl
      declareGlobal := fun _ _ _ => rfl
      constant := fun _ _ _ => rfl
      pend := fun _ _ _ => rfl
      unpend := fun _ _ _ _ _ => rfl
      parseError := fun _ _ _ => rfl }
  exact hR.toRecordRel.clearLabels env

lemma endsInData_append (ns : List (NodeRef × AstNode)) (n : NodeRef × AstNode) :
    endsInData (ns ++ [n]) = n.2.setsData.getD (endsInData ns) := by
  rw [endsInData, List.foldl_append]
  rfl

theorem parseRel_flagsOfTree : ParseRel (Rel.stable FlagsOfTree) where
  scan _ _ _ _ := id
  unresolved _ _ := id
  pseudo _ _ := id
  append s n hn := by
    rintro ⟨ns, hf, hd, ht⟩
    have hnone : n.setsData = none := by
      cases n <;> first | rfl | cases hn
    refine ⟨ns ++ [(s.nextNode, n)], ?_, ?_, ?_⟩
    · simp [Asm.appendNode, hf]
    · rw [endsInData_append, hnone]
      exact hd
    · rw [endsInData_append, hnone]
      exact ht
  seg s kind a := by
    rintro ⟨ns, hf, -, -⟩
    refine ⟨ns ++ [(s.nextNode, .dirSeg kind a)], ?_, ?_, ?_⟩
    · cases kind <;> simp [Asm.parseDirSeg, Asm.appendNode, hf]
    · rw [endsInData_append]
      cases kind <;> rfl
    · rw [endsInData_append]
      cases kind <;> rfl
  noAlign _ := id
  nullTerm _ _ := id
  newLine _ := id
  newLabel _ _ _ := id
  use _ _ _ := id
  report _ _ _ := id
  parseError _ _ := id
  aligned s k _ _ := by
    have hp : (s.parseAligned k).toParser = s.toParser := by
      refine (toParser_alignDirective _ _).trans ?_
      split <;> rfl
    refine flagsOfTree_of_same ⟨?_, ?_, ?_⟩
    · rw [hp]
    · rw [hp]
    · rw [hp]
  clear env := by
    refine Keeps.mono (fun s t h => ?_) (clearLabels_tree env) id
    have h : (t.currentFile, t.dataDir, t.textDir) = (s.currentFile, s.dataDir, s.textDir) := h
    simp only [Prod.mk.injEq] at h
    exact flagsOfTree_of_same h

/-! Between files. -/

/-- No label is pending, and data goes to the user data segment. -/
structure BetweenFiles (s : Asm) : Prop where
  pending : s.thisLineLabels = []
  userData : s.dataInKernel = false

lemma endFile_userData {s t : Asm} (h : endFile.run s = .ok () t) : t.dataInKernel = false := by
  obtain ⟨_, _, _, h⟩ := ok_of_bind h
  obtain ⟨_, _, _, h⟩ := ok_of_bind h
  cases h
  rfl

theorem loadSource_between {env : AsmEnv} {input : List Lexeme} {s u : Asm}
    (h : (loadSource env input).run s = .ok () u) : BetweenFiles u := by
  obtain ⟨t, ht, hu⟩ := loadSource_run h
  exact ⟨(endRel_thisLineLabels.endFile.ok hu).trans (parseFile_pending ht), endFile_userData hu⟩

theorem loads_between {env : AsmEnv} {files : List (List Lexeme)} {s t : Asm}
    (hs : BetweenFiles s) (h : CommandRun (loadSource env) (fun _ _ => True) s files t) :
    BetweenFiles t :=
  h.invariant (fun _ _ _ _ _ hr => loadSource_between hr) hs

/-! What parsing leaves of the segments. -/

lemma foldl_align_text (l : Location) (ks : List ℕ) :
    (ks.foldl Location.align l).textInKernel = l.textInKernel ∧
      (ks.foldl Location.align l).nextTextPc = l.nextTextPc ∧
      (ks.foldl Location.align l).dataInKernel = l.dataInKernel ∧
      (l.dataInKernel = false → (ks.foldl Location.align l).nextKDataPc = l.nextKDataPc) := by
  induction ks generalizing l with
  | nil => exact ⟨rfl, rfl, rfl, fun _ => rfl⟩
  | cons k ks ih =>
    have hone : (l.align k).textInKernel = l.textInKernel ∧
        (l.align k).nextTextPc = l.nextTextPc ∧ (l.align k).dataInKernel = l.dataInKernel ∧
        (l.dataInKernel = false → (l.align k).nextKDataPc = l.nextKDataPc) := by
      unfold Location.align
      split
      · split
        · rename_i h
          exact ⟨rfl, rfl, rfl, fun hk => absurd h (by simp [hk])⟩
        · exact ⟨rfl, rfl, rfl, fun _ => rfl⟩
      · exact ⟨rfl, rfl, rfl, fun _ => rfl⟩
    obtain ⟨ht, hp, hd, hk⟩ := ih (l.align k)
    obtain ⟨ht', hp', hd', hk'⟩ := hone
    exact ⟨ht.trans ht', hp.trans hp', hd.trans hd',
      fun h => (hk (hd'.trans h)).trans (hk' h)⟩

/-- The state after parsing a file, as far as the segments go. -/
lemma parseTree_segments {env : AsmEnv} {input : List Lexeme} {s p : Asm} (hs : BetweenFiles s)
    (h : (parseTree env).run (parserInit input s) = .ok () p) :
    p.machine.textTop = s.machine.textTop ∧ p.textInKernel = s.textInKernel ∧
      p.nextTextPc = s.nextTextPc ∧ p.dataInKernel = false ∧ p.nextKDataPc = s.nextKDataPc := by
  have hframe : ParseFrame (parserInit input s) p :=
    (parseRel_parseFrame.parseTree env).ok h hs.pending
  obtain ⟨ks, -, -, hl⟩ := hframe.location
  obtain ⟨ht, hp, hd, hk⟩ := foldl_align_text s.toLocation ks
  have htop := congrArg (fun m : Machine => m.textTop) hframe.machine
  have hl : p.toLocation = ks.foldl Location.align s.toLocation := hl
  refine ⟨htop, ?_, ?_, ?_, ?_⟩
  · rw [hl, ht]
  · rw [hl, hp]
  · rw [hl, hd, hs.userData]
  · rw [hl, hk hs.userData]

lemma parseTree_flags {env : AsmEnv} {input : List Lexeme} {s p : Asm}
    (h : (parseTree env).run (parserInit input s) = .ok () p) : FlagsOfTree p :=
  (parseRel_flagsOfTree.parseTree env).ok h ⟨[], rfl, rfl, rfl⟩

/-! Data before the first kernel directive. -/

/-- Data stays in the user segment, and the counter of the kernel's is left alone. -/
def staysInUserData : Rel Asm where
  rel s t := s.dataInKernel = false → t.dataInKernel = false ∧ t.nextKDataPc = s.nextKDataPc
  refl _ h := ⟨h, rfl⟩
  trans h h' hs := ⟨(h' (h hs).1).1, (h' (h hs).1).2.trans (h hs).2⟩

theorem storeRel_staysInUserData : StoreRel staysInUserData where
  machine _ _ _ h := ⟨h, rfl⟩
  setInst _ _ _ _ h := ⟨h, rfl⟩
  log _ _ _ h := ⟨h, rfl⟩
  use _ _ _ h := ⟨h, rfl⟩
  addUse _ _ _ _ _ h := ⟨h, rfl⟩
  dataPc s v h := by
    unfold Asm.setDataPc
    rw [if_neg (by simp [h])]
    exact ⟨h, rfl⟩
  textPc s v h := by
    unfold Asm.setTextPc
    split
    · exact ⟨h, rfl⟩
    · exact ⟨h, rfl⟩

lemma staysInUserData_alignData (s : Asm) (v : Word) : staysInUserData.rel s (s.alignData v) :=
  rel_alignData (fun _ _ h => ⟨h, rfl⟩) (fun _ h => ⟨h, rfl⟩) storeRel_staysInUserData.dataPc s v

lemma staysInUserData_alignText (s : Asm) (v : Word) : staysInUserData.rel s (s.alignText v) := by
  unfold Asm.alignText
  split
  · exact staysInUserData.refl s
  · exact staysInUserData.trans (storeRel_staysInUserData.textPc s (alignUp v s.currentTextPc))
      fun h => ⟨h, rfl⟩

lemma staysInUserData_emitDirAlign (s : Asm) (v : Word) :
    staysInUserData.rel s (emitDirAlign v s) := by
  have hflag : staysInUserData.rel s (if v = 0 then { s with autoAlign := false } else s) := by
    split
    · exact fun h => ⟨h, rfl⟩
    · exact staysInUserData.refl s
  refine staysInUserData.trans hflag ?_
  unfold emitDirAlign
  generalize (if v = 0 then { s with autoAlign := false } else s) = t
  dsimp only
  split
  · exact staysInUserData_alignText t v
  · exact staysInUserData_alignData t v

/-- The user's segment directives. -/
lemma staysInUserData_emitDirSeg (s : Asm) {kind : DirSegKind} (hk : kind.isKernel = false)
    (a : Option Word) : staysInUserData.rel s (emitDirSeg kind a s) := by
  cases kind with
  | text =>
    cases a with
    | none => exact fun h => ⟨h, rfl⟩
    | some v =>
      refine staysInUserData.trans (t := { s with
        textInKernel := false, dataDir := false, textDir := true }) (fun h => ⟨h, rfl⟩) ?_
      exact storeRel_staysInUserData.textPc _ v
  | data =>
    cases a with
    | none => exact fun _ => ⟨rfl, rfl⟩
    | some v =>
      refine staysInUserData.trans (t := { s with
        dataInKernel := false, dataDir := true, textDir := false
        enableDataAutoAlignment := true, autoAlign := true }) (fun _ => ⟨rfl, rfl⟩) ?_
      exact storeRel_staysInUserData.dataPc _ v
  | kText | kData => cases hk

theorem symbolRel_staysInUserData (D G : Set String) : SymbolRel D G staysInUserData :=
  { storeRel_staysInUserData.toResolveRel with
    labelDef := fun _ _ _ _ h => ⟨h, rfl⟩
    newLabel := fun _ _ _ h => ⟨h, rfl⟩
    clearUses := fun _ _ h => ⟨h, rfl⟩
    define := fun _ _ _ _ _ h => ⟨h, rfl⟩
    linkLocal := fun _ _ _ _ h => ⟨h, rfl⟩
    declareGlobal := fun _ _ _ h => ⟨h, rfl⟩
    constant := fun _ _ _ h => ⟨h, rfl⟩
    pend := fun _ _ _ h => ⟨h, rfl⟩
    unpend := fun _ _ _ _ _ h => ⟨h, rfl⟩
    parseError := fun _ _ _ h => ⟨h, rfl⟩ }

theorem nodeRel_staysInUserData (env : Env) :
    NodeRel env Set.univ Set.univ staysInUserData :=
  { (symbolRel_staysInUserData _ _).toRecordRel with
    addUse := storeRel_staysInUserData.addUse
    dataInt := storeRel_staysInUserData.toDataRel.storeDataInt env.tbl
    dataFp := storeRel_staysInUserData.toDataRel.storeDataFp env
    dataString := fun _ _ => storeRel_staysInUserData.toDataRel.placing _
      (storeRel_staysInUserData.toDataRel.storeString _ _ _ _)
    space := storeRel_staysInUserData.toDataRel.incrementDataPc
    directive := rel_alignDirective (fun _ _ h => ⟨h, rfl⟩) staysInUserData_alignData
    common := fun s => staysInUserData_alignData s 2 }

theorem emitNodes_staysInUserData (env : Env) {ns : List (NodeRef × AstNode)}
    (hk : ∀ n ∈ ns, n.2.isKernelSeg = false) : Keeps staysInUserData (emitNodes env ns) := by
  have hR := nodeRel_staysInUserData env
  refine hR.toRecordRel.emitNodes env (fun _ _ h => ⟨h, rfl⟩) ns fun n hn => ?_
  refine hR.emitOne n.2 (fun _ _ => trivial) (fun _ _ => trivial)
    (fun _ r => storeRel_staysInUserData.storeInstruction env r) (fun kind a hseg s => ?_)
    fun v _ s => staysInUserData_emitDirAlign s v
  have hkind := hk n hn
  rw [hseg] at hkind
  exact staysInUserData_emitDirSeg s hkind a

/-! The start of a file. -/

/-- The instruction `n` of a file that is parsed at `p`, and the statements `lead` before it, among
them no segment directive. -/
structure LeadingCode (env : AsmEnv) (s : Asm) (input : List Lexeme)
    (lead : List (NodeRef × AstNode)) (n : NodeRef × AstNode) (p : Asm) : Prop where
  parsed : (parseTree env).run (parserInit input s) = .ok () p
  tree : ∃ rest, p.currentFile = some (lead ++ n :: rest)
  noSeg : ∀ m ∈ lead, m.2.isSeg = false
  code : n.2.isCode = true

/-- Text does not go to the kernel before the file, the user's location counter is a word of its
segment, the last segment directive of the file, if it has one, is a text directive, and no
alignment before the instruction leaves the segment. -/
structure StartsInText (env : AsmEnv) (s : Asm) (lead : List (NodeRef × AstNode)) (p : Asm) :
    Prop where
  user : s.textInKernel = false
  inside : s.machine.inText s.nextTextPc
  aligned : s.nextTextPc &&& 3 = 0
  room : s.machine.textTop ≤ 0xfffffffc
  endsInText : ∀ ns, p.currentFile = some ns → endsInData ns = false
  alignments : ∀ before m after, lead = before ++ m :: after →
    ∀ k, m.2 = .dirAlign k → k ≠ 0 → ∀ u, (emitNodes env.toEnv before).run p = .ok () u →
      u.machine.inText (alignUp k u.nextTextPc)

/-- A file with one instruction, which follows no segment directive. -/
def bareCode : List Lexeme := [.ident "ssnop" (some (.op .ssnop)), .nl]

/-- The file ends in kernel text. -/
def kernelCode : List Lexeme :=
  [.ident ".ktext" (some (.dir .kText)), .nl, .ident "ssnop" (some (.op .ssnop)), .nl]

/-- The file ends in data. -/
def codeThenData : List Lexeme :=
  [.ident "ssnop" (some (.op .ssnop)), .nl, .ident ".data" (some (.dir .data)), .nl]

lemma fresh_between (env : AsmEnv) : BetweenFiles (.fresh env) := by
  unfold Asm.fresh freshWorld Data.dataBeginsAtPoint
  cases env.bareMachine <;> exact ⟨rfl, rfl⟩

/-- The statement of the file when it is loaded for the second time. -/
def bareNode : NodeRef × AstNode := (1, .inst (.rShift .sll 0 0 1))

end Spimulator
