import Spimulator.Loading

/-! How often the nodes of a session are emitted. parse_file adds to a tree that outlives the call
and emits the whole tree. -/
namespace Spimulator
open Frame

/-- The emissions of nodes so far, newest first. -/
def Asm.emissions (s : Asm) : List NodeRef :=
  s.events.filterMap fun
    | .emitted n => some n
    | _ => none

/-- The tree, the number of nodes and the emissions stay the same. -/
def sameTree : Rel Asm := Rel.same (fun s => (s.currentFile, s.nextNode, s.emissions))

lemma emissions_log (s : Asm) {e : AsmEvent} (h : ∀ n, e ≠ .emitted n) :
    (s.log e).emissions = s.emissions := by
  cases e with
  | emitted n => exact absurd rfl (h n)
  | stored | instStored | used | parseAligned | report | fired => rfl

lemma sameTree_log (s : Asm) {e : AsmEvent} (h : ∀ n, e ≠ .emitted n) : sameTree.rel s (s.log e) :=
  congrArg (fun es => (s.currentFile, s.nextNode, es)) (emissions_log s h)

theorem labelRel_sameTree : LabelRel Set.univ Set.univ sameTree where
  machine _ _ _ := rfl
  setInst _ _ _ _ := rfl
  log s e h := sameTree_log s (by rintro n rfl; cases h)
  labelDef _ _ _ _ := rfl
  use _ _ _ := rfl
  addUse _ _ _ _ _ := rfl
  dataPc s v := by
    unfold Asm.setDataPc
    split <;> rfl
  textPc s v := by
    unfold Asm.setTextPc
    split <;> rfl
  newLabel _ _ _ := rfl
  clearUses _ _ := rfl
  define _ _ _ _ _ := rfl
  linkLocal _ _ _ _ := rfl
  declareGlobal _ _ _ := rfl
  constant _ _ _ := rfl
  pend _ _ _ := rfl
  unpend _ _ _ _ _ := rfl
  move _ _ := rfl
  parseError _ _ _ := rfl
  flags _ _ _ _ _ _ _ := rfl

/-- emit_ast emits every node of the tree once, and changes nothing of the tree. -/
lemma emitNodes_emissions (env : Env) (ns : List (NodeRef × AstNode)) {s t : Asm}
    (h : (emitNodes env ns).run s = .ok () t) :
    t.currentFile = s.currentFile ∧ t.nextNode = s.nextNode ∧
      t.emissions = (ns.map Prod.fst).reverse ++ s.emissions := by
  induction ns generalizing s with
  | nil =>
    cases h
    exact ⟨rfl, rfl, rfl⟩
  | cons n ns ih =>
    obtain ⟨_, s₁, ⟨⟩, h⟩ := ok_of_bind h
    obtain ⟨_, s₂, h₂, h⟩ := ok_of_bind h
    obtain ⟨_, s₃, h₃, h⟩ := ok_of_bind h
    have hone := (labelRel_sameTree.emitOne env n.2 (fun _ _ => trivial)
      fun _ _ => trivial).ok h₂
    have hclear := (Keeps.onlyIf (labelRel_sameTree.clearLabels env)).ok h₃
    obtain ⟨hf, hn, he⟩ := ih h
    have hs : (s₃.currentFile, s₃.nextNode, s₃.emissions) =
        (s.currentFile, s.nextNode, n.1 :: s.emissions) := hclear.trans hone
    simp only [Prod.mk.injEq] at hs
    refine ⟨hf.trans hs.1, hn.trans hs.2.1, ?_⟩
    rw [he, hs.2.2]
    simp

/-! Parsing. -/

/-- The tree grows at its end by the new nodes, which are numbered in order; nothing is emitted. -/
def grows : Rel Asm where
  rel s t := t.emissions = s.emissions ∧ ∃ ns : List (NodeRef × AstNode),
    t.currentFile = s.currentFile.map (· ++ ns) ∧
      t.nextNode = s.nextNode + ns.length ∧ ns.map Prod.fst = List.range' s.nextNode ns.length
  refl s := ⟨rfl, [], by cases s.currentFile <;> simp, rfl, rfl⟩
  trans := by
    rintro s t u ⟨he, ns, hf, hn, hr⟩ ⟨he', ns', hf', hn', hr'⟩
    refine ⟨he'.trans he, ns ++ ns', ?_, ?_, ?_⟩
    · rw [hf', hf]
      cases s.currentFile <;> simp
    · rw [hn', hn, List.length_append, Nat.add_assoc]
    · rw [List.map_append, hr, hr', hn, List.length_append, List.range'_append_1]

lemma grows_of_sameTree {s t : Asm} (h : sameTree.rel s t) : grows.rel s t := by
  obtain ⟨hf, hn, he⟩ : t.currentFile = s.currentFile ∧ t.nextNode = s.nextNode ∧
      t.emissions = s.emissions := by simpa [sameTree, Rel.same] using h
  refine ⟨he, [], ?_, hn, rfl⟩
  rw [hf]
  cases s.currentFile <;> simp

lemma grows_append (s : Asm) (n : AstNode) : grows.rel s (s.appendNode n) := by
  refine ⟨rfl, [(s.nextNode, n)], rfl, rfl, rfl⟩

theorem parseRel_grows : ParseRel grows where
  scan _ _ _ _ := grows_of_sameTree rfl
  unresolved _ _ := grows_of_sameTree rfl
  pseudo _ _ := grows_of_sameTree rfl
  append s n _ := grows_append s n
  seg s kind a := by
    cases kind <;> exact grows.trans (grows_of_sameTree rfl) (grows_append _ _)
  noAlign _ := grows_of_sameTree rfl
  nullTerm _ _ := grows_of_sameTree rfl
  newLine _ := grows_of_sameTree rfl
  newLabel _ _ _ := grows_of_sameTree rfl
  use _ _ _ := grows_of_sameTree rfl
  report _ _ _ := grows_of_sameTree rfl
  parseError _ _ := grows_of_sameTree rfl
  aligned s k _ _ := by
    refine grows_of_sameTree (sameTree.trans ?_ (labelRel_sameTree.alignDirective _ _))
    split
    · exact rfl
    · exact rfl
  clear env := Keeps.mono (fun _ _ h => grows_of_sameTree h) (labelRel_sameTree.clearLabels env) id

/-! Sessions. -/

theorem endRel_sameTree : EndRel sameTree where
  erase _ _ _ _ _ := rfl
  report s _ _ := sameTree_log s (by simp)
  flush _ := rfl
  reset _ := rfl

/-- Every node built so far has been emitted once, and no other. -/
def EachOnce (s : Asm) : Prop :=
  ∀ k, s.emissions.count k = if k < s.nextNode then 1 else 0

lemma EachOnce.of_sameTree {s t : Asm} (h : EachOnce s) (hst : sameTree.rel s t) :
    EachOnce t := by
  obtain ⟨-, hn, he⟩ : t.currentFile = s.currentFile ∧ t.nextNode = s.nextNode ∧
      t.emissions = s.emissions := by simpa [sameTree, Rel.same] using hst
  intro k
  rw [he, hn]
  exact h k

/-- A call of parse_file finds the tree empty, as parser_init makes it, and emits what it has
parsed. -/
def FreshTree (s : Asm) : SessionCall → Prop
  | .parseFile env => s.currentFile = some [] ∧ env.printAstOnly = false
  | _ => True

lemma count_range' (n len k : ℕ) :
    (List.range' n len).count k = if n ≤ k ∧ k < n + len then 1 else 0 := by
  rw [List.Nodup.count List.nodup_range']
  simp only [List.mem_range'_1]

lemma parseFile_eachOnce {env : AsmEnv} {s t : Asm} (hs : EachOnce s)
    (hf : s.currentFile = some []) (he : env.printAstOnly = false)
    (h : (parseFile env).run s = .ok () t) : EachOnce t := by
  obtain ⟨_, p, hp, h⟩ := ok_of_bind h
  obtain ⟨hev, ns, hfile, hnext, hrange⟩ := (parseRel_grows.parseTree env).ok hp
  rw [hf] at hfile
  obtain ⟨_, _, ⟨⟩, h⟩ := ok_of_bind h
  rw [hfile] at h
  simp only [Option.map_some, List.nil_append, he, onlyIf_pos] at h
  obtain ⟨_, u, hu, h⟩ := ok_of_bind h
  obtain ⟨-, hn, hem⟩ := emitNodes_emissions env.toEnv ns hu
  have hclear := (labelRel_sameTree.clearLabels env.toEnv).ok h
  refine EachOnce.of_sameTree (fun k => ?_) hclear
  rw [hem, hn, hev, hnext, hrange, List.count_append, List.count_reverse, count_range', hs k]
  grind

theorem run_eachOnce {c : SessionCall} {s t : Asm} (hs : EachOnce s) (hc : FreshTree s c)
    (h : c.run.run s = .ok () t) : EachOnce t := by
  cases c with
  | parserInit input =>
    cases h
    exact hs
  | parseFile env => exact parseFile_eachOnce hs hc.1 hc.2 h
  | source input =>
    cases h
    exact hs
  | endFile => exact hs.of_sameTree (endRel_sameTree.endFile.ok h)

/-- One file, loaded. -/
def assembled : List SessionCall :=
  [.parserInit [.ident ".data" (some (.dir .data)), .nl,
      .ident ".byte" (some (.dir .byte)), .int 7, .nl],
    .parseFile { Env.quiet with }]

instance (s : Asm) (c : SessionCall) : Decidable (FreshTree s c) :=
  match c with
  | .parserInit _ | .source _ | .endFile => isTrue trivial
  | .parseFile env =>
    decidable_of_iff (s.currentFile.any List.isEmpty = true ∧ env.printAstOnly = false) (by
      cases hf : s.currentFile with
      | none => simp [FreshTree, hf]
      | some ns => simp [FreshTree, hf])

/-- A file with a byte of data, and another byte from the command line. -/
def reassembled : List SessionCall :=
  [.parserInit [.ident ".data" (some (.dir .data)), .nl,
      .ident ".byte" (some (.dir .byte)), .int 7, .nl],
    .parseFile { Env.quiet with },
    .endFile,
    .source [.ident ".byte" (some (.dir .byte)), .int 8, .nl],
    .parseFile { Env.quiet with }]

end Spimulator
