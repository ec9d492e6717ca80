import Spimulator.Linking
import Spimulator.LocalLabels

/-! References to labels in a session of loads: what stores instructions keeps those before linked, and
where nothing is lost each one is linked in the end, or waits for a label that has no address. -/
namespace Spimulator
open Frame

/-! Statements. -/

/-- Between statements, the instructions that name a label on the line wait for it. -/
structure Tidy (d : Bool) (p s : Asm) : Prop extends Linkage d p ∅ s where
  pending : ∀ {a r l}, Site p s a r l → l ∈ s.thisLineLabels → s.Waiting a r l

section

variable {env : Env} {d : Bool} {p s t : Asm}

/-- No instruction was stored yet. -/
lemma Tidy.start (hgp : ∀ l, (p.label l).gpFlag = false)
    (huses : ∀ l, ∀ u ∈ (p.label l).uses, ∀ r, u.instruction = some r → r < p.machine.nextInst) :
    Tidy d p p := by
  have hnone {a : Word} {r : InstRef} (h : p.Since p (.instStored a r)) : False := by
    obtain ⟨new, hnew, hmem⟩ := h
    cases List.self_eq_append_left.mp hnew
    cases hmem
  exact {
    grown := ⟨[], rfl⟩
    entries := Nat.le_refl _
    noGp := hgp
    uses := huses
    stored := fun _ _ h => (hnone h).elim
    sites := fun h => (hnone h.stored).elim
    pending := fun h => (hnone h.stored).elim }

lemma Linkage.tidy (hs : Linkage d p ∅ s) (h : s.thisLineLabels = []) : Tidy d p s :=
  { hs with
    pending := fun _ hl => by
      rw [h] at hl
      cases hl }

/-- A label that waits on the line goes on to wait. -/
lemma Carries.waiting {K : Set LabelRef} {a : Word} {r : InstRef} {l : LabelRef}
    (h : Carries K s t) (hs : Tidy d p s) (ht : Site p t a r l) (hl : l ∈ s.thisLineLabels)
    (hK : l ∉ K) : t.Waiting a r l := by
  have hst := (h.site hs.toLinkage ht).resolve_right (Set.notMem_empty _)
  rw [Asm.Waiting, h.uses l (Nat.lt_of_lt_of_le ht.entered hs.entries) hK]
  exact hs.pending hst hl

lemma Tidy.carry (hs : Tidy d p s) (h : Carries ∅ s t) (ht : Linkage d p ∅ t) : Tidy d p t :=
  { ht with
    pending := fun hst hl => h.waiting hs hst (h.lines ▸ hl) (Set.notMem_empty _) }

lemma Tidy.steady (hs : Tidy d p s) (h : Steady ∅ ∅ s t) : Tidy d p t :=
  hs.carry h.carries (hs.idle h)

/-- The labels of the line move. -/
lemma Tidy.move (hs : Tidy d p s) (a : Word) : Tidy d p (s.fixCurrentLabelAddress a) := by
  have huses (l : LabelRef) : ((s.fixCurrentLabelAddress a).label l).uses = (s.label l).uses := by
    rw [Asm.label_fixCurrentLabelAddress]
    split <;> rfl
  have hcarries : Carries ∅ s (s.fixCurrentLabelAddress a) :=
    ⟨⟨Nat.le_refl _, fun _ _ => ⟨rfl, rfl⟩, Nat.le_refl _, [], rfl, by simp⟩, rfl, fun l _ _ => huses l⟩
  refine hs.carry hcarries (hs.step hcarries.toExtends (fun _ h => absurd h (Set.notMem_empty _))
    (fun l => ?_) (fun l u hu => hs.uses l u (huses l ▸ hu)) (fun {b r l} hst => ?_)
    fun h => absurd h (Set.notMem_empty _))
  · rw [Asm.label_fixCurrentLabelAddress]
    split <;> exact hs.noGp l
  · obtain ⟨hu, hp, hw⟩ := hs.sites hst
    refine ⟨fun k u hk => hu k u (huses k ▸ hk), ?_, fun hwait => ?_⟩
    · by_cases hl : l ∈ s.thisLineLabels
      · refine Or.inl ?_
        rw [Asm.Waiting, huses]
        exact hs.pending hst hl
      · rw [Asm.Waiting, Asm.Reached, Asm.label_fixCurrentLabelAddress, if_neg hl]
        exact hp
    · by_cases hl : l ∈ s.thisLineLabels
      · exact Or.inr (Or.inl hl)
      · rw [Asm.label_fixCurrentLabelAddress, if_neg hl]
        rw [Asm.Waiting, huses] at hwait
        exact hw hwait

lemma tidy_alignData (s : Asm) (v : Word) : (Rel.stable (Tidy d p)).rel s (s.alignData v) :=
  rel_alignData (R := Rel.stable (Tidy d p)) (fun _ a hs => hs.move a)
    (fun _ hs => hs.steady (.still rfl rfl rfl (Nat.le_refl _) (fun _ _ => rfl) rfl))
    (fun s v hs => hs.steady (.dataPc s v)) s v

theorem Tidy.align (hs : Tidy d p s) (n : AstNode) : Tidy d p (n.align s) :=
  rel_align (R := Rel.stable (Tidy d p)) (fun _ a hs => hs.move a)
    (fun _ hs => hs.steady (.still rfl rfl rfl (Nat.le_refl _) (fun _ _ => rfl) rfl))
    tidy_alignData (fun s v => rel_alignText (R := Rel.stable (Tidy d p)) (fun _ a hs => hs.move a)
      (fun s v hs => hs.steady (.textPc s v)) s v) n s hs

/-! Statements that keep the labels of the line. -/

variable {name : String}

lemma Tidy.lookupLabel {k : LabelRef} (hs : Tidy d p s) (h : (lookupLabel name).run s = .ok k t) :
    Tidy d p t := by
  obtain ⟨hl, hc⟩ := hs.toLinkage.lookupLabel h
  exact hs.carry hc hl

lemma Tidy.makeLabelGlobal {k : LabelRef} (hs : Tidy d p s)
    (h : (makeLabelGlobal name).run s = .ok k t) : Tidy d p t := by
  obtain ⟨k, u, hu, h⟩ := ok_of_bind h
  obtain ⟨_, _, ⟨⟩, h⟩ := ok_of_bind h
  cases h
  have hfound := hs.lookupLabel hu
  exact hfound.carry (carries_setLabel u rfl) (hfound.setFlag (hfound.noGp k) rfl rfl)

/-- A label starts to wait on the line. -/
lemma Linkage.pend {k : LabelRef} (hs : Linkage d p {k} s) :
    Linkage d p ∅ { s with thisLineLabels := k :: s.thisLineLabels } :=
  { hs with
    sites := fun {a r l} hst => by
      obtain ⟨hu, hp, hw⟩ := hs.sites (⟨hst.stored, hst.entered, hst.opcode, hst.symbol⟩ :
        Site p s a r l)
      refine ⟨hu, hp, fun h => (hw h).imp_right fun hl => Or.inl ?_⟩
      rcases hl with hl | rfl
      · exact List.mem_cons_of_mem k hl
      · exact List.mem_cons_self }

theorem Tidy.emitLabelNormal (hs : Tidy env.delayedBranches p s)
    (h : (emitLabelNormal env name).run s = .ok () t) (hloss : ¬ p.Loses t) :
    Tidy env.delayedBranches p t := by
  obtain ⟨_, _, ⟨⟩, h⟩ := ok_of_bind h
  obtain ⟨k, w, hw, h⟩ := ok_of_bind h
  cases h
  obtain ⟨_, u, hu, hw⟩ := ok_of_bind hw
  obtain ⟨_, _, hentry, hw⟩ := ok_of_bind hw
  cases hw
  have hfound := hs.lookupLabel hu
  obtain ⟨hk, hlinks, hc⟩ := hfound.toLinkage.recordEntry hentry fun hl => hloss hl
  refine { hlinks.pend with pending := fun {a r l} hst hl => ?_ }
  have hsw : Site p w a r l := ⟨hst.stored, hst.entered, hst.opcode, hst.symbol⟩
  have hwait : w.Waiting a r l := by
    rcases List.mem_cons.mp hl with rfl | hl
    · -- the label has no address yet, so that nothing is linked to it
      have hsu := (hc.site hfound.toLinkage hsw).resolve_right (Set.notMem_empty _)
      rw [Asm.Waiting, hc.uses l (Nat.lt_of_lt_of_le hst.entered hfound.entries) (Set.notMem_empty _)]
      exact (hfound.sites hsu).place.resolve_right fun hr => hr.1 hk
    · exact hc.waiting hfound hsw (hc.lines ▸ hl) (Set.notMem_empty _)
  exact hwait

/-- The name that the statement defines as a constant. -/
def AstNode.constant : AstNode → Option String
  | .labelConst name _ => some name
  | _ => none

/-- A constant does not define a label of its line. -/
def ConstOffLine (s : Asm) (n : NodeRef × AstNode) : Prop :=
  ∀ name ∈ n.2.constant, ∀ k ∈ s.labelIsDefined name, k ∉ s.thisLineLabels

instance (s : Asm) (n : NodeRef × AstNode) : Decidable (ConstOffLine s n) :=
  inferInstanceAs (Decidable (∀ name ∈ n.2.constant, ∀ k ∈ s.labelIsDefined name,
    k ∉ s.thisLineLabels))

theorem Tidy.emitLabelConst {v : Word} (hs : Tidy env.delayedBranches p s)
    (hoff : ∀ k ∈ s.labelIsDefined name, k ∉ s.thisLineLabels)
    (h : (emitLabelConst env name v).run s = .ok () t) (hloss : ¬ p.Loses t) :
    Tidy env.delayedBranches p t := by
  obtain ⟨k, w, hw, h⟩ := ok_of_bind h
  cases h
  obtain ⟨_, u, hu, hw⟩ := ok_of_bind hw
  obtain ⟨_, _, hentry, hw⟩ := ok_of_bind hw
  cases hw
  have hne {l : LabelRef} (hl : l < p.nextLabel) (hline : l ∈ u.thisLineLabels) : l ≠ k := by
    rintro rfl
    rcases lookupLabel_run hu with ⟨hdef, rfl⟩ | ⟨-, rfl, rfl⟩
    · exact hoff l hdef hline
    · exact absurd hl (Nat.not_lt.mpr hs.entries)
  have hfound := hs.lookupLabel hu
  obtain ⟨-, hlinks, hc⟩ := hfound.toLinkage.recordEntry hentry fun hl => hloss hl
  have hw : Tidy env.delayedBranches p w :=
    { hlinks with
      pending := fun hst hl => by
        rw [hc.lines] at hl
        exact hc.waiting hfound hst hl (hne hst.entered hl) }
  exact hw.carry (carries_setLabel w rfl) (hw.setFlag (hw.noGp k) rfl rfl)

/-! Runs. -/

/-- A statement keeps what is tidy, unless something is lost. -/
theorem Tidy.emitNode (hs : Tidy env.delayedBranches p s) {n : NodeRef × AstNode}
    (hc : ConstOffLine s n) (h : (emitNode env n).run s = .ok () t) (hloss : ¬ p.Loses t) :
    Tidy env.delayedBranches p t := by
  obtain ⟨_, _, ⟨⟩, h⟩ := ok_of_bind h
  obtain ⟨_, u, hu, h⟩ := ok_of_bind h
  rw [emitOne_eq] at hu
  obtain ⟨_, _, ⟨⟩, hu⟩ := ok_of_bind hu
  have hlog : Tidy env.delayedBranches p (s.log (.emitted n.1)) := hs.steady (Steady.log s (by simp))
  have haligned := hlog.align n.2
  cases hk : n.2.keepsLabels with
  | false =>
    rw [onlyIf_pos hk] at h
    have hkeeps : Keeps (linking env.delayedBranches p ∅) (do
        emitPlaced env n.2
        clearLabels env) := Keeps.bind (keeps_emitPlaced hk) fun _ => keeps_clearLabels
    have hrun := (run_bind_of_ok hu (f := fun _ => clearLabels env)).trans h
    exact ((hkeeps.ok hrun).2 haligned.toLinkage hloss).tidy (clearLabels_pending h)
  | true =>
    rw [onlyIf_neg (by simp [hk])] at h
    cases h
    obtain ⟨ref, n⟩ := n
    cases n with
    | labelNormal name => exact hlog.emitLabelNormal hu hloss
    | labelConst name v => exact hlog.emitLabelConst (hc name rfl) hu hloss
    | dirGlobl name =>
      obtain ⟨_, _, hg, hu⟩ := ok_of_bind hu
      cases hu
      exact hlog.makeLabelGlobal hg
    | inst | pseudo | dataInt | dataFp | dataString | dirSeg | dirAlign | dirSpace | dirExtern |
      dirComm => cases hk

lemma emitNode_logGrows (env : Env) (n : NodeRef × AstNode) : Keeps logGrows (emitNode env n) := by
  have hR := labelRel_logGrows
  refine Keeps.bind (Keeps.modify fun _ => ⟨[_], rfl⟩) fun _ => ?_
  refine Keeps.bind (hR.emitOne env n.2 (fun _ _ => trivial) fun _ _ => trivial) fun _ => ?_
  exact Keeps.onlyIf (hR.clearLabels env)

/-- What a run of statements keeps. -/
theorem Tidy.emitNodes {ns : List (NodeRef × AstNode)} (hs : Tidy env.delayedBranches p s)
    (h : CommandRun (Spimulator.emitNode env) ConstOffLine s ns t) :
    p.Loses t ∨ Tidy env.delayedBranches p t := by
  refine h.invariant (P := fun s => p.Loses s ∨ Tidy env.delayedBranches p s)
    (fun s n t hs hc hr => ?_) (Or.inr hs)
  obtain ⟨new, hnew⟩ := (emitNode_logGrows env n).ok hr
  rcases hs with hl | hs
  · exact Or.inl (hl.later hnew)
  · by_cases hloss : p.Loses t
    · exact Or.inl hloss
    · exact Or.inr (hs.emitNode hc hr hloss)

end

/-! Parsing, and the end of a file. -/

/-- Where no label waits on the line, the log grows and what is linked stays so. -/
def idling (d : Bool) (p : Asm) : Rel Asm where
  rel s t := s.thisLineLabels = [] → t.thisLineLabels = [] ∧ logGrows.rel s t ∧
    (Linkage d p ∅ s → Linkage d p ∅ t)
  refl s hp := ⟨hp, logGrows.refl s, id⟩
  trans := by
    intro s t u h h' hp
    obtain ⟨hp, hg, hl⟩ := h hp
    obtain ⟨hp', hg', hl'⟩ := h' hp
    exact ⟨hp', logGrows.trans hg hg', fun hs => hl' (hl hs)⟩
  upTo _ _ := True
  upTo_refl _ := trivial

section

variable {d : Bool} {p s t u : Asm}

lemma idling_of_steady (h : Steady ∅ ∅ s t) : (idling d p).rel s t := by
  obtain ⟨new, hnew, -⟩ := h.events
  exact fun hp => ⟨h.lines.trans hp, ⟨new, hnew⟩, fun hs => hs.idle h⟩

lemma idling_alignDirective (s : Asm) (v : Word) : (idling d p).rel s (s.alignDirective v) :=
  rel_alignDirective (R := idling d p) (fun _ a hp => ⟨hp, ⟨[], rfl⟩, fun hs =>
    ((hs.tidy hp).move a).toLinkage⟩) (fun s v => rel_alignData (R := idling d p)
      (fun _ a hp => ⟨hp, ⟨[], rfl⟩, fun hs => ((hs.tidy hp).move a).toLinkage⟩)
      (fun _ => idling_of_steady (.still rfl rfl rfl (Nat.le_refl _) (fun _ _ => rfl) rfl))
      (fun s v => idling_of_steady (.dataPc s v)) s v) s v

theorem parseRel_idling (d : Bool) (p : Asm) : ParseRel (idling d p) where
  scan _ _ _ _ := idling_of_steady (.still rfl rfl rfl (Nat.le_refl _) (fun _ _ => rfl) rfl)
  unresolved _ _ := idling_of_steady (.still rfl rfl rfl (Nat.le_refl _) (fun _ _ => rfl) rfl)
  pseudo _ _ := idling_of_steady (.still rfl rfl rfl (Nat.le_refl _) (fun _ _ => rfl) rfl)
  append _ _ _ := idling_of_steady (.still rfl rfl rfl (Nat.le_refl _) (fun _ _ => rfl) rfl)
  seg _ kind _ := by
    cases kind <;> exact idling_of_steady (.still rfl rfl rfl (Nat.le_refl _) (fun _ _ => rfl) rfl)
  noAlign _ := idling_of_steady (.still rfl rfl rfl (Nat.le_refl _) (fun _ _ => rfl) rfl)
  nullTerm _ _ := idling_of_steady (.still rfl rfl rfl (Nat.le_refl _) (fun _ _ => rfl) rfl)
  newLine _ := idling_of_steady (.still rfl rfl rfl (Nat.le_refl _) (fun _ _ => rfl) rfl)
  newLabel _ name _ hp := ⟨hp, ⟨[], rfl⟩, fun hs => hs.newLabel name⟩
  use s _ _ := idling_of_steady (.log s (by simp))
  report s _ _ := idling_of_steady (.log s (by simp))
  parseError s _ := idling_of_steady (Steady.trans
    (.still (t := { s with parseErrorOccurred := true, parseErrorsSeen := s.parseErrorsSeen + 1 }) rfl
      rfl rfl (Nat.le_refl _) (fun _ _ => rfl) rfl) (.log _ (by simp)))
  aligned s k _ _ := by
    refine (idling d p).trans ?_ (idling_alignDirective _ _)
    split
    · exact idling_of_steady (.log s (by simp))
    · exact (idling d p).refl s
  clear env s := by
    refine KeepsFrom.of_ok (fun _ => trivial) fun _ t h hp => ?_
    change (clearLabelList env s.thisLineLabels).run s = _ at h
    rw [hp] at h
    cases h
    exact ⟨hp, logGrows.refl s, id⟩

theorem endRel_steady : EndRel (steady ∅ ∅) where
  erase _ _ _ _ _ := .still rfl rfl rfl (Nat.le_refl _) (fun _ _ => rfl) rfl
  report s _ _ := .log s (by simp)
  flush _ := .still rfl rfl rfl (Nat.le_refl _) (fun _ _ => rfl) rfl
  reset _ := .still rfl rfl rfl (Nat.le_refl _) (fun _ _ => rfl) rfl

lemma Steady.grows {Q S : Set InstRef} (h : Steady Q S s t) : logGrows.rel s t := by
  obtain ⟨new, hnew, -⟩ := h.events
  exact ⟨new, hnew⟩

/-! Files. -/

/-- The file is assembled for the branch mode, and no constant in it defines a label of its line. -/
def FileLoad.Linkable (d : Bool) (s : Asm) (f : FileLoad) : Prop :=
  f.1.delayedBranches = d ∧
    (f.1.printAstOnly = false → ∀ p ns, (parseTree f.1).run (parserInit f.2 s) = .ok () p →
      p.currentFile = some ns → ∃ t, CommandRun (emitNode f.1.toEnv) ConstOffLine p ns t)

lemma parse_idling {f : FileLoad} {q : Asm}
    (hq : (parseTree f.1).run (parserInit f.2 s) = .ok () q) : (idling d p).rel s q := by
  have hinit : Steady ∅ ∅ s (parserInit f.2 s) :=
    .still rfl rfl rfl (Nat.le_refl _) (fun _ _ => rfl) rfl
  exact (idling d p).trans (idling_of_steady hinit) ((parseRel_idling d p).parseTree f.1 |>.ok hq)

/-- What follows the parsing of a file. -/
theorem Linkage.emission {f : FileLoad} {q : Asm} (hf : f.Linkable d s)
    (hq : (parseTree f.1).run (parserInit f.2 s) = .ok () q)
    (ht : (f.1.printAstOnly = true ∨ q.currentFile = none) ∧ t = q ∨
      ∃ ns, f.1.printAstOnly = false ∧ q.currentFile = some ns ∧
        (emitAst f.1.toEnv ns).run q = .ok () t)
    (hu : endFile.run t = .ok () u) :
    logGrows.rel q u ∧ (Linkage d p ∅ q → ¬ p.Loses u → Linkage d p ∅ u) := by
  have hend : Steady ∅ ∅ t u := endRel_steady.endFile.ok hu
  have hrest {v : Asm} (hv : logGrows.rel v t ∧ (Linkage d p ∅ v → ¬ p.Loses t → Linkage d p ∅ t)) :
      logGrows.rel v u ∧ (Linkage d p ∅ v → ¬ p.Loses u → Linkage d p ∅ u) := by
    obtain ⟨new, hnew⟩ := hend.grows
    refine ⟨logGrows.trans hv.1 ⟨new, hnew⟩, fun hs hloss => ?_⟩
    exact (hv.2 hs fun hl => hloss (hl.later hnew)).idle hend
  refine hrest ?_
  rcases ht with ⟨-, rfl⟩ | ⟨ns, hprint, hns, ht⟩
  · exact ⟨logGrows.refl t, fun hs _ => hs⟩
  · obtain ⟨rfl, hrun⟩ := hf
    obtain ⟨v, hv⟩ := hrun hprint q ns hq hns
    have hemit := emitNodes_run.mpr (hv.mono fun _ _ _ => trivial)
    rw [emitAst, run_bind_of_ok hemit] at ht
    have hline : q.thisLineLabels = [] := parseTree_pending hq
    have hgrows : logGrows.rel q v := (labelRel_logGrows.emitNodes f.1.toEnv (fun _ _ => ⟨[_], rfl⟩) ns
      (fun _ _ _ _ => trivial) fun _ _ _ _ => trivial).ok hemit
    have hkeeps : Keeps (linking f.1.toEnv.delayedBranches p ∅) (clearLabels f.1.toEnv) :=
      keeps_clearLabels
    obtain ⟨⟨new, hnew⟩, hclear⟩ := hkeeps.ok ht
    refine ⟨logGrows.trans hgrows ⟨new, hnew⟩, fun hs hloss => ?_⟩
    have hv := ((hs.tidy hline).emitNodes hv).resolve_left fun hl => hloss (hl.later hnew)
    exact hclear hv.toLinkage hloss

theorem load_idle {f : FileLoad} (h : f.run.run s = .ok () u) : u.thisLineLabels = [] := by
  obtain ⟨t, ht, hu⟩ := loadSource_run h
  exact (endRel_thisLineLabels.endFile.ok hu).trans (parseFile_pending ht)

/-- A file is loaded: what is linked stays so, unless something is lost. -/
theorem Linkage.load {f : FileLoad} (hp : s.thisLineLabels = []) (hf : f.Linkable d s)
    (h : f.run.run s = .ok () u) :
    logGrows.rel s u ∧ (Linkage d p ∅ s → ¬ p.Loses u → Linkage d p ∅ u) := by
  obtain ⟨q, t, hq, ht, hu⟩ := loadSource_parsed h
  obtain ⟨-, hgrows, hparse⟩ := parse_idling (d := d) (p := p) hq hp
  obtain ⟨hgrows', hemit⟩ := Linkage.emission (p := p) hf hq ht hu
  exact ⟨logGrows.trans hgrows hgrows', fun hs hloss => hemit (hparse hs) hloss⟩

/-- Files are loaded one after the other. -/
theorem Linkage.session {fs : List FileLoad} (hp : s.thisLineLabels = [])
    (h : CommandRun FileLoad.run (FileLoad.Linkable d) s fs t) :
    t.thisLineLabels = [] ∧ logGrows.rel s t ∧ (Linkage d p ∅ s → ¬ p.Loses t → Linkage d p ∅ t) := by
  refine h.invariant (P := fun t => t.thisLineLabels = [] ∧ logGrows.rel s t ∧
    (Linkage d p ∅ s → ¬ p.Loses t → Linkage d p ∅ t)) (fun v f w hv hf hw => ?_)
    ⟨hp, logGrows.refl s, fun hs _ => hs⟩
  obtain ⟨hv, hgrows, hlinks⟩ := hv
  obtain ⟨⟨new, hnew⟩, hload⟩ := Linkage.load (p := p) hv hf hw
  refine ⟨load_idle hw, logGrows.trans hgrows ⟨new, hnew⟩, fun hs hloss => ?_⟩
  exact hload (hlinks hs fun hl => hloss (hl.later hnew)) hloss

lemma fresh_pending (env : AsmEnv) : (Asm.fresh env).thisLineLabels = [] :=
  (symbols_eq_iff.mp (fresh_symbols env)).2.2.1

lemma Linkage.fresh (env : AsmEnv) : Linkage d (.fresh env) ∅ (.fresh env) := by
  obtain ⟨-, hlabel, -⟩ := symbols_eq_iff.mp (fresh_symbols env)
  refine (Tidy.start (fresh_wellFormed env).noGp fun l u hu => ?_).toLinkage
  rw [hlabel] at hu
  cases hu

end

/-! A jump to a label of the next file. -/

lemma linkable_of_eval {d : Bool} {s : Asm} {f : FileLoad} (hd : f.1.delayedBranches = d)
    (h : returnsTo (parseTree f.1) (parserInit f.2 s) (fun p => p.currentFile.all fun ns =>
      (CommandRun.eval (emitNode f.1.toEnv) ConstOffLine ns p).isSome) = true) : f.Linkable d s := by
  refine ⟨hd, fun _ p ns hp hns => ?_⟩
  obtain ⟨q, hq, hrun⟩ := of_returnsTo h
  cases hp.symm.trans hq
  rw [hns] at hrun
  obtain ⟨t, ht⟩ := Option.isSome_iff_exists.mp hrun
  exact ⟨t, CommandRun.of_eval ht⟩

/-- A jump to x, which is global. -/
def callerFile : List Lexeme :=
  [.ident ".globl" (some (.dir .globl)), .ident "x" none, .nl,
    .ident "j" (some (.op .j)), .ident "x" none, .nl]

def calleeFile : List Lexeme :=
  [.ident ".globl" (some (.dir .globl)), .ident "x" none, .nl,
    .ident "x" none, .punct ':', .ident "ssnop" (some (.op .ssnop)), .nl]

end Spimulator
