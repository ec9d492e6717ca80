import Spimulator.Resolution

/-! Instructions that name a label. Each one that is stored in text is linked when the label gets its
address, unless something says why not, and no later step of the assembler undoes it. -/
namespace Spimulator
open Frame

/-! Instructions in text. -/

/-- The use of the label waits. -/
def Asm.Waiting (s : Asm) (a : Word) (r : InstRef) (l : LabelRef) : Prop :=
  ⟨some r, a⟩ ∈ (s.label l).uses

/-- The instruction, no lui, was stored in text at `a` since `p` and names a label that had its
entry then. -/
structure Site (p s : Asm) (a : Word) (r : InstRef) (l : LabelRef) : Prop where
  stored : p.Since s (.instStored a r)
  entered : l < p.nextLabel
  opcode : ∃ op, (s.machine.insts r).opcode = some op ∧ op ≠ .lui
  symbol : (s.machine.insts r).symbol = some l

/-- The instruction waits for its label, or is linked to it. Only labels of the line, those in `K`
and those without an address have uses that wait. -/
structure Tended (d : Bool) (K : Set LabelRef) (s : Asm) (a : Word) (r : InstRef) (l : LabelRef) :
    Prop where
  usedAt : ∀ k, ∀ u ∈ (s.label k).uses, u.instruction = some r → u.addr = a ∧ k = l
  place : s.Waiting a r l ∨ s.Reached d a r l
  unresolved : s.Waiting a r l → (s.label l).addr = 0 ∨ l ∈ s.thisLineLabels ∨ l ∈ K

/-- Every instruction stored since `p` is tended. -/
structure Linkage (d : Bool) (p : Asm) (K : Set LabelRef) (s : Asm) : Prop where
  grown : ∃ new, s.events = new ++ p.events
  entries : p.nextLabel ≤ s.nextLabel
  noGp : ∀ l, (s.label l).gpFlag = false
  uses : ∀ l, ∀ u ∈ (s.label l).uses, ∀ r, u.instruction = some r → r < s.machine.nextInst
  stored : ∀ a r, p.Since s (.instStored a r) → r < s.machine.nextInst
  sites : ∀ {a r l}, Site p s a r l → Tended d K s a r l

/-- Records and entries are added only, and only instructions in `S` are stored. -/
structure Extends (S : Set InstRef) (s t : Asm) : Prop where
  nextInst : s.machine.nextInst ≤ t.machine.nextInst
  insts : ∀ r < s.machine.nextInst, (t.machine.insts r).opcode = (s.machine.insts r).opcode ∧
    (t.machine.insts r).symbol = (s.machine.insts r).symbol
  nextLabel : s.nextLabel ≤ t.nextLabel
  events : ∃ new, t.events = new ++ s.events ∧ ∀ a r, .instStored a r ∈ new → r ∈ S

/-- Records and entries are added only, the line stays, and so do the uses of labels outside `K`. -/
structure Carries (K : Set LabelRef) (s t : Asm) : Prop extends Extends ∅ s t where
  lines : t.thisLineLabels = s.thisLineLabels
  uses : ∀ l < s.nextLabel, l ∉ K → (t.label l).uses = (s.label l).uses

section

variable {d : Bool} {p s t u : Asm} {K K' Q S : Set InstRef} {a : Word} {r : InstRef} {l : LabelRef}

lemma Extends.trans (h : Extends S s t) (h' : Extends S t u) : Extends S s u where
  nextInst := Nat.le_trans h.nextInst h'.nextInst
  insts r hr := by
    obtain ⟨hop, hsym⟩ := h.insts r hr
    obtain ⟨hop', hsym'⟩ := h'.insts r (Nat.lt_of_lt_of_le hr h.nextInst)
    exact ⟨hop'.trans hop, hsym'.trans hsym⟩
  nextLabel := Nat.le_trans h.nextLabel h'.nextLabel
  events := by
    obtain ⟨new, hnew, hno⟩ := h.events
    obtain ⟨new', hnew', hno'⟩ := h'.events
    refine ⟨new' ++ new, by rw [hnew', hnew, List.append_assoc], fun a r hr => ?_⟩
    exact (List.mem_append.mp hr).elim (hno' a r) (hno a r)

lemma Carries.trans (h : Carries K s t) (h' : Carries K t u) : Carries K s u :=
  { h.toExtends.trans h'.toExtends with
    lines := h'.lines.trans h.lines
    uses := fun l hl hK =>
      (h'.uses l (Nat.lt_of_lt_of_le hl h.nextLabel) hK).trans (h.uses l hl hK) }

lemma Carries.mono (h : Carries K s t) (hK : K ⊆ K') : Carries K' s t :=
  { h with uses := fun l hl hn => h.uses l hl fun hk => hn (hK hk) }

lemma Steady.extends (h : Steady Q S s t) : Extends S s t :=
  ⟨h.nextInst, fun r hr => ⟨(h.insts r hr).opcode, (h.insts r hr).symbol⟩, Nat.le_of_eq h.nextLabel.symm,
    h.events⟩

lemma Steady.carries (h : Steady Q ∅ s t) : Carries ∅ s t :=
  { h.extends with
    lines := h.lines
    uses := fun _ _ _ => by rw [h.label] }

lemma Site.lt (h : Site p s a r l) (hs : Linkage d p K s) : r < s.machine.nextInst :=
  hs.stored a r h.stored

/-- What is stored since was stored before the step, unless the step stores it. -/
lemma Extends.site (h : Extends S s t) (hs : Linkage d p K s) (ht : Site p t a r l) :
    Site p s a r l ∨ r ∈ S := by
  obtain ⟨old, hold⟩ := hs.grown
  obtain ⟨new, hnew, hno⟩ := h.events
  rcases ht.stored.split hold hnew with hp | hn
  · obtain ⟨hop, hsym⟩ := h.insts r (hs.stored a r hp)
    exact Or.inl ⟨hp, ht.entered, hop ▸ ht.opcode, hsym ▸ ht.symbol⟩
  · exact Or.inr (hno a r hn)

/-- A step that tends the instructions stored before it and the one it stores. -/
theorem Linkage.step (hs : Linkage d p K s) (h : Extends S s t) (hS : ∀ r ∈ S, r < t.machine.nextInst)
    (noGp : ∀ l, (t.label l).gpFlag = false)
    (uses : ∀ l, ∀ u ∈ (t.label l).uses, ∀ r, u.instruction = some r → r < t.machine.nextInst)
    (old : ∀ {a r l}, Site p s a r l → Tended d K' t a r l)
    (new : ∀ {a r l}, r ∈ S → Site p t a r l → Tended d K' t a r l) : Linkage d p K' t := by
  obtain ⟨es, hes⟩ := hs.grown
  obtain ⟨fs, hfs, hno⟩ := h.events
  refine ⟨⟨fs ++ es, by rw [hfs, hes, List.append_assoc]⟩, Nat.le_trans hs.entries h.nextLabel, noGp,
    uses, fun a r hr => ?_, fun ht => (h.site hs ht).elim old fun hr => new hr ht⟩
  rcases hr.split hes hfs with hp | hn
  · exact Nat.lt_of_lt_of_le (hs.stored a r hp) h.nextInst
  · exact hS r (hno a r hn)

/-- An instruction that a step leaves alone with its label. -/
lemma Tended.steady (ht : Tended d K s a r l) (h : Steady Q S s t) (hr : r < s.machine.nextInst)
    (hne : (s.machine.insts r).opcode ≠ some .lui) (hq : r ∉ Q) : Tended d K t a r l where
  usedAt k u hu := ht.usedAt k u (h.label ▸ hu)
  place := by
    refine ht.place.imp (fun hw => ?_) (h.reached hr hne hq)
    rwa [Asm.Waiting, h.label]
  unresolved hw := by
    rw [h.label, h.lines]
    rw [Asm.Waiting, h.label] at hw
    exact ht.unresolved hw

lemma Site.not_lui (h : Site p s a r l) : (s.machine.insts r).opcode ≠ some .lui := by
  obtain ⟨op, hop, hne⟩ := h.opcode
  simp [hop, hne]

/-- A step that is free to change no instruction that was stored since, and tends the one that it
stores. -/
theorem Linkage.steady (hs : Linkage d p K s) (h : Steady Q S s t) (hS : ∀ r ∈ S, r < t.machine.nextInst)
    (hQ : ∀ r ∈ Q, ∀ a, ¬ p.Since s (.instStored a r))
    (new : ∀ {a r l}, r ∈ S → Site p t a r l → Tended d K t a r l) : Linkage d p K t := by
  refine hs.step h.extends hS (fun l => h.label ▸ hs.noGp l) (fun l u hu r hr => ?_)
    (fun hst => ?_) new
  · exact Nat.lt_of_lt_of_le (hs.uses l u (h.label ▸ hu) r hr) h.nextInst
  · exact (hs.sites hst).steady h (hst.lt hs) hst.not_lui fun hq => hQ _ hq _ hst.stored

/-- A step that stores no instruction. -/
theorem Linkage.still (hs : Linkage d p K s) (h : Steady Q ∅ s t)
    (hQ : ∀ r ∈ Q, ∀ a, ¬ p.Since s (.instStored a r)) : Linkage d p K t :=
  hs.steady h (fun _ hr => absurd hr (Set.notMem_empty _)) hQ fun hr => absurd hr (Set.notMem_empty _)

/-- A step that neither stores nor changes an instruction. -/
lemma Linkage.idle (hs : Linkage d p K s) (h : Steady ∅ ∅ s t) : Linkage d p K t :=
  hs.still h fun _ hr => absurd hr (Set.notMem_empty _)

/-! Changes of labels. -/

lemma extends_setLabel (s : Asm) (k : LabelRef) (x : Label) : Extends ∅ s (s.setLabel k x) :=
  ⟨Nat.le_refl _, fun _ _ => ⟨rfl, rfl⟩, Nat.le_refl _, [], rfl, by simp⟩

lemma carries_setLabel (s : Asm) {k : LabelRef} {x : Label} (hx : x.uses = (s.label k).uses) :
    Carries ∅ s (s.setLabel k x) :=
  { extends_setLabel s k x with
    lines := rfl
    uses := fun l _ _ => by
      by_cases hl : l = k
      · subst hl
        rw [label_setLabel, Function.update_self, hx]
      · rw [label_setLabel, Function.update_of_ne hl] }

/-- A change of a label that adds no use, where the label's instructions stay tended. -/
lemma Linkage.setLabel (hs : Linkage d p K s) {k : LabelRef} {x : Label} (hgp : x.gpFlag = false)
    (hx : ∀ u ∈ x.uses, u ∈ (s.label k).uses)
    (hk : ∀ {a r}, Site p s a r k → (⟨some r, a⟩ ∈ x.uses ∨
      x.addr ≠ 0 ∧ (s.machine.insts r).LinkedTo d a x.addr) ∧
        (⟨some r, a⟩ ∈ x.uses → x.addr = 0 ∨ k ∈ s.thisLineLabels ∨ k ∈ K'))
    (hK : ∀ l ∈ K, l = k ∨ l ∈ K') : Linkage d p K' (s.setLabel k x) := by
  have hself : (s.setLabel k x).label k = x := by
    rw [label_setLabel, Function.update_self]
  have hother {l : LabelRef} (hl : l ≠ k) : (s.setLabel k x).label l = s.label l := by
    rw [label_setLabel, Function.update_of_ne hl]
  have hmem {l : LabelRef} {u : LabelUse} (hu : u ∈ ((s.setLabel k x).label l).uses) :
      u ∈ (s.label l).uses := by
    by_cases hl : l = k
    · subst hl
      rw [hself] at hu
      exact hx u hu
    · rwa [hother hl] at hu
  refine hs.step (extends_setLabel s k x) (fun _ h => absurd h (Set.notMem_empty _)) (fun l => ?_)
    (fun l u hu r hr => hs.uses l u (hmem hu) r hr) (fun {a r l} hst => ?_)
    fun h => absurd h (Set.notMem_empty _)
  · by_cases hl : l = k
    · subst hl
      rw [hself]
      exact hgp
    · rw [hother hl]
      exact hs.noGp l
  · have ht := hs.sites hst
    refine ⟨fun k u hu => ht.usedAt k u (hmem hu), ?_, fun hw => ?_⟩
    · by_cases hl : l = k
      · subst hl
        rw [Asm.Waiting, Asm.Reached, hself]
        exact (hk hst).1
      · rw [Asm.Waiting, Asm.Reached, hother hl]
        exact ht.place
    · by_cases hl : l = k
      · subst hl
        rw [Asm.Waiting, hself] at hw
        rw [hself]
        exact (hk hst).2 hw
      · rw [hother hl]
        refine (ht.unresolved (hmem hw)).imp_right (Or.imp_right fun h => ?_)
        exact (hK l h).resolve_left hl

/-- A change of a flag. -/
lemma Linkage.setFlag (hs : Linkage d p K s) {k : LabelRef} {x : Label} (hgp : x.gpFlag = false)
    (hx : x.uses = (s.label k).uses) (ha : x.addr = (s.label k).addr) :
    Linkage d p K (s.setLabel k x) := by
  refine hs.setLabel hgp (fun u hu => hx ▸ hu) (fun hst => ?_) fun _ hl => Or.inr hl
  rw [hx, ha]
  exact ⟨(hs.sites hst).place, (hs.sites hst).unresolved⟩

/-- A label that has no address gets one. -/
lemma Linkage.define (hs : Linkage d p K s) {k : LabelRef} (hk : (s.label k).addr = 0) (b : Word) :
    Linkage d p (insert k K) (s.setLabel k { s.label k with addr := b }) := by
  refine hs.setLabel (hs.noGp k) (fun _ => id) (fun hst => ⟨?_, fun _ => ?_⟩)
    fun _ hl => Or.inr (Set.mem_insert_of_mem _ hl)
  · exact Or.inl ((hs.sites hst).place.resolve_right fun hr => hr.1 hk)
  · exact Or.inr (Or.inr (Set.mem_insert k K))

variable {env : Env}

/-- The uses of a label are resolved, or their loss is reported. -/
theorem Linkage.resolveLabelUses (hs : Linkage env.delayedBranches p K s) {k : LabelRef}
    (h : (resolveLabelUses env k).run s = .ok () t) (hloss : ¬ p.Loses t) :
    Linkage env.delayedBranches p (K \ {k}) t ∧ Carries {k} s t := by
  obtain ⟨_, _, ⟨⟩, h⟩ := ok_of_bind h
  obtain ⟨_, u, hu, h⟩ := ok_of_bind h
  cases h
  have hkeeps : Keeps (Spimulator.steady {r | ∃ v ∈ (s.label k).uses, v.instruction = some r} ∅)
      (resolveUses env k (s.label k).uses) :=
    keeps_resolveUses env k fun v hv r hr => ⟨v, hv, hr⟩
  have hk : Steady _ ∅ s u := hkeeps.ok hu
  have hreached {a r l} (hst : Site p s a r l)
      (h : (∃ v ∈ (s.label k).uses, v.instruction = some r) ∨
        s.Reached env.delayedBranches a r l) : u.Reached env.delayedBranches a r l := by
    obtain ⟨op, hop, hne⟩ := hst.opcode
    refine (resolveUses_linked hop hne hst.symbol (hst.lt hs) ?_ h hu).resolve_right fun hc => ?_
    · exact fun v hv hvr => ((hs.sites hst).usedAt k v hv hvr).1
    · obtain ⟨es, hes⟩ := hs.grown
      exact hloss (hc.earlier hes)
  have hlinks : Linkage env.delayedBranches p K u := by
    refine hs.step hk.extends (fun _ h => absurd h (Set.notMem_empty _)) (fun l => hk.label ▸ hs.noGp l)
      (fun l v hv r hr => ?_) (fun hst => ⟨fun j v hv => ?_, ?_, fun hw => ?_⟩)
      fun h => absurd h (Set.notMem_empty _)
    · exact Nat.lt_of_lt_of_le (hs.uses l v (hk.label ▸ hv) r hr) hk.nextInst
    · exact (hs.sites hst).usedAt j v (hk.label ▸ hv)
    · refine (hs.sites hst).place.imp (fun hw => ?_) fun hr => hreached hst (Or.inr hr)
      rwa [Asm.Waiting, hk.label]
    · rw [Asm.Waiting, hk.label] at hw
      rw [hk.label, hk.lines]
      exact (hs.sites hst).unresolved hw
  have hcarries : Carries {k} s (u.setLabel k { u.label k with uses := [] }) :=
    { hk.extends.trans (extends_setLabel u k _) with
      lines := hk.lines
      uses := fun l _ hl => by rw [label_setLabel, Function.update_of_ne hl, hk.label] }
  refine ⟨hlinks.setLabel (hlinks.noGp k) (fun _ hv => absurd hv List.not_mem_nil) (fun hst => ?_)
    (fun l hl => ?_), hcarries⟩
  · refine ⟨Or.inr ?_, fun hw => absurd hw List.not_mem_nil⟩
    have hst' := (hk.extends.site hs hst).resolve_right (Set.notMem_empty _)
    have hplace := (hs.sites hst').place
    refine hreached hst' (hplace.imp_left fun hw => ?_)
    exact ⟨_, hw, rfl⟩
  · by_cases hlk : l = k
    · exact Or.inl hlk
    · exact Or.inr ⟨hl, hlk⟩

/-! Storing an instruction. -/

lemma Inst.LinkedTo.encoded {i : Inst} {pc v : Word} (h : i.LinkedTo d pc v) :
    i.encoded.LinkedTo d pc v := by
  unfold Inst.encoded
  split
  · obtain ⟨op, e, hi⟩ := h
    exact ⟨op, e, hi.opcode, hi.expr, hi.relative, hi.target, hi.imm⟩
  · exact h

/-- An instruction is stored in text at the location counter, with its encoding. -/
lemma storeInstruction_site (hgrown : ∃ new, s.events = new ++ p.events)
    (hr : r < s.machine.nextInst) (hfree : ¬ p.Since s (.instStored a r))
    (h : (storeInstruction env r).run s = .ok () t) (hst : p.Since t (.instStored a r)) :
    s.dataDir = false ∧ s.textDir = true ∧ a = s.currentTextPc ∧
      t.machine.insts r = (s.machine.insts r).encoded := by
  obtain ⟨old, hold⟩ := hgrown
  obtain ⟨_, _, ⟨⟩, h⟩ := ok_of_bind h
  cases hd : s.dataDir with
  | true =>
    rw [if_pos hd] at h
    have hP := plainRel_steady ∅ ∅
    have hk : Steady ∅ ∅ s t := (hP.placing _ (hP.storeWord _ _ _)).ok h
    obtain ⟨new, hnew, hno⟩ := hk.events
    rcases hst.split hold hnew with hp | hn
    · exact absurd hp hfree
    · exact absurd (hno a r hn) (Set.notMem_empty r)
  | false =>
    rw [if_neg (by simp [hd])] at h
    cases ht : s.textDir with
    | true =>
      rw [if_pos ht] at h
      obtain ⟨-, -, hrec, e, hev, he⟩ := storeInText_record hr h
      have hnew : t.events = [_, e] ++ s.events := hev
      refine ⟨rfl, rfl, ?_, hrec⟩
      rcases hst.split hold hnew with hp | hn
      · exact absurd hp hfree
      · rcases he with rfl | rfl
        · simp at hn
          exact hn
        · simp at hn
    | false =>
      rw [if_neg (by simp [ht])] at h
      cases h
      exact absurd hst hfree

/-- An instruction that is tended, should it be stored now, is stored. -/
theorem Linkage.storeInstruction (hs : Linkage d p K s) (hr : r < s.machine.nextInst)
    (hfree : ∀ a, ¬ p.Since s (.instStored a r))
    (hsite : ∀ {l}, l < p.nextLabel → (∃ op, (s.machine.insts r).opcode = some op ∧ op ≠ .lui) →
      (s.machine.insts r).symbol = some l → s.dataDir = false →
        Tended d K s s.currentTextPc r l)
    (h : (storeInstruction env r).run s = .ok () t) : Linkage d p K t := by
  have hk : Steady {r} {r} s t := (keeps_storeInstruction env r).ok h
  have hstays := hk.insts r hr
  refine hs.steady hk ?_ ?_ fun {a q l} hq hst => ?_
  · rintro _ rfl
    exact Nat.lt_of_lt_of_le hr hk.nextInst
  · rintro _ rfl
    exact hfree
  · cases Set.mem_singleton_iff.mp hq
    obtain ⟨hd, -, rfl, hrec⟩ := storeInstruction_site hs.grown hr (hfree a) h hst.stored
    have ht := hsite hst.entered (hstays.opcode ▸ hst.opcode) (hstays.symbol ▸ hst.symbol) hd
    refine ⟨fun k u hu => ht.usedAt k u (hk.label ▸ hu), ?_, fun hw => ?_⟩
    · rw [Asm.Waiting, Asm.Reached, hk.label, hrec]
      exact ht.place.imp_right (And.imp_right Inst.LinkedTo.encoded)
    · rw [hk.label, hk.lines]
      rw [Asm.Waiting, hk.label] at hw
      exact ht.unresolved hw

/-! Instructions with an expression. -/

/-- The record was not stored in text since `p`, and no use of a label is its. -/
structure Fresh (p s : Asm) (r : InstRef) : Prop where
  lt : r < s.machine.nextInst
  free : ∀ a, ¬ p.Since s (.instStored a r)
  unused : ∀ k, ∀ u ∈ (s.label k).uses, u.instruction ≠ some r

lemma Fresh.steady (hf : Fresh p s r) (hs : Linkage d p K s) (h : Steady Q ∅ s t) : Fresh p t r where
  lt := Nat.lt_of_lt_of_le hf.lt h.nextInst
  free a hst := by
    obtain ⟨old, hold⟩ := hs.grown
    obtain ⟨new, hnew, hno⟩ := h.events
    rcases hst.split hold hnew with hp | hn
    · exact hf.free a hp
    · exact hno a r hn
  unused k u hu := hf.unused k u (h.label ▸ hu)

/-- A new record. -/
lemma Linkage.newInst (hs : Linkage d p K s) {i : Inst} (h : (newInst i).run s = .ok r t) :
    Linkage d p K t ∧ Fresh p t r ∧ t.machine.insts r = i ∧ t.currentTextPc = s.currentTextPc := by
  obtain ⟨_, _, ⟨⟩, h⟩ := ok_of_bind h
  cases h
  have hk : Steady ∅ ∅ s (s.setMachine (s.machine.allocInst i).2) :=
    Steady.machine s (.alloc s.machine i)
  refine ⟨hs.idle hk, ⟨Nat.lt_succ_self _, ?_, ?_⟩, ?_, rfl⟩
  · exact fun a hst => Nat.lt_irrefl _ (hs.stored a _ hst)
  · exact fun k u hu hur => Nat.lt_irrefl _ (hs.uses k u hu _ hur)
  · exact Function.update_self _ _ _

/-- An instruction without a symbol. -/
theorem Linkage.storeNew (hs : Linkage d p K s) {i : Inst} (hi : i.symbol = none)
    (h : (storeNew env i).run s = .ok () t) : Linkage d p K t := by
  obtain ⟨r, u, hu, h⟩ := ok_of_bind h
  obtain ⟨hu, hf, hrec, -⟩ := hs.newInst hu
  refine hu.storeInstruction hf.lt hf.free (fun _ _ hsym _ => ?_) h
  rw [hrec, hi] at hsym
  cases hsym

/-- A use is noted. -/
def Asm.withUse (s : Asm) (k : LabelRef) (u : LabelUse) : Asm :=
  s.setLabel k { s.label k with uses := u :: (s.label k).uses }

lemma label_withUse (s : Asm) (k l : LabelRef) (u : LabelUse) : (s.withUse k u).label l =
    { s.label l with uses := if l = k then u :: (s.label k).uses else (s.label l).uses } := by
  rw [Asm.withUse, label_setLabel]
  by_cases hl : l = k
  · subst hl
    rw [Function.update_self, if_pos rfl]
  · rw [Function.update_of_ne hl, if_neg hl]

lemma mem_withUse {k : LabelRef} {u v : LabelUse} :
    v ∈ ((s.withUse k u).label l).uses ↔ v ∈ (s.label l).uses ∨ v = u ∧ l = k := by
  rw [label_withUse]
  by_cases hl : l = k
  · subst hl
    simp [or_comm]
  · simp [hl]

/-- A use is noted whose record, if it has one, was not stored since. -/
lemma Linkage.addUse (hs : Linkage d p K s) {k : LabelRef} {v : LabelUse}
    (hv : ∀ q, v.instruction = some q →
      q < s.machine.nextInst ∧ ∀ a, ¬ p.Since s (.instStored a q)) :
    Linkage d p K (s.withUse k v) := by
  refine hs.step (extends_setLabel s k _) (fun _ h => absurd h (Set.notMem_empty _)) (fun l => ?_)
    (fun l u hu q hq => ?_) (fun {b q l} hst => ?_) fun h => absurd h (Set.notMem_empty _)
  · rw [label_withUse]
    exact hs.noGp l
  · rcases mem_withUse.mp hu with hu | ⟨rfl, -⟩
    · exact hs.uses l u hu q hq
    · exact (hv q hq).1
  · have ht := hs.sites hst
    have hold {l : LabelRef} {u : LabelUse} (hu : u ∈ ((s.withUse k v).label l).uses)
        (huq : u.instruction = some q) : u ∈ (s.label l).uses := by
      refine (mem_withUse.mp hu).resolve_right ?_
      rintro ⟨rfl, -⟩
      exact (hv q huq).2 b hst.stored
    refine ⟨fun j u hu huq => ht.usedAt j u (hold hu huq) huq, ht.place.imp (fun hw => ?_) fun hr => ?_,
      fun hw => ?_⟩
    · exact mem_withUse.mpr (Or.inl hw)
    · rw [Asm.Reached, label_withUse]
      exact hr
    · rw [label_withUse]
      exact ht.unresolved (hold hw rfl)

lemma Fresh.use (hf : Fresh p s r) {a : Word} : ∀ q, (⟨some r, a⟩ : LabelUse).instruction = some q →
    q < s.machine.nextInst ∧ ∀ a, ¬ p.Since s (.instStored a q) := by
  rintro _ ⟨⟩
  exact ⟨hf.lt, hf.free⟩

/-- Where the location counters are, and the segment. -/
def samePlace : Rel Asm := Rel.same fun s => (s.dataDir, s.currentTextPc)

lemma resolveRel_samePlace : ResolveRel samePlace where
  machine _ _ _ := rfl
  setInst _ _ _ _ := rfl
  report _ _ _ := rfl
  use _ _ _ := rfl

/-- An instruction is resolved and stored, or its use noted before it is stored. -/
theorem Linkage.storeExprInst (hs : Linkage env.delayedBranches p K s) {e : ImmExpr}
    (hf : Fresh p s r) (hsym : (s.machine.insts r).symbol = e.symbol)
    (h : (storeExprInst env r e).run s = .ok () t) (hloss : ¬ p.Loses t) :
    Linkage env.delayedBranches p K t := by
  have hresolve (sym : Option LabelRef) (h : (do
      resolveALabel env sym r
      Spimulator.storeInstruction env r : Assemble Unit).run s = .ok () t) :
      Linkage env.delayedBranches p K t := by
    obtain ⟨_, u, hu, h⟩ := ok_of_bind h
    rw [resolveALabel_run] at hu
    have hk : Steady {r} ∅ s u := (keeps_resolveALabelSub env _ r _).ok hu
    have hplace := (resolveRel_samePlace.resolveALabelSub env _ (some r) _).ok hu
    have hd : u.dataDir = s.dataDir := congrArg Prod.fst hplace
    have hpc : u.currentTextPc = s.currentTextPc := congrArg Prod.snd hplace
    have hlinks : Linkage env.delayedBranches p K u := by
      refine hs.still hk ?_
      rintro _ rfl
      exact hf.free
    have hfu := hf.steady hs hk
    have hstays := hk.insts r hf.lt
    refine hlinks.storeInstruction hfu.lt hfu.free (fun {l} _ hop hl hdu => ?_) h
    obtain ⟨op, hop, hne⟩ := hop
    rw [hstays.opcode] at hop
    rw [hstays.symbol] at hl
    rw [if_neg (by simp [← hd, hdu])] at hu
    refine ⟨fun k v hv hvr => absurd hvr (hfu.unused k v hv), Or.inr ?_,
      fun hw => absurd rfl (hfu.unused _ _ hw)⟩
    rw [hpc]
    refine (resolveALabelSub_linked hop hne hl hf.lt hu).resolve_right fun hc => hloss ?_
    have hstore : Steady {r} {r} u t := (keeps_storeInstruction env r).ok h
    obtain ⟨new, hnew, -⟩ := hstore.events
    obtain ⟨old, hold⟩ := hs.grown
    exact (hc.earlier hold).later hnew
  cases he : e.symbol with
  | none =>
    rw [storeExprInst_none he] at h
    exact hresolve none h
  | some l =>
    cases hdef : (s.label l).isDefined with
    | true =>
      rw [storeExprInst_defined he hdef] at h
      exact hresolve (some l) h
    | false =>
      rw [storeExprInst_undefined he hdef] at h
      have haddr : (s.label l).addr = 0 := by simpa [Label.isDefined] using hdef
      obtain ⟨_, u, hu, h⟩ := ok_of_bind h
      obtain ⟨_, _, ⟨⟩, hu⟩ := ok_of_bind hu
      cases hd : s.dataDir with
      | true =>
        -- the record that is noted is a copy, and nothing is stored in text
        rw [if_pos hd] at hu
        obtain ⟨q, s₁, h₁, hu⟩ := ok_of_bind hu
        obtain ⟨hs₁, hq, -, -⟩ := hs.newInst h₁
        have hk : Steady ∅ ∅ s s₁ := by
          obtain ⟨_, _, ⟨⟩, h₁⟩ := ok_of_bind h₁
          cases h₁
          exact Steady.machine s (.alloc s.machine _)
        have hf₁ := hf.steady hs hk
        have hdir : s₁.dataDir = true := by
          obtain ⟨_, _, ⟨⟩, h₁⟩ := ok_of_bind h₁
          cases h₁
          exact hd
        cases hu
        refine (hs₁.addUse (k := l) hq.use).storeInstruction hf₁.lt hf₁.free
          (fun _ _ _ hdu => ?_) h
        cases hdir.symm.trans hdu
      | false =>
        rw [if_neg (by simp [hd])] at hu
        cases hu
        refine (hs.addUse (k := l) hf.use).storeInstruction hf.lt hf.free
          (fun {k} _ _ hk _ => ⟨fun j v hv hvr => ?_, Or.inl ?_, fun _ => Or.inl ?_⟩) h
        · cases hk.symm.trans (hsym.trans he)
          rcases mem_withUse.mp hv with hv | ⟨rfl, rfl⟩
          · exact absurd hvr (hf.unused j v hv)
          · exact ⟨rfl, rfl⟩
        · cases hk.symm.trans (hsym.trans he)
          exact mem_withUse.mpr (Or.inr ⟨rfl, rfl⟩)
        · cases hk.symm.trans (hsym.trans he)
          rw [label_withUse]
          exact haddr

end

/-! The log. -/

def logGrows : Rel Asm where
  rel s t := ∃ new, t.events = new ++ s.events
  refl _ := ⟨[], rfl⟩
  trans := by
    rintro s t u ⟨new, hnew⟩ ⟨new', hnew'⟩
    exact ⟨new' ++ new, by rw [hnew', hnew, List.append_assoc]⟩

lemma labelRel_logGrows : LabelRel Set.univ Set.univ logGrows where
  machine _ _ _ := ⟨[], rfl⟩
  setInst _ _ _ _ := ⟨[], rfl⟩
  log _ _ _ := ⟨[_], rfl⟩
  use _ _ _ := ⟨[_], rfl⟩
  addUse _ _ _ _ _ := ⟨[], rfl⟩
  dataPc s v := by
    unfold Asm.setDataPc
    split <;> exact ⟨[], rfl⟩
  textPc s v := by
    unfold Asm.setTextPc
    split <;> exact ⟨[], rfl⟩
  labelDef _ _ _ _ := ⟨[_], rfl⟩
  newLabel _ _ _ := ⟨[], rfl⟩
  clearUses _ _ := ⟨[], rfl⟩
  define _ _ _ _ _ := ⟨[], rfl⟩
  linkLocal _ _ _ _ := ⟨[], rfl⟩
  declareGlobal _ _ _ := ⟨[], rfl⟩
  constant _ _ _ := ⟨[], rfl⟩
  pend _ _ _ := ⟨[], rfl⟩
  unpend _ _ _ _ _ := ⟨[], rfl⟩
  parseError _ _ _ := ⟨[_], rfl⟩
  move _ _ := ⟨[], rfl⟩
  flags _ _ _ _ _ _ _ := ⟨[], rfl⟩

/-- The log grows, and unless something is lost every instruction stays tended. -/
def linking (d : Bool) (p : Asm) (K : Set LabelRef) : Rel Asm where
  rel s t := logGrows.rel s t ∧ (Linkage d p K s → ¬ p.Loses t → Linkage d p K t)
  refl s := ⟨logGrows.refl s, fun h _ => h⟩
  trans := by
    rintro s t u ⟨hst, h⟩ ⟨⟨new, hnew⟩, h'⟩
    exact ⟨logGrows.trans hst ⟨new, hnew⟩, fun hs hu =>
      h' (h hs fun hl => hu (hl.later hnew)) hu⟩
  upTo _ _ := True
  upTo_refl _ := trivial

section

variable {env : Env} {d : Bool} {p : Asm} {K : Set LabelRef} {α : Type} {x : Assemble α}

/-- A computation of which more is known when it returns. -/
lemma keeps_linking (hg : Keeps logGrows x)
    (h : ∀ s a t, x.run s = .ok a t → Linkage d p K s → ¬ p.Loses t → Linkage d p K t) :
    Keeps (linking d p K) x :=
  fun s => KeepsFrom.of_ok (fun _ => trivial) fun a t ht => ⟨hg.ok ht, h s a t ht⟩

lemma linking_of_steady {s t : Asm} (h : Steady ∅ ∅ s t) : (linking d p K).rel s t := by
  obtain ⟨new, hnew, -⟩ := h.events
  exact ⟨⟨new, hnew⟩, fun hs _ => hs.idle h⟩

lemma fieldRel_linking : FieldRel (linking d p K) where
  machine s m h := linking_of_steady ((fieldRel_steady ∅ ∅).machine s m h)
  lui s r i h hi := linking_of_steady ((fieldRel_steady ∅ ∅).lui s r i h hi)
  report s r h := linking_of_steady ((fieldRel_steady ∅ ∅).report s r h)
  use s l h := linking_of_steady ((fieldRel_steady ∅ ∅).use s l h)

lemma plainRel_linking : PlainRel (linking d p K) where
  machine s m h := linking_of_steady ((plainRel_steady ∅ ∅).machine s m h)
  dataPc s v := linking_of_steady ((plainRel_steady ∅ ∅).dataPc s v)
  stored s a b := linking_of_steady ((plainRel_steady ∅ ∅).stored s a b)
  fired s e h := linking_of_steady ((plainRel_steady ∅ ∅).fired s e h)

/-! Instructions. -/

lemma instRel_logGrows (env : Env) : InstRel env logGrows := labelRel_logGrows.toStoreRel.toInstRel env

lemma keeps_storeNew {i : Inst} (hi : i.symbol = none) : Keeps (linking d p K) (storeNew env i) :=
  keeps_linking ((instRel_logGrows env).storeNew i) fun _ _ _ h hs _ => hs.storeNew hi h

lemma keeps_jTypeInst (op : Opcode) (target : ImmExpr) :
    Keeps (linking env.delayedBranches p K) (jTypeInst env op target) := by
  refine keeps_linking ((instRel_logGrows env).jTypeInst op target) fun s _ t h hs hloss => ?_
  obtain ⟨r, u, hu, h⟩ := ok_of_bind h
  obtain ⟨hu, hf, hrec, -⟩ := hs.newInst hu
  exact hu.storeExprInst hf (by rw [hrec]; rfl) h hloss

lemma keeps_iTypeInst (n : ℕ) (op : Opcode) (rt rs : Word) (e : ImmExpr) :
    Keeps (linking env.delayedBranches p K) (iTypeInst env n op rt rs e) := by
  induction n generalizing op rt rs e with
  | zero => exact Keeps.throw _
  | succ n ih =>
    refine keeps_linking ((instRel_logGrows env).iTypeInst _ op rt rs e) fun s _ t h hs hloss => ?_
    have hfull (v : Option Word) {u : Asm} (hu : Linkage env.delayedBranches p K u)
        (h : (iTypeInstFullWord env (iTypeInst env n) op rt rs e v).run u = .ok () t) :
        Linkage env.delayedBranches p K t :=
      ((InstRel.fullWord ih (fun _ _ _ _ => keeps_storeNew rfl) op rt rs e v).ok h).2 hu hloss
    obtain ⟨r, u, hu, h⟩ := ok_of_bind h
    obtain ⟨hu, hf, hrec, -⟩ := hs.newInst hu
    have hsym : (u.machine.insts r).symbol = e.symbol := by rw [hrec]; rfl
    obtain ⟨_, _, ⟨⟩, h⟩ := ok_of_bind h
    by_cases hdef : u.symbolDefined e = true
    · rw [if_pos hdef] at h
      obtain ⟨v, w, hw, h⟩ := ok_of_bind h
      have hk : Steady ∅ ∅ u w := ((fieldRel_steady ∅ ∅).evalImmExpr e).ok hw
      have hlinks := hu.idle hk
      by_cases hbig : ¬ env.bareMachine ∧ immTooLarge op e v
      · rw [if_pos hbig] at h
        exact hfull _ hlinks h
      · rw [if_neg hbig] at h
        refine hlinks.storeExprInst (hf.steady hu hk) ?_ h hloss
        rw [(hk.insts r hf.lt).symbol, hsym]
    · rw [if_neg hdef] at h
      by_cases hbare : env.bareMachine ∨ e.bits ≠ 0
      · rw [if_pos hbare] at h
        exact hu.storeExprInst hf hsym h hloss
      · rw [if_neg hbare] at h
        exact hfull _ hu h

theorem keeps_emitInst (i : InstNode) :
    Keeps (linking env.delayedBranches p K) (emitInst env i) := by
  cases i with
  | r op rd rs rt => exact keeps_storeNew rfl
  | rShift op rd rt shamt => exact keeps_storeNew rfl
  | i op rt rs imm => exact keeps_iTypeInst _ _ _ _ _
  | j op target => exact keeps_jTypeInst _ _
  | fpR op fd fs ft => exact keeps_storeNew rfl
  | fpCompare op fs ft cc =>
    refine keeps_storeNew ?_
    unfold makeRCondTypeInst
    dsimp only
    split <;> rfl

/-! Labels. -/

lemma Linkage.mono {K' : Set LabelRef} {s : Asm} (hs : Linkage d p K s) (hK : K ⊆ K') :
    Linkage d p K' s :=
  { hs with
    sites := fun hst => by
      obtain ⟨hu, hp, hw⟩ := hs.sites hst
      exact ⟨hu, hp, fun h => (hw h).imp_right (Or.imp_right fun hl => hK hl)⟩ }

lemma keeps_resolveLabelUses (k : LabelRef) :
    Keeps (linking env.delayedBranches p K) (resolveLabelUses env k) := by
  refine keeps_linking (labelRel_logGrows.toSymbolRel.resolveLabelUses env k) fun s _ t h hs hloss => ?_
  exact (hs.resolveLabelUses h hloss).1.mono Set.sdiff_subset

/-- A label without uses leaves the line. -/
lemma Linkage.unpend {s : Asm} (hs : Linkage d p K s) {k : LabelRef} {ks : List LabelRef}
    (hline : s.thisLineLabels = k :: ks) (hk : (s.label k).uses = []) :
    Linkage d p K { s with thisLineLabels := ks } :=
  { hs with
    sites := fun {a r l} hst => by
      obtain ⟨hu, hp, hw⟩ := hs.sites (⟨hst.stored, hst.entered, hst.opcode, hst.symbol⟩ :
        Site p s a r l)
      refine ⟨hu, hp, fun h => (hw h).imp_right (Or.imp_left fun hl => ?_)⟩
      rw [hline] at hl
      refine (List.mem_cons.mp hl).resolve_left ?_
      rintro rfl
      rw [Asm.Waiting] at h
      change _ ∈ (s.label l).uses at h
      rw [hk] at h
      cases h }

lemma keeps_clearLabelList (ks : List LabelRef) : ∀ s : Asm, s.thisLineLabels = ks →
    KeepsFrom (linking env.delayedBranches p K) (clearLabelList env ks) s := by
  induction ks with
  | nil => exact fun s _ => KeepsFrom.pure _
  | cons k ks ih =>
    intro s hs
    refine KeepsFrom.bind (keeps_resolveLabelUses k s) fun _ t ht => ?_
    have hline : t.thisLineLabels = k :: ks :=
      ((resolveLabelUses_thisLineLabels env k).ok ht).trans hs
    refine KeepsFrom.bind (KeepsFrom.modify (f := fun s : Asm => { s with thisLineLabels := ks })
      ⟨⟨[], rfl⟩, fun hl _ => hl.unpend hline (resolveLabelUses_uses ht)⟩) fun _ u hu => ?_
    cases hu
    exact ih _ rfl

lemma keeps_clearLabels : Keeps (linking env.delayedBranches p K) (clearLabels env) :=
  fun s => keeps_clearLabelList _ s rfl

/-- An entry for a new name. -/
lemma Linkage.newLabel {s : Asm} (hs : Linkage d p K s) (name : String) :
    Linkage d p K (s.newLabel name) := by
  have hext : Extends ∅ s (s.newLabel name) :=
    ⟨Nat.le_refl _, fun _ _ => ⟨rfl, rfl⟩, Nat.le_succ _, [], rfl, by simp⟩
  have huses {l : LabelRef} {u : LabelUse} (hu : u ∈ ((s.newLabel name).label l).uses) :
      u ∈ (s.label l).uses := by
    rw [Asm.label_newLabel] at hu
    split at hu
    · cases hu
    · exact hu
  refine hs.step hext (fun _ h => absurd h (Set.notMem_empty _)) (fun l => ?_)
    (fun l u hu => hs.uses l u (huses hu)) (fun {a r l} hst => ?_)
    fun h => absurd h (Set.notMem_empty _)
  · rw [Asm.label_newLabel]
    split
    · rfl
    · exact hs.noGp l
  · have hl : l ≠ s.nextLabel := Nat.ne_of_lt (Nat.lt_of_lt_of_le hst.entered hs.entries)
    have hlabel : (s.newLabel name).label l = s.label l := by
      rw [Asm.label_newLabel, if_neg hl]
    obtain ⟨hu, hp, hw⟩ := hs.sites hst
    refine ⟨fun k u hk => hu k u (huses hk), ?_, ?_⟩
    · rw [Asm.Waiting, Asm.Reached, hlabel]
      exact hp
    · rw [Asm.Waiting, hlabel]
      exact hw

lemma Linkage.lookupLabel {s t : Asm} (hs : Linkage d p K s) {name : String} {l : LabelRef}
    (h : (lookupLabel name).run s = .ok l t) : Linkage d p K t ∧ Carries ∅ s t := by
  rcases lookupLabel_run h with ⟨-, rfl⟩ | ⟨-, -, rfl⟩
  · exact ⟨hs, (Steady.refl ∅ ∅ t).carries⟩
  · refine ⟨hs.newLabel name, ⟨Nat.le_refl _, fun _ _ => ⟨rfl, rfl⟩, Nat.le_succ _, [], rfl, by simp⟩,
      rfl, fun l hl _ => ?_⟩
    rw [Asm.label_newLabel, if_neg (Nat.ne_of_lt hl)]

lemma keeps_lookupLabel (name : String) : Keeps (linking d p K) (lookupLabel name) :=
  keeps_linking (labelRel_logGrows.toSymbolRel.lookupLabel name) fun _ _ _ h hs _ =>
    (hs.lookupLabel h).1

lemma keeps_makeLabelGlobal (name : String) : Keeps (linking d p K) (makeLabelGlobal name) := by
  refine Keeps.bind (keeps_lookupLabel name) fun l => Keeps.bind (Keeps.modify fun s => ?_) fun _ =>
    Keeps.pure _
  exact ⟨⟨[], rfl⟩, fun hs _ => hs.setFlag (hs.noGp l) rfl rfl⟩

/-- The definition of a label. -/
theorem Linkage.recordEntry {s t : Asm} (hs : Linkage env.delayedBranches p ∅ s) {k : LabelRef}
    {name : String} {a : Word} {resolve : Bool}
    (h : (recordEntry env k name a resolve).run s = .ok () t) (hloss : ¬ p.Loses t) :
    (s.label k).addr = 0 ∧ Linkage env.delayedBranches p (if resolve then ∅ else {k}) t ∧
      Carries (if resolve then {k} else ∅) s t := by
  obtain ⟨old, hold⟩ := hs.grown
  have hgp := hs.noGp k
  change (if (s.label k).gpFlag = false ∧ (s.label k).addr ≠ 0 then _ else _ :
    Assemble Unit).run s = _ at h
  by_cases hk : (s.label k).addr = 0
  · rw [if_neg (by simp [hk])] at h
    obtain ⟨_, s₁, h₁, h⟩ := ok_of_bind h
    have hs₁ : s₁ = s.setLabel k { s.label k with addr := a } := by
      cases h₁
      exact if_neg (by simp [hgp])
    obtain ⟨_, s₂, h₂, h⟩ := ok_of_bind h
    obtain ⟨_, u, hu, h⟩ := ok_of_bind h
    have hs₂ : s₂ = s₁.log (.fired (.labelDef a k (s₁.label k).globalFlag)) := by
      cases h₂
      rfl
    have hut : t.events = [] ++ u.events ∧ Steady ∅ ∅ u t := by
      cases h
      dsimp only
      split
      · exact ⟨rfl, .refl _ _ u⟩
      · exact ⟨rfl, .still rfl rfl rfl (Nat.le_refl _) (fun _ _ => rfl) rfl⟩
    have hlossu : ¬ p.Loses u := fun hl => hloss (hl.later hut.1)
    have hdef : Linkage env.delayedBranches p {k} s₂ := by
      rw [hs₂, hs₁]
      have hl := (hs.define hk a).idle (Steady.log _
        (e := .fired (.labelDef a k (s₁.label k).globalFlag)) (by simp))
      rw [insert_empty_eq] at hl
      rw [hs₁] at hl
      exact hl
    have hset : Carries ∅ s s₁ := by
      rw [hs₁]
      exact carries_setLabel s rfl
    have hcarry : Carries ∅ s s₂ := by
      rw [hs₂]
      exact hset.trans (Steady.log (Q := ∅) s₁ (by simp)).carries
    cases resolve with
    | true =>
      rw [onlyIf_pos rfl] at hu
      obtain ⟨hlinks, hk'⟩ := hdef.resolveLabelUses hu hlossu
      refine ⟨hk, (hlinks.mono ?_).idle hut.2, ?_⟩
      · rintro l ⟨hl, hne⟩
        exact absurd hl hne
      · have hempty : ∅ ⊆ ({k} : Set LabelRef) := Set.empty_subset _
        exact ((hcarry.mono hempty).trans hk').trans (hut.2.carries.mono hempty)
    | false =>
      rw [onlyIf_neg (by decide)] at hu
      cases hu
      exact ⟨hk, hdef.idle hut.2, hcarry.trans hut.2.carries⟩
  · rw [if_pos ⟨hgp, hk⟩] at h
    cases h
    refine absurd ⟨.report (.duplicateLabel name), rfl, [_] ++ old, ?_, List.mem_cons_self⟩ hloss
    change _ :: s.events = _
    rw [hold]
    rfl

/-- A label whose uses are resolved when it is recorded. -/
lemma keeps_recordLabel (name : String) (a : Word) :
    Keeps (linking env.delayedBranches p ∅) (recordLabel env name a true) := by
  have hgrows : Keeps logGrows (recordLabel env name a true) :=
    labelRel_logGrows.toSymbolRel.recordLabel env trivial a true
  refine keeps_linking hgrows fun s l t h hs hloss => ?_
  obtain ⟨k, u, hu, h⟩ := ok_of_bind h
  obtain ⟨_, w, hw, h⟩ := ok_of_bind h
  cases h
  exact ((hs.lookupLabel hu).1.recordEntry hw hloss).2.1

/-! Statements that leave no label on the line. -/

lemma keeps_emitDataExpr (tbl : AOpcodeTbl) (kind : DataIntKind) (e : ImmExpr) :
    Keeps (linking d p K) (emitDataExpr tbl kind e) := by
  have hstore := plainRel_linking.storeDataInt (R := linking d p K) tbl kind
  have hvalue := Keeps.bind (fieldRel_linking.evalImmExpr e) hstore
  refine Keeps.get_bind fun s => ?_
  cases e.symbol with
  | none => exact hvalue s
  | some l =>
    refine KeepsFrom.ite (fun _ => hvalue s) fun _ => ?_
    have huse : (linking d p K).rel s
        (s.withUse l { instruction := none, addr := s.currentDataPc }) :=
      ⟨⟨[], rfl⟩, fun hs _ => hs.addUse fun _ h => by cases h⟩
    exact KeepsFrom.bind huse fun _ t _ => hstore _ t

lemma keeps_emitDataIntNode (tbl : AOpcodeTbl) (kind : DataIntKind) (es : List ImmExpr) :
    Keeps (linking d p K) (emitDataIntNode tbl kind es) := by
  induction es with
  | nil => exact Keeps.pure _
  | cons e es ih => exact Keeps.bind (keeps_emitDataExpr _ _ _) fun _ => ih

lemma keeps_emitReserve (name : String) (size : Word) :
    Keeps (linking env.delayedBranches p ∅) (emitReserve env name size) := by
  refine Keeps.bind (keeps_lookupLabel name) fun l => Keeps.get_bind fun s => ?_
  refine Keeps.bind (Keeps.onlyIf ?_) (fun _ => plainRel_linking.incrementDataPc _) s
  exact Keeps.bind (keeps_recordLabel name _) fun _ => Keeps.pure _

lemma keeps_emitChildren (cs : List InstNode) :
    Keeps (linking env.delayedBranches p K) (emitChildren env cs) := by
  induction cs with
  | nil => exact Keeps.pure _
  | cons c cs ih => exact Keeps.bind (keeps_emitInst c) fun _ => Keeps.bind keeps_clearLabels fun _ => ih

lemma steady_emitDirSeg (kind : DirSegKind) (a : Option Word) (s : Asm) :
    Steady ∅ ∅ s (emitDirSeg kind a s) :=
  rel_emitDirSeg (R := steady ∅ ∅)
    (fun _ _ _ _ _ _ _ => .still rfl rfl rfl (Nat.le_refl _) (fun _ _ => rfl) rfl)
    Steady.dataPc Steady.textPc s kind a

theorem keeps_emitPlaced {n : AstNode} (h : n.keepsLabels = false) :
    Keeps (linking env.delayedBranches p ∅) (emitPlaced env n) := by
  have hP := plainRel_linking (d := env.delayedBranches) (p := p) (K := ∅)
  cases n with
  | inst i => exact keeps_emitInst i
  | pseudo cs => exact keeps_emitChildren cs
  | dataInt kind es => exact keeps_emitDataIntNode _ kind es
  | dataFp kind vs => exact keeps_emitDataFpNode (hP.storeDataFp env kind) vs
  | dataString bytes nul =>
    exact Keeps.get_bind fun s => Keeps.onlyIf (hP.placing _ (hP.storeString _ _ _ _)) s
  | dirSeg kind a => exact Keeps.modify fun s => linking_of_steady (steady_emitDirSeg kind a s)
  | dirAlign v => exact Keeps.pure _
  | dirSpace size => exact hP.incrementDataPc _
  | dirExtern name size =>
    exact Keeps.bind (keeps_makeLabelGlobal name) fun _ => keeps_emitReserve name size
  | dirComm name size => exact keeps_emitReserve name size
  | dirGlobl | labelNormal | labelConst => cases h

end

end Spimulator
