import Spimulator.Library.Alignment
import Spimulator.Loading

/-! What parsing changes outside of the parser. The data directives align the data location
counter while they are parsed, and align it again when they are emitted. -/
namespace Spimulator
open Frame

/-- The data location counter of the segment in use, rounded up as set_data_alignment does. -/
def Location.align (l : Location) (k : ℕ) : Location :=
  if l.enableDataAutoAlignment then
    if l.dataInKernel then { l with nextKDataPc := Alignment.roundUp k l.nextKDataPc }
    else { l with nextDataPc := Alignment.roundUp k l.nextDataPc }
  else l

/-- The alignments asked for while parsing in a data section, newest first. -/
def Asm.parseAlignments (s : Asm) : List ℕ :=
  s.events.filterMap fun
    | .parseAligned k => some k
    | _ => none

/-- No label is pending; the machine, the labels there were, the local labels and the location
counters are as before, except that the counter was aligned. -/
structure ParseFrame (s t : Asm) : Prop where
  pending : t.thisLineLabels = []
  machine : { t.machine with labels := s.machine.labels } = s.machine
  nextLabel : s.nextLabel ≤ t.nextLabel
  labels : ∀ l < s.nextLabel, (t.label l).addr = (s.label l).addr
  localLabels : t.localLabels = s.localLabels
  location : ∃ ks : List ℕ, (∀ k ∈ ks, k < 32) ∧
    t.parseAlignments = ks.reverse ++ s.parseAlignments ∧
      t.toLocation = ks.foldl Location.align s.toLocation

namespace ParseFrame

lemma of_same {s t : Asm} (hs : s.thisLineLabels = []) (hp : t.thisLineLabels = s.thisLineLabels)
    (hm : t.machine = s.machine) (hn : t.nextLabel = s.nextLabel)
    (hll : t.localLabels = s.localLabels) (ha : t.parseAlignments = s.parseAlignments) (hl : t.toLocation = s.toLocation) :
    ParseFrame s t where
  pending := hp.trans hs
  machine := by rw [hm]
  nextLabel := Nat.le_of_eq hn.symm
  labels l _ := by rw [Asm.label, hm, Asm.label]
  localLabels := hll
  location := ⟨[], by simp, ha, hl⟩

lemma trans {s t u : Asm} (h : ParseFrame s t) (h' : ParseFrame t u) : ParseFrame s u where
  pending := h'.pending
  machine := by
    have hm := congrArg (fun m : Machine => { m with labels := s.machine.labels }) h'.machine
    exact hm.trans h.machine
  nextLabel := Nat.le_trans h.nextLabel h'.nextLabel
  labels l hl := (h'.labels l (Nat.lt_of_lt_of_le hl h.nextLabel)).trans (h.labels l hl)
  localLabels := h'.localLabels.trans h.localLabels
  location := by
    obtain ⟨ks, hks, ha, hl⟩ := h.location
    obtain ⟨ks', hks', ha', hl'⟩ := h'.location
    refine ⟨ks ++ ks', ?_, ?_, ?_⟩
    · intro k hk
      rcases List.mem_append.mp hk with hk | hk
      · exact hks k hk
      · exact hks' k hk
    · rw [ha', ha, List.reverse_append, List.append_assoc]
    · rw [hl', hl, List.foldl_append]

end ParseFrame

def parseFrame : Rel Asm where
  rel s t := s.thisLineLabels = [] → ParseFrame s t
  refl _ hs := .of_same hs rfl rfl rfl rfl rfl rfl
  trans h h' hs := (h hs).trans (h' (h hs).pending)

lemma parseAlignments_log (s : Asm) {e : AsmEvent} (h : ∀ k, e ≠ .parseAligned k) :
    (s.log e).parseAlignments = s.parseAlignments := by
  cases e with
  | parseAligned k => exact absurd rfl (h k)
  | stored | instStored | used | emitted | report | fired => rfl

lemma alignUp_ofNat {k : ℕ} (hk : k < 32) (pc : Word) :
    alignUp (BitVec.ofNat 32 k) pc = Alignment.roundUp k pc := by
  have hsh : (BitVec.ofNat 32 k).toNat % 32 = k := by
    rw [BitVec.toNat_ofNat]
    omega
  unfold alignUp
  rw [hsh]
  rfl

lemma ofNat_ne_zero {k : ℕ} (h₀ : 0 < k) (h₁ : k < 32) : BitVec.ofNat 32 k ≠ 0 := by
  intro h
  have hk := congrArg BitVec.toNat h
  rw [BitVec.toNat_ofNat, Nat.mod_eq_of_lt (by omega)] at hk
  exact Nat.ne_of_gt h₀ hk

lemma fixCurrentLabelAddress_of_nil {s : Asm} (hs : s.thisLineLabels = []) (a : Word) :
    s.fixCurrentLabelAddress a = s := by
  simp [Asm.fixCurrentLabelAddress, Asm.setMachine, hs]

/-- Without pending labels, set_data_alignment moves the location counter and nothing else. -/
lemma setDataAlignment_of_nil {s : Asm} (hs : s.thisLineLabels = []) {k : ℕ} (h₀ : 0 < k)
    (h₁ : k < 32) :
    s.setDataAlignment (BitVec.ofNat 32 k) = { s with toLocation := s.toLocation.align k } := by
  unfold Asm.setDataAlignment Location.align
  by_cases he : s.enableDataAutoAlignment = true
  · rw [if_pos he, if_pos he, Asm.alignData, if_neg (ofNat_ne_zero h₀ h₁), alignUp_ofNat h₁]
    cases hk : s.dataInKernel with
    | true =>
      simp only [Asm.setDataPc, Asm.currentDataPc, hk, if_true]
      refine fixCurrentLabelAddress_of_nil ?_ _
      exact hs
    | false =>
      simp only [Asm.setDataPc, Asm.currentDataPc, hk, Bool.false_eq_true, if_false]
      refine fixCurrentLabelAddress_of_nil ?_ _
      exact hs
  · rw [if_neg he, if_neg he]

/-- A data directive aligns the location counter. -/
lemma parseFrame_aligned (s : Asm) {k : ℕ} (h₀ : 0 < k) (h₁ : k < 32) :
    parseFrame.rel s (s.parseAligned k) := by
  intro hs
  cases hd : s.dataDir with
  | false =>
    have hrun : s.parseAligned k = s := by
      simp [Asm.parseAligned, Asm.alignDirective, Asm.alignLabelsTo, hd]
    rw [hrun]
    exact parseFrame.refl s hs
  | true =>
    have hlog : (s.log (.parseAligned k)).thisLineLabels = [] := hs
    have hrun : s.parseAligned k =
        { s.log (.parseAligned k) with toLocation := s.toLocation.align k } := by
      rw [Asm.parseAligned, hd, if_pos rfl, Asm.alignDirective, Asm.alignLabelsTo,
        if_pos (Or.inr (Or.inr hlog))]
      change (if s.dataDir = true then _ else _) = _
      rw [if_pos hd, setDataAlignment_of_nil hlog h₀ h₁]
      rfl
    rw [hrun]
    exact
      { pending := hs
        machine := rfl
        nextLabel := Nat.le_refl _
        labels := fun _ _ => rfl
        localLabels := rfl
        location := ⟨[k], by simpa using h₁, rfl, rfl⟩ }

theorem parseRel_parseFrame : ParseRel parseFrame where
  scan _ _ _ _ hs := .of_same hs rfl rfl rfl rfl rfl rfl
  unresolved _ _ hs := .of_same hs rfl rfl rfl rfl rfl rfl
  pseudo _ _ hs := .of_same hs rfl rfl rfl rfl rfl rfl
  append _ _ _ hs := .of_same hs rfl rfl rfl rfl rfl rfl
  seg _ kind _ hs := by cases kind <;> exact .of_same hs rfl rfl rfl rfl rfl rfl
  noAlign _ hs := .of_same hs rfl rfl rfl rfl rfl rfl
  nullTerm _ _ hs := .of_same hs rfl rfl rfl rfl rfl rfl
  newLine _ hs := .of_same hs rfl rfl rfl rfl rfl rfl
  newLabel s name _ hs :=
    { pending := hs
      machine := rfl
      nextLabel := Nat.le_succ _
      labels := fun l hl => by
        have hne : l ≠ s.nextLabel := Nat.ne_of_lt hl
        change (Function.update s.machine.labels s.nextLabel { name := name } l).addr = _
        rw [Function.update_of_ne hne, Asm.label]
      localLabels := rfl
      location := ⟨[], by simp, rfl, rfl⟩ }
  use _ _ _ hs := .of_same hs rfl rfl rfl rfl rfl rfl
  report _ _ _ hs := .of_same hs rfl rfl rfl rfl rfl rfl
  parseError _ _ hs := .of_same hs rfl rfl rfl rfl rfl rfl
  aligned s k h₀ h₁ := parseFrame_aligned s h₀ (by omega)
  clear env s := by
    rw [KeepsFrom]
    by_cases hs : s.thisLineLabels = []
    · have hrun : (clearLabels env).run s = .ok () s := by
        change (clearLabelList env s.thisLineLabels).run s = _
        rw [hs]
        rfl
      rw [hrun]
      exact parseFrame.refl s
    · cases (clearLabels env).run s with
      | ok a t => exact fun h => absurd h hs
      | error e t => exact parseFrame.toFailed fun h => absurd h hs

/-! What is unchanged. -/

/-- Memory, registers and segment bounds, the location counters with their flags, and the
addresses of the labels are as they were. -/
structure Unchanged (s t : Asm) : Prop where
  machine : { t.machine with labels := s.machine.labels } = s.machine
  location : t.toLocation = s.toLocation
  labels : ∀ l < s.nextLabel, (t.label l).addr = (s.label l).addr

/-- The alignments asked for while `t` was reached from `s`, newest first. -/
def newAlignments (s t : Asm) : List ℕ :=
  t.parseAlignments.take (t.parseAlignments.length - s.parseAlignments.length)

lemma foldl_align_disabled {l : Location} (he : l.enableDataAutoAlignment = false)
    (ks : List ℕ) : ks.foldl Location.align l = l := by
  induction ks with
  | nil => rfl
  | cons k ks ih =>
    have hk : l.align k = l := by simp [Location.align, he]
    rw [List.foldl_cons, hk, ih]

lemma foldl_align_kernel {l : Location} (he : l.enableDataAutoAlignment = true)
    (hk : l.dataInKernel = true) (ks : List ℕ) : ks.foldl Location.align l =
      { l with nextKDataPc := ks.foldl (fun y k => Alignment.roundUp k y) l.nextKDataPc } := by
  induction ks generalizing l with
  | nil => rfl
  | cons k ks ih =>
    rw [List.foldl_cons, List.foldl_cons, Location.align, if_pos he, if_pos hk]
    exact ih he hk

lemma foldl_align_user {l : Location} (he : l.enableDataAutoAlignment = true)
    (hk : l.dataInKernel = false) (ks : List ℕ) : ks.foldl Location.align l =
      { l with nextDataPc := ks.foldl (fun y k => Alignment.roundUp k y) l.nextDataPc } := by
  induction ks generalizing l with
  | nil => rfl
  | cons k ks ih =>
    rw [List.foldl_cons, List.foldl_cons, Location.align, if_pos he, if_neg (by simp [hk])]
    exact ih he hk

/-- The counters come back to where they were only if every alignment found them aligned. -/
lemma foldl_align_eq_self_iff (s : Asm) {ks : List ℕ} (hks : ∀ k ∈ ks, k < 32) :
    ks.foldl Location.align s.toLocation = s.toLocation ↔
      s.enableDataAutoAlignment = false ∨ ∀ k ∈ ks, 2^k ∣ s.currentDataPc.toNat := by
  cases he : s.enableDataAutoAlignment with
  | false =>
    rw [foldl_align_disabled he]
    simp
  | true =>
    have hround := Alignment.foldl_roundUp_eq_self_iff hks s.currentDataPc
    rw [← hround, Asm.currentDataPc]
    cases hk : s.dataInKernel with
    | true =>
      rw [foldl_align_kernel he hk]
      constructor
      · exact fun h => Or.inr (congrArg Location.nextKDataPc h)
      · rintro (h | h)
        · cases h
        · simp only [if_true] at h
          rw [h]
    | false =>
      rw [foldl_align_user he hk]
      constructor
      · exact fun h => Or.inr (congrArg Location.nextDataPc h)
      · rintro (h | h)
        · cases h
        · simp only [Bool.false_eq_true, if_false] at h
          rw [h]

lemma ParseFrame.unchanged_iff {s t : Asm} (h : ParseFrame s t) :
    Unchanged s t ↔
      s.enableDataAutoAlignment = false ∨ ∀ k ∈ newAlignments s t, 2^k ∣ s.currentDataPc.toNat := by
  obtain ⟨ks, hks, ha, hl⟩ := h.location
  have hnew : newAlignments s t = ks.reverse := by
    rw [newAlignments, ha, List.length_append, Nat.add_sub_cancel, List.take_left]
  have hloc : Unchanged s t ↔ t.toLocation = s.toLocation :=
    ⟨Unchanged.location, fun hl => ⟨h.machine, hl, h.labels⟩⟩
  rw [hloc, hl, foldl_align_eq_self_iff s hks, hnew]
  simp

/-- A byte of data is loaded. -/
def oneByte : List SessionCall :=
  [.parserInit [.ident ".data" (some (.dir .data)), .nl,
      .ident ".byte" (some (.dir .byte)), .int 7, .nl],
    .parseFile { Env.quiet with },
    .endFile]

/-- A word in the data segment. -/
def wordSource : List Lexeme :=
  [.ident ".data" (some (.dir .data)), .nl, .ident ".word" (some (.dir .word)), .int 1, .nl]

end Spimulator
