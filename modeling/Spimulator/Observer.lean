import Spimulator.DataInText
import Spimulator.Jumps
import Spimulator.Redefinition

/-! What an observer of the assembler is told, against what is emitted. Floating-point values of
single precision are never told, and a label is told before an alignment moves it. -/
namespace Spimulator
open Frame

/-! Events. -/

/-- The datum that an event is about: its address and its bytes. -/
def Observed.datum : Observed → Option (Word × List Byte)
  | .dataInt kind addr value => some (addr, Data.leBytes value kind.bytes)
  | .dataDouble addr value => some (addr, Data.leBytes value 8)
  | .dataString addr bytes nullTerm => some (addr, bytes ++ if nullTerm then [0] else [])
  | _ => none

namespace Asm

/-- The data that the observer was told of, newest first. -/
def reportedData (s : Asm) : List (Word × List Byte) :=
  s.events.filterMap fun
    | .fired e => e.datum
    | _ => none

/-- The addresses of the instructions in text that the observer was told of, newest first. -/
def reportedInsts (s : Asm) : List Word :=
  s.events.filterMap fun
    | .fired (.textInst addr _) => some addr
    | _ => none

/-- The addresses at which instructions were stored in text, or were refused with a message,
newest first. -/
def emittedInsts (s : Asm) : List Word :=
  s.events.filterMap fun
    | .instStored addr _ => some addr
    | .report (.invalidInstAddress addr) => some addr
    | _ => none

/-- The addresses and entries of the labels that the observer was told of, newest first. -/
def reportedLabels (s : Asm) : List (Word × LabelRef) :=
  s.events.filterMap fun
    | .fired (.labelDef addr l _) => some (addr, l)
    | _ => none

/-- What is placed and told of data and of instructions in text. -/
def tally (s : Asm) : (List (Word × List Byte) × List (Word × List Byte)) × List Word × List Word :=
  ((s.placed, s.reportedData), s.emittedInsts, s.reportedInsts)

end Asm

/-- The observer was told of every datum and of every instruction in text once, in order. -/
structure Told (s : Asm) : Prop where
  data : s.reportedData = s.placed
  insts : s.reportedInsts = s.emittedInsts

lemma tally_eq_iff {s t : Asm} : t.tally = s.tally ↔ t.placed = s.placed ∧
    t.reportedData = s.reportedData ∧ t.emittedInsts = s.emittedInsts ∧
      t.reportedInsts = s.reportedInsts := by
  simp only [Asm.tally, Prod.mk.injEq, and_assoc]

lemma Told.of_tally {s t : Asm} (hs : Told s) (h : t.tally = s.tally) : Told t := by
  obtain ⟨hp, hd, he, hr⟩ := tally_eq_iff.mp h
  exact ⟨hd.trans (hs.data.trans hp.symm), hr.trans (hs.insts.trans he.symm)⟩

lemma tally_of_events {s t : Asm} (h : t.events = s.events) : t.tally = s.tally := by
  unfold Asm.tally Asm.placed Asm.reportedData Asm.emittedInsts Asm.reportedInsts
  rw [h]

/-! What stores nothing. -/

/-- Nothing is placed, and nothing told of data or instructions. -/
def sameTally : Rel Asm := Rel.same Asm.tally

lemma events_setDataPc (s : Asm) (v : Word) : (s.setDataPc v).events = s.events := by
  unfold Asm.setDataPc
  split <;> rfl

lemma events_setTextPc (s : Asm) (v : Word) : (s.setTextPc v).events = s.events := by
  unfold Asm.setTextPc
  split <;> rfl

lemma tally_note (s : Asm) {r : Report} (h : r.isNote = true) :
    (s.log (.report r)).tally = s.tally := by
  cases r <;> first | rfl | cases h

lemma Report.isNote_of_ofResolving {r : Report} (h : r.ofResolving = true) : r.isNote = true := by
  cases r <;> first | rfl | cases h

theorem symbolRel_sameTally : SymbolRel Set.univ Set.univ sameTally where
  machine _ _ _ := rfl
  setInst _ _ _ _ := rfl
  report s _ h := tally_note s (Report.isNote_of_ofResolving h)
  use _ _ _ := rfl
  labelDef _ _ _ _ := rfl
  newLabel _ _ _ := rfl
  clearUses _ _ := rfl
  define _ _ _ _ _ := rfl
  linkLocal _ _ _ _ := rfl
  declareGlobal _ _ _ := rfl
  constant _ _ _ := rfl
  pend _ _ _ := rfl
  unpend _ _ _ _ _ := rfl
  parseError _ r h := by
    cases r <;> first | rfl | cases h

theorem counterRel_sameTally : CounterRel sameTally :=
  { symbolRel_sameTally.toResolveRel with
    dataPc := fun s v => tally_of_events (events_setDataPc s v) }

/-! The stores of data. Those that a store makes of its parts tell nothing. -/

section

variable {R : Rel Asm} {store : Assemble Unit}

/-- A run of the store leads as the relation allows to where the event is told, with
data_store_depth at 0. -/
def Fires (R : Rel Asm) (depth : ℕ) (mk : Asm → Observed) (store : Assemble Unit) : Prop :=
  ∀ s t, store.run s = .ok () t → ∃ u, R.rel s u ∧
    t = if depth = 0 then u.log (.fired (mk s)) else u

lemma fires_of_body (mk : Asm → Observed) (depth : ℕ) {body : Asm → Assemble Unit}
    (h : ∀ s, Keeps R (body s)) : Fires R depth mk
      (get >>= fun s => body s >>= fun _ => onlyIf (depth = 0) (fire (mk s))) := by
  intro s t ht
  obtain ⟨_, _, ⟨⟩, ht⟩ := ok_of_bind ht
  obtain ⟨_, u, hu, ht⟩ := ok_of_bind ht
  refine ⟨u, (h s).ok hu, ?_⟩
  by_cases hd : depth = 0
  · rw [onlyIf_pos hd] at ht
    rw [if_pos hd]
    cases ht
    rfl
  · rw [onlyIf_neg hd] at ht
    rw [if_neg hd]
    cases ht
    rfl

lemma Fires.inner {depth : ℕ} {mk : Asm → Observed} (h : Fires R (depth + 1) mk store) : Keeps R.returning store :=
  fun s => KeepsFrom.of_ok (fun _ => trivial) fun _ t ht => by
    obtain ⟨u, hu, rfl⟩ := h s t ht
    exact hu

variable (hR : CounterRel R.returning) (tbl : AOpcodeTbl) (depth : ℕ)

include hR

lemma fires_storeByte (v : Word) :
    Fires R.returning depth (fun s => .dataInt .byte s.currentDataPc v)
      (Data.storeByte tbl depth v) := by
  have h := fires_of_body (fun s => .dataInt .byte s.currentDataPc v) depth fun s =>
    Keeps.bind (hR.memWrite tbl .byte s.currentDataPc v) fun _ => hR.incrementDataPc 1
  simp only [bind_assoc] at h
  exact h

lemma fires_storeHalf (v : Word) :
    Fires R.returning depth (fun s => .dataInt .half s.currentDataPc v)
      (Data.storeHalf tbl depth v) := by
  refine fires_of_body _ depth fun s => Keeps.ite (fun _ => ?_) fun _ => ?_
  · exact Keeps.bind (fires_storeByte hR tbl _ _).inner fun _ => (fires_storeByte hR tbl _ _).inner
  · exact Keeps.bind (hR.memWrite _ _ _ _) fun _ => hR.incrementDataPc _

lemma fires_storeWord (v : Word) :
    Fires R.returning depth (fun s => .dataInt .word s.currentDataPc v)
      (Data.storeWord tbl depth v) := by
  refine fires_of_body _ depth fun s => Keeps.ite (fun _ => ?_) fun _ => ?_
  · exact Keeps.bind (fires_storeHalf hR tbl _ _).inner fun _ => (fires_storeHalf hR tbl _ _).inner
  · exact Keeps.bind (hR.memWrite _ _ _ _) fun _ => hR.incrementDataPc _

lemma fires_storeDouble (v : BitVec 64) :
    Fires R.returning depth (fun s => .dataDouble s.currentDataPc v)
      (Data.storeDouble tbl depth v) := by
  refine fires_of_body _ depth fun s => Keeps.ite (fun _ => ?_) fun _ => ?_
  · exact Keeps.bind (fires_storeWord hR tbl _ _).inner fun _ => (fires_storeWord hR tbl _ _).inner
  · refine Keeps.bind (hR.memWrite _ _ _ _) fun _ => Keeps.bind (hR.incrementDataPc _) fun _ => ?_
    refine Keeps.get_bind fun s => ?_
    exact Keeps.bind (hR.memWrite _ _ _ _) (fun _ => hR.incrementDataPc _) s

lemma storeBytes_inner (bytes : List Byte) :
    Keeps R.returning (Data.storeBytes tbl (depth + 1) bytes) := by
  induction bytes with
  | nil => exact Keeps.pure _
  | cons b bs ih => exact Keeps.bind (fires_storeByte hR tbl _ _).inner fun _ => ih

lemma fires_storeString (bytes : List Byte) (nul : Bool) :
    Fires R.returning depth (fun s => .dataString s.currentDataPc bytes nul)
      (Data.storeString tbl depth bytes nul) := by
  have hzero : Keeps R.returning (onlyIf (nul = true) (Data.storeByte tbl (depth + 1) 0)) :=
    Keeps.onlyIf (fires_storeByte hR tbl _ 0).inner
  have h := fires_of_body (fun s => .dataString s.currentDataPc bytes nul) depth fun _ =>
    Keeps.bind (storeBytes_inner hR tbl depth bytes) fun _ => hzero
  simp only [bind_assoc] at h
  exact h

end

/-! Storing. -/

/-- What was told of everything stays so. -/
def keepsTold : Rel Asm := (Rel.stable Told).returning

lemma keepsTold_of_tally {s t : Asm} (h : t.tally = s.tally) : keepsTold.rel s t :=
  fun hs => hs.of_tally h

lemma told_of_sameTally {α : Type} {x : Assemble α} (h : Keeps sameTally x) : Keeps keepsTold x :=
  h.mono (fun _ _ => keepsTold_of_tally) fun _ => trivial

lemma tally_fired (s : Asm) {e : Observed} {d : Word × List Byte} (h : e.datum = some d) :
    (s.log (.fired e)).placed = s.placed ∧ (s.log (.fired e)).reportedData = d :: s.reportedData ∧
      (s.log (.fired e)).emittedInsts = s.emittedInsts ∧
        (s.log (.fired e)).reportedInsts = s.reportedInsts := by
  cases e with
  | labelDef | textInst => cases h
  | dataInt | dataDouble | dataString =>
    cases h
    exact ⟨rfl, rfl, rfl, rfl⟩

/-- A datum that is placed and told of. -/
lemma told_placing {bytes : List Byte} {mk : Asm → Observed} {store : Assemble Unit}
    (h : Fires sameTally.returning 0 mk store)
    (hmk : ∀ s, (mk s).datum = some (s.currentDataPc, bytes)) :
    Keeps keepsTold (Data.placing bytes store) :=
  fun s => KeepsFrom.of_ok (fun _ => trivial) fun _ t ht hs => by
    obtain ⟨_, _, ⟨⟩, ht⟩ := ok_of_bind ht
    obtain ⟨_, _, ⟨⟩, ht⟩ := ok_of_bind ht
    obtain ⟨u, hu, rfl⟩ := h _ t ht
    have hplaced : (s.log (.stored s.currentDataPc bytes)).placed =
        (s.currentDataPc, bytes) :: s.placed := rfl
    obtain ⟨hp, hd, he, hr⟩ := tally_eq_iff.mp hu
    obtain ⟨hp', hd', he', hr'⟩ := tally_fired u (hmk (s.log (.stored s.currentDataPc bytes)))
    rw [if_pos rfl]
    constructor
    · refine hd'.trans ?_
      rw [hd]
      refine Eq.trans ?_ (hp'.trans (hp.trans hplaced)).symm
      rw [← hs.data]
      rfl
    · exact hr'.trans (hr.trans (hs.insts.trans (he'.trans he).symm))

lemma told_storeDataInt (tbl : AOpcodeTbl) (kind : DataIntKind) (v : Word) :
    Keeps keepsTold (storeDataInt tbl kind v) := by
  have hR := counterRel_sameTally.returning
  have hdatum (s : Asm) : (Observed.dataInt kind s.currentDataPc v).datum =
      some (s.currentDataPc, Data.leBytes v kind.bytes) := rfl
  refine told_placing ?_ hdatum
  cases kind with
  | byte => exact fires_storeByte hR tbl 0 v
  | half => exact fires_storeHalf hR tbl 0 v
  | word => exact fires_storeWord hR tbl 0 v

lemma tally_setEncoding (s : Asm) (r : InstRef) : (s.setEncoding r).tally = s.tally := by
  unfold Asm.setEncoding
  dsimp only
  split <;> rfl

/-- An instruction in text is told of, also where it is refused. -/
lemma told_storeInText (env : Env) (r : InstRef) : Keeps keepsTold (storeInText env r) :=
  fun s => KeepsFrom.of_ok (fun _ => trivial) fun _ t h hs => by
    have hR := symbolRel_sameTally.toResolveRel
    obtain ⟨_, _, ⟨⟩, h⟩ := ok_of_bind h
    obtain ⟨_, s₁, h₁, h⟩ := ok_of_bind h
    obtain ⟨_, s₂, h₂, h⟩ := ok_of_bind h
    obtain ⟨_, _, ⟨⟩, h⟩ := ok_of_bind h
    obtain ⟨_, s₃, h₃, h⟩ := ok_of_bind h
    cases h
    have hwrite : s₂.tally = s.tally :=
      sameTally.trans ((hR.onMachine (Keeps.modify fun m => printRel_keepsRecords.flag m)).ok h₁)
        ((hR.onMachine (printRel_keepsRecords.memWriteInst _ _ _)).ok h₂)
    obtain ⟨hp, hd, he, hr⟩ := tally_eq_iff.mp hwrite
    have hemit : s₃.placed = s.placed ∧ s₃.reportedData = s.reportedData ∧
        s₃.emittedInsts = s.currentTextPc :: s.emittedInsts ∧
          s₃.reportedInsts = s.reportedInsts := by
      by_cases hexc : s₂.machine.exceptionOccurred = true
      · rw [if_pos hexc] at h₃
        cases h₃
        exact ⟨hp, hd, congrArg (_ :: ·) he, hr⟩
      · rw [if_neg hexc] at h₃
        obtain ⟨_, _, ⟨⟩, h₃⟩ := ok_of_bind h₃
        have hpc : Keeps sameTally (incrementTextPc 4) :=
          keeps_incrementTextPc (fun s v => tally_of_events (events_setTextPc s v)) 4
        obtain ⟨hp', hd', he', hr'⟩ := tally_eq_iff.mp (hpc.ok h₃)
        exact ⟨hp'.trans hp, hd'.trans hd, he'.trans (congrArg (_ :: ·) he), hr'.trans hr⟩
    obtain ⟨hp, hd, he, hr⟩ := hemit
    obtain ⟨hp', hd', he', hr'⟩ := tally_eq_iff.mp (tally_setEncoding s₃ r)
    constructor
    · exact hd'.trans (hd.trans (hs.data.trans (hp'.trans hp).symm))
    · change s.currentTextPc :: (s₃.setEncoding r).reportedInsts = (s₃.setEncoding r).emittedInsts
      rw [hr', hr, he', he, hs.insts]

lemma told_storeInstruction (env : Env) (r : InstRef) : Keeps keepsTold (storeInstruction env r) := by
  have hR := counterRel_sameTally.returning
  refine Keeps.get_bind fun s => KeepsFrom.ite (fun _ => ?_) fun _ => ?_
  · exact told_placing (fires_storeWord hR env.tbl 0 _) (fun _ => rfl) s
  · exact KeepsFrom.ite (fun _ => told_storeInText env r s) fun _ => KeepsFrom.pure _

theorem placeRel_keepsTold (env : Env) : PlaceRel env Set.univ Set.univ keepsTold :=
  { (symbolRel_sameTally.mono fun _ _ => keepsTold_of_tally).toRecordRel with
    addUse := fun _ _ _ _ _ => keepsTold_of_tally rfl
    dataInt := told_storeDataInt env.tbl
    dataString := fun bytes nul =>
      told_placing (fires_storeString counterRel_sameTally.returning env.tbl 0 bytes nul) fun _ => rfl
    space := fun size => told_of_sameTally (counterRel_sameTally.incrementDataPc size) }

/-! Statements. -/

lemma events_alignData (s : Asm) (v : Word) : (s.alignData v).events = s.events :=
  rel_alignData (R := Rel.same Asm.events) (fun _ _ => rfl) (fun _ => rfl) events_setDataPc s v

lemma events_alignDirective (s : Asm) (v : Word) : (s.alignDirective v).events = s.events :=
  rel_alignDirective (R := Rel.same Asm.events) (fun _ _ => rfl) events_alignData s v

lemma events_align (n : AstNode) (s : Asm) : (n.align s).events = s.events :=
  rel_align (R := Rel.same Asm.events) (fun _ _ => rfl) (fun _ => rfl) events_alignData
    (fun s v => rel_alignText (R := Rel.same Asm.events) (fun _ _ => rfl) events_setTextPc s v) n s

/-- The statement has floating-point values of single precision. -/
def AstNode.hasFloat : AstNode → Bool
  | .dataFp .float (_ :: _) => true
  | _ => false

/-- A statement without floating-point values of single precision. -/
theorem told_emitNode {env : Env} {n : NodeRef × AstNode} (hf : n.2.hasFloat = false) : Keeps keepsTold (emitNode env n) := by
  have hR := placeRel_keepsTold env
  refine Keeps.bind (Keeps.modify fun _ => keepsTold_of_tally rfl) fun _ => ?_
  rw [emitOne_eq]
  refine Keeps.bind (Keeps.bind (Keeps.modify fun s => ?_) fun _ => ?_) fun _ =>
    Keeps.onlyIf (hR.clearLabels env)
  · exact keepsTold_of_tally (tally_of_events (events_align n.2 s))
  · refine hR.emitPlaced n.2 (fun _ _ => trivial) (fun _ _ => trivial) (fun kind vs hn => ?_)
      (fun _ r => told_storeInstruction env r) fun kind a _ s => ?_
    · cases kind with
      | float =>
        cases vs with
        | nil => exact Keeps.pure _
        | cons v vs =>
          rw [hn] at hf
          cases hf
      | double =>
        exact keeps_emitDataFpNode (fun v => told_placing
          (fires_storeDouble counterRel_sameTally.returning env.tbl 0 v) fun _ => rfl) vs
    · refine keepsTold_of_tally (tally_of_events ?_)
      cases kind <;> cases a <;> rfl

/-! Labels. -/

/-- The labels that the observer was told of have the addresses that it was told. -/
structure LabelsTold (s : Asm) : Prop where
  told : ∀ x ∈ s.reportedLabels, (s.label x.2).addr = x.1
  old : ∀ x ∈ s.reportedLabels, x.2 < s.nextLabel

/-- The name may be defined at `a`: where its entry was told of at 0, `a` is 0. -/
def Asm.MayBind (s : Asm) (N : String) (a : Word) : Prop :=
  ∀ x ∈ s.reportedLabels, s.labelIsDefined N = some x.2 → x.1 = 0 → a = 0

/-- No label is told of, none changes its address, and names that are found had their entries
before, or have new ones. -/
structure SameBindings (s t : Asm) : Prop where
  wellFormed : t.WellFormed
  reported : t.reportedLabels = s.reportedLabels
  addr : ∀ l, (t.label l).addr = (s.label l).addr
  nextLabel : s.nextLabel ≤ t.nextLabel
  found : ∀ N l, l < s.nextLabel → t.labelIsDefined N = some l → s.labelIsDefined N = some l

lemma labelIsDefined_congr {s t : Asm} (ht : t.table = s.table)
    (hn : ∀ l, (t.label l).name = (s.label l).name) (N : String) :
    t.labelIsDefined N = s.labelIsDefined N := by
  unfold Asm.labelIsDefined
  simp only [ht, hn]

namespace SameBindings

variable {s t u : Asm}

lemma refl (hs : s.WellFormed) : SameBindings s s :=
  ⟨hs, rfl, fun _ => rfl, Nat.le_refl _, fun _ _ _ => id⟩

lemma trans (h : SameBindings s t) (h' : SameBindings t u) : SameBindings s u where
  wellFormed := h'.wellFormed
  reported := h'.reported.trans h.reported
  addr l := (h'.addr l).trans (h.addr l)
  nextLabel := Nat.le_trans h.nextLabel h'.nextLabel
  found N l hl hf := h.found N l hl (h'.found N l (Nat.lt_of_lt_of_le hl h.nextLabel) hf)

lemma of_same (hw : t.WellFormed) (hr : t.reportedLabels = s.reportedLabels)
    (ht : t.table = s.table) (hnext : t.nextLabel = s.nextLabel)
    (hl : ∀ l, (t.label l).name = (s.label l).name ∧ (t.label l).addr = (s.label l).addr) :
    SameBindings s t where
  wellFormed := hw
  reported := hr
  addr l := (hl l).2
  nextLabel := Nat.le_of_eq hnext.symm
  found N l _ hf := by
    rwa [labelIsDefined_congr ht fun l => (hl l).1] at hf

lemma labelsTold (h : SameBindings s t) (hs : LabelsTold s) : LabelsTold t where
  told x hx := (h.addr x.2).trans (hs.told x (h.reported ▸ hx))
  old x hx := Nat.lt_of_lt_of_le (hs.old x (h.reported ▸ hx)) h.nextLabel

lemma mayBind {N : String} {a : Word} (h : SameBindings s t) (hs : LabelsTold s)
    (hN : s.MayBind N a) : t.MayBind N a := by
  intro x hx hf
  rw [h.reported] at hx
  exact hN x hx (h.found N x.2 (hs.old x hx) hf)

end SameBindings

/-- A table without rivals keeps its bindings. -/
def sameBindings : Rel Asm where
  rel s t := s.WellFormed → SameBindings s t
  refl _ := .refl
  trans h h' hs := (h hs).trans (h' (h hs).wellFormed)

lemma sameBindings_same {s t : Asm} (h : t.symbols = s.symbols)
    (hr : t.reportedLabels = s.reportedLabels) : sameBindings.rel s t := by
  intro hs
  obtain ⟨ht, hl, -, -⟩ := symbols_eq_iff.mp h
  exact .of_same (symbolsKeep_wellFormed.same s t h hs) hr (congrArg SymbolTable.table ht)
    (congrArg SymbolTable.nextLabel ht) fun l => by simp [hl]

lemma sameBindings_setLabel (s : Asm) (l : LabelRef) (x : Label) (hn : x.name = (s.label l).name)
    (ha : x.addr = (s.label l).addr) (hg : x.gpFlag = (s.label l).gpFlag) :
    sameBindings.rel s (s.setLabel l x) := by
  intro hs
  refine .of_same (wellFormed_setLabel hs hn hg fun h => ha ▸ h) rfl rfl rfl fun k => ?_
  rw [label_setLabel]
  by_cases hk : k = l
  · rw [hk, Function.update_self]
    exact ⟨hn, ha⟩
  · rw [Function.update_of_ne hk]
    exact ⟨rfl, rfl⟩

lemma reportedLabels_log (s : Asm) {e : AsmEvent} (h : ∀ a l g, e ≠ .fired (.labelDef a l g)) :
    (s.log e).reportedLabels = s.reportedLabels := by
  cases e with
  | fired e =>
    cases e with
    | labelDef a l g => exact absurd rfl (h a l g)
    | _ => rfl
  | _ => rfl

lemma reportedLabels_of_events {s t : Asm} (h : t.events = s.events) :
    t.reportedLabels = s.reportedLabels := by
  unfold Asm.reportedLabels
  rw [h]

theorem storeRel_sameBindings : StoreRel sameBindings where
  machine s m h := by
    have hl : (s.setMachine m).label = s.label := h.labels
    exact sameBindings_same (symbols_eq_iff.mpr ⟨rfl, hl, rfl, rfl⟩) rfl
  setInst _ _ _ _ := sameBindings_same rfl rfl
  log s e h := by
    refine sameBindings_same ?_ (reportedLabels_log s (by rintro a l g rfl; cases h))
    cases e with
    | report r => cases r <;> first | rfl | cases h
    | _ => rfl
  use _ _ _ := sameBindings_same rfl rfl
  addUse s l _ _ _ := sameBindings_setLabel s l _ rfl rfl rfl
  dataPc s v := by
    unfold Asm.setDataPc
    split <;> exact sameBindings_same rfl rfl
  textPc s v := by
    unfold Asm.setTextPc
    split <;> exact sameBindings_same rfl rfl

lemma sameBindings_newLabel (s : Asm) {name : String} (h : s.labelIsDefined name = none) :
    sameBindings.rel s (s.newLabel name) := by
  intro hs
  refine ⟨hs.newLabel h, rfl, fun l => ?_, Nat.le_succ _, fun N l hl hf => ?_⟩
  · rw [Asm.label_newLabel]
    split
    · rename_i heq
      by_contra ha
      exact Nat.lt_irrefl _ (heq ▸ hs.fresh l fun h => ha h.symm)
    · rfl
  · obtain ⟨hmem, hname⟩ := (hs.newLabel h).labelIsDefined_eq_some.mp hf
    have hne : l ≠ s.nextLabel := Nat.ne_of_lt hl
    rw [Asm.label_newLabel, if_neg hne] at hname
    exact hs.labelIsDefined_eq_some.mpr ⟨List.mem_of_ne_of_mem hne hmem, hname⟩

theorem recordRel_sameBindings : RecordRel ∅ Set.univ sameBindings :=
  { storeRel_sameBindings.toResolveRel with
    newLabel := fun s _ h => sameBindings_newLabel s h
    clearUses := fun s l => sameBindings_setLabel s l _ rfl rfl rfl
    declareGlobal := fun s l _ => sameBindings_setLabel s l _ rfl rfl rfl
    constant := fun s l _ => sameBindings_setLabel s l _ rfl rfl rfl
    unpend := fun s l ls h _ hs => .of_same (symbolsKeep_wellFormed.unpend s l ls h hs) rfl rfl rfl
      fun _ => ⟨rfl, rfl⟩
    record := fun _ _ _ _ h => absurd h (Set.notMem_empty _)
    labelNormal := fun _ _ h => absurd h (Set.notMem_empty _) }

theorem placeRel_sameBindings (env : Env) : PlaceRel env ∅ Set.univ sameBindings :=
  { recordRel_sameBindings with
    addUse := storeRel_sameBindings.addUse
    dataInt := storeRel_sameBindings.toDataRel.storeDataInt env.tbl
    dataString := fun _ _ => storeRel_sameBindings.toDataRel.placing _
      (storeRel_sameBindings.toDataRel.storeString _ _ _ _)
    space := storeRel_sameBindings.toDataRel.incrementDataPc }

/-- A statement that defines nothing, after its alignment. -/
lemma sameBindings_emitPlaced (env : Env) {n : AstNode} (hd : n.defines = []) :
    Keeps sameBindings (emitPlaced env n) := by
  have hR := storeRel_sameBindings
  refine (placeRel_sameBindings env).emitPlaced n (by simp [hd]) (fun _ _ => trivial)
    (fun kind vs _ => keeps_emitDataFpNode (hR.toDataRel.storeDataFp env kind) vs)
    (fun _ r => hR.storeInstruction env r) fun kind a _ s => sameBindings_same ?_ ?_
  · cases kind <;> cases a <;> rfl
  · cases kind <;> cases a <;> rfl

/-! Definitions. -/

theorem resolveRel_reportedLabels : ResolveRel (Rel.same Asm.reportedLabels) where
  machine _ _ _ := rfl
  setInst _ _ _ _ := rfl
  report _ _ _ := rfl
  use _ _ _ := rfl

/-- A label without an address is told of with the address that it is defined at. -/
lemma recordEntry_reported {env : Env} {l : LabelRef} {name : String} {a : Word} {resolve : Bool}
    {s t : Asm} (hg : (s.label l).gpFlag = false)
    (h : (recordEntry env l name a resolve).run s = .ok () t) :
    t.reportedLabels =
      if (s.label l).addr = 0 then (a, l) :: s.reportedLabels else s.reportedLabels := by
  change (if (s.label l).gpFlag = false ∧ (s.label l).addr ≠ 0 then _ else _ :
    Assemble Unit).run s = _ at h
  by_cases ha : (s.label l).addr = 0
  · rw [if_neg (by simp [ha])] at h
    rw [if_pos ha]
    obtain ⟨_, s₁, ⟨⟩, h⟩ := ok_of_bind h
    obtain ⟨_, s₂, ⟨⟩, h⟩ := ok_of_bind h
    obtain ⟨_, s₃, h₃, h⟩ := ok_of_bind h
    have hresolve : Keeps (Rel.same Asm.reportedLabels) (onlyIf (resolve = true)
        (resolveLabelUses env l)) := by
      refine Keeps.onlyIf (Keeps.get_bind fun s => ?_)
      refine Keeps.bind (resolveRel_reportedLabels.resolveUses env l _) (fun _ => ?_) s
      exact Keeps.modify fun _ => rfl
    have hs₃ := hresolve.ok h₃
    cases h
    dsimp only
    split
    · refine hs₃.trans ?_
      simp only [hg]
      rfl
    · refine Eq.trans ?_ (hs₃.trans ?_)
      · rfl
      · simp only [hg]
        rfl
  · rw [if_pos ⟨hg, ha⟩] at h
    rw [if_neg ha]
    cases h
    rfl

section

variable {env : Env} {N : String} {a : Word}

/-- record_label for an entry that was not told of, or was told of at the address that it is
defined at. -/
lemma labelsTold_recordEntry {l : LabelRef} {resolve : Bool} {s t : Asm} (hw : s.WellFormed)
    (hs : LabelsTold s) (hl : l ∈ s.table) (hN : ∀ x ∈ s.reportedLabels, x.2 = l → x.1 = 0 → a = 0)
    (h : (recordEntry env l N a resolve).run s = .ok () t) : LabelsTold t := by
  have hreported := recordEntry_reported (hw.noGp l) h
  rcases recordEntry_run (hw.noGp l) h with hr | hr
  · rw [if_pos hr.undefined] at hreported
    have hnext : t.nextLabel = s.nextLabel := hr.nextLabel
    constructor
    · intro x hx
      rw [hreported] at hx
      rw [hr.label]
      rcases List.mem_cons.mp hx with rfl | hx
      · rw [Function.update_self]
      · by_cases hxl : x.2 = l
        · have hzero : x.1 = 0 := (hs.told x hx).symm.trans (hxl ▸ hr.undefined)
          rw [hxl, Function.update_self, hzero]
          exact hN x hx hxl hzero
        · rw [Function.update_of_ne hxl]
          exact hs.told x hx
    · intro x hx
      rw [hreported] at hx
      rw [hnext]
      rcases List.mem_cons.mp hx with rfl | hx
      · exact hw.old l hl
      · exact hs.old x hx
  · rw [if_neg hr.defined] at hreported
    have hnext : t.nextLabel = s.nextLabel := congrArg SymbolTable.nextLabel hr.table
    constructor
    · intro x hx
      rw [hreported] at hx
      rw [hr.label]
      exact hs.told x hx
    · intro x hx
      rw [hreported] at hx
      rw [hnext]
      exact hs.old x hx

lemma labelsTold_recordLabel {l : LabelRef} {resolve : Bool} {s t : Asm} (hw : s.WellFormed)
    (hs : LabelsTold s) (hN : s.MayBind N a)
    (h : (recordLabel env N a resolve).run s = .ok l t) : LabelsTold t := by
  obtain ⟨k, s₁, h₁, h⟩ := ok_of_bind h
  obtain ⟨_, _, h₂, h⟩ := ok_of_bind h
  cases h
  have hsame := recordRel_sameBindings.lookupLabel N |>.ok h₁ hw
  obtain ⟨-, hk, hname⟩ := symbolsKeep_wellFormed.lookupLabel hw h₁
  have hfound : s₁.labelIsDefined N = some l :=
    hsame.wellFormed.labelIsDefined_eq_some.mpr ⟨hk, hname⟩
  refine labelsTold_recordEntry hsame.wellFormed (hsame.labelsTold hs) hk (fun x hx hxk hzero => ?_) h₂
  exact hsame.mayBind hs hN x hx (hxk ▸ hfound) hzero

/-- .extern and .comm for a name that may be defined at the data location counter. -/
lemma labelsTold_emitReserve {size : Word} {s t : Asm} (hw : s.WellFormed) (hs : LabelsTold s)
    (hN : s.MayBind N s.currentDataPc) (h : (emitReserve env N size).run s = .ok () t) :
    LabelsTold t := by
  obtain ⟨l, s₁, h₁, h⟩ := ok_of_bind h
  obtain ⟨_, _, ⟨⟩, h⟩ := ok_of_bind h
  obtain ⟨_, s₂, h₂, h⟩ := ok_of_bind h
  have hsame := recordRel_sameBindings.lookupLabel N |>.ok h₁ hw
  have hpc : s₁.currentDataPc = s.currentDataPc := by
    rcases lookupLabel_run h₁ with ⟨-, rfl⟩ | ⟨-, -, rfl⟩ <;> rfl
  have hs₂ : s₂.WellFormed ∧ LabelsTold s₂ := by
    by_cases haddr : (s₁.label l).addr = 0
    · rw [onlyIf_pos haddr] at h₂
      obtain ⟨k, _, hk, h₂⟩ := ok_of_bind h₂
      cases h₂
      exact ⟨(symbolsKeep_wellFormed.recordLabel trivial hsame.wellFormed hk).1,
        labelsTold_recordLabel hsame.wellFormed (hsame.labelsTold hs)
          (hpc ▸ hsame.mayBind hs hN) hk⟩
    · rw [onlyIf_neg haddr] at h₂
      cases h₂
      exact ⟨hsame.wellFormed, hsame.labelsTold hs⟩
  have hincr := storeRel_sameBindings.toDataRel.incrementDataPc size
  exact (hincr.ok h hs₂.1).labelsTold hs₂.2

end

/-! A statement. -/

/-- The name that a statement defines, once it is aligned, if the name has no address yet, and the
address that it gives it. -/
def AstNode.binds (n : AstNode) (s : Asm) : Option (String × Word) :=
  match n with
  | .labelNormal name => some (name, if s.textDir then s.currentTextPc else s.currentDataPc)
  | .labelConst name v => some (name, v)
  | .dirExtern name _ | .dirComm name _ => some (name, s.currentDataPc)
  | _ => none

/-- The statement has no floating-point values of single precision, its alignment moves no label
that was told of away from the address that was told, and a label that was told of at 0 is not
defined elsewhere. -/
structure Accountable (s : Asm) (n : NodeRef × AstNode) : Prop where
  noFloat : n.2.hasFloat = false
  stays : ∀ x ∈ s.reportedLabels, x.2 ∈ s.thisLineLabels → ∀ b ∈ n.2.moveTo s, b = x.1
  binds : ∀ c ∈ n.2.binds (n.2.align s), s.MayBind c.1 c.2

lemma binds_log (n : AstNode) (s : Asm) (e : AsmEvent) :
    n.binds (n.align (s.log e)) = n.binds (n.align s) := by
  cases n with
  | dirComm name size =>
    have hpc (t : Asm) : (t.alignData 2).currentDataPc = alignUp 2 t.currentDataPc :=
      currentDataPc_setDataPc t _
    change some (name, ((s.log e).alignData 2).currentDataPc) = some (name, (s.alignData 2).currentDataPc)
    rw [hpc, hpc]
    rfl
  | _ => rfl

lemma wellFormed_align (n : AstNode) {s : Asm} (hs : s.WellFormed) : (n.align s).WellFormed := by
  have hR := symbolsKeep_wellFormed.toSymbolsRel
  cases n with
  | dataInt kind es =>
    cases kind with
    | byte => exact hs
    | half | word => exact hR.alignDirective s _ hs
  | dataFp kind vs => exact hR.alignDirective s _ hs
  | dirComm name size => exact hR.alignData s _ hs
  | dirAlign v => exact hR.emitDirAlign v s hs
  | _ => exact hs

lemma labelsTold_align {n : AstNode} {s : Asm} (hs : LabelsTold s)
    (hc : ∀ x ∈ s.reportedLabels, x.2 ∈ s.thisLineLabels → ∀ b, n.moveTo s = some b → b = x.1) :
    LabelsTold (n.align s) := by
  have hmoved := moved_align n s
  have hreported : (n.align s).reportedLabels = s.reportedLabels :=
    reportedLabels_of_events (events_align n s)
  constructor
  · intro x hx
    rw [hreported] at hx
    rw [hmoved.label]
    cases hto : n.moveTo s with
    | none => exact hs.told x hx
    | some b =>
      dsimp only [Option.elim_some]
      split
      · rename_i hp
        exact hc x hx hp b hto
      · exact hs.told x hx
  · intro x hx
    rw [hreported] at hx
    exact Nat.lt_of_lt_of_eq (hs.old x hx) (congrArg SymbolTable.nextLabel hmoved.table).symm

lemma mayBind_align {n : AstNode} {s : Asm} {N : String} {a : Word} (h : s.MayBind N a) :
    (n.align s).MayBind N a := by
  have hmoved := moved_align n s
  intro x hx hf
  rw [reportedLabels_of_events (events_align n s)] at hx
  rw [labelIsDefined_congr (congrArg SymbolTable.table hmoved.table) (fun l => ?_)] at hf
  · exact h x hx hf
  · rw [hmoved.label]
    cases n.moveTo s with
    | none => rfl
    | some b =>
      dsimp only [Option.elim_some]
      split <;> rfl

/-- What follows the alignment of a statement. -/
lemma labelsTold_emitPlaced {env : Env} {n : AstNode} {s t : Asm} (hw : s.WellFormed)
    (hs : LabelsTold s) (hb : ∀ N a, n.binds s = some (N, a) → s.MayBind N a)
    (h : (emitPlaced env n).run s = .ok () t) : LabelsTold t := by
  cases n with
  | labelNormal name =>
    obtain ⟨_, _, ⟨⟩, h⟩ := ok_of_bind h
    obtain ⟨l, u, hu, h⟩ := ok_of_bind h
    have hu := labelsTold_recordLabel hw hs (hb name _ rfl) hu
    cases h
    exact ⟨hu.told, hu.old⟩
  | labelConst name v =>
    obtain ⟨l, u, hu, h⟩ := ok_of_bind h
    have hwu := (symbolsKeep_wellFormed.recordLabel trivial hw hu).1
    have hu := labelsTold_recordLabel hw hs (hb name v rfl) hu
    cases h
    have hconst : SameBindings u (u.setLabel l { u.label l with constFlag := true }) :=
      sameBindings_setLabel u l _ rfl rfl rfl hwu
    exact hconst.labelsTold hu
  | dirExtern name size =>
    obtain ⟨l, u, hu, h⟩ := ok_of_bind h
    have hsame := (recordRel_sameBindings.makeLabelGlobal trivial).ok hu hw
    refine labelsTold_emitReserve hsame.wellFormed (hsame.labelsTold hs) ?_ h
    have hpc : u.currentDataPc = s.currentDataPc := by
      have hloc := (symbolRel_dataPlace.toRecordRel.makeLabelGlobal trivial).ok hu
      exact congrArg Location.dataPc (dataPlace_iff.mp hloc).1
    exact hpc ▸ hsame.mayBind hs (hb name _ rfl)
  | dirComm name size =>
    exact labelsTold_emitReserve hw hs (hb name _ rfl) h
  | _ => exact ((sameBindings_emitPlaced env rfl).ok h hw).labelsTold hs

/-- A statement that may be accounted for leaves the labels as they were told. -/
theorem labelsTold_emitNode {env : Env} {n : NodeRef × AstNode} {s t : Asm} (hw : s.WellFormed)
    (hs : LabelsTold s) (hc : Accountable s n) (h : (emitNode env n).run s = .ok () t) :
    LabelsTold t := by
  obtain ⟨_, s₁, ⟨⟩, h⟩ := ok_of_bind h
  obtain ⟨_, u, hu, h⟩ := ok_of_bind h
  have hR := symbolsKeep_wellFormed.toSymbolsRel
  have hw₁ : (s.log (.emitted n.1)).WellFormed := symbolsKeep_wellFormed.same s _ rfl hw
  have hs₁ : LabelsTold (s.log (.emitted n.1)) := ⟨hs.told, hs.old⟩
  have hwu : u.WellFormed := (hR.emitOne env n.2 (fun _ _ => trivial) fun _ _ => trivial).ok hu hw₁
  have hsu : LabelsTold u := by
    rw [emitOne_eq] at hu
    obtain ⟨_, v, hv, hu⟩ := ok_of_bind hu
    cases hv
    refine labelsTold_emitPlaced (wellFormed_align n.2 hw₁) (labelsTold_align hs₁ ?_)
      (fun N a ha => mayBind_align ?_) hu
    · intro x hx hp b hb
      rw [moveTo_log] at hb
      exact hc.stays x hx hp b hb
    · rw [binds_log] at ha
      exact hc.binds (N, a) ha
  exact ((Keeps.onlyIf (recordRel_sameBindings.clearLabels env)).ok h hwu).labelsTold hsu

/-! Files. -/

/-- What was told is accounted for, in a table without rivals. -/
structure Observing (s : Asm) : Prop where
  wellFormed : s.WellFormed
  told : Told s
  labels : LabelsTold s

lemma observing_emitNodes {env : Env} {ns : List (NodeRef × AstNode)} {s t : Asm}
    (h : CommandRun (emitNode env) Accountable s ns t) (hs : Observing s) : Observing t := by
  refine h.invariant (fun s n t hs hc hr => ?_) hs
  have hR := symbolsKeep_wellFormed.toSymbolsRel
  have hnode : Keeps (Rel.stable Asm.WellFormed).returning (emitNode env n) :=
    Keeps.bind (Keeps.modify fun s => symbolsKeep_wellFormed.same s _ rfl) fun _ =>
      Keeps.bind (hR.emitOne env n.2 (fun _ _ => trivial) fun _ _ => trivial) fun _ =>
        Keeps.onlyIf (hR.toRecordRel.clearLabels env)
  exact ⟨hnode.ok hr hs.wellFormed, (told_emitNode hc.noFloat).ok hr hs.told,
    labelsTold_emitNode hs.wellFormed hs.labels hc hr⟩

/-- Where no label waits, nothing is told. -/
def tellsNothing : Rel Asm where
  rel s t := s.WellFormed → s.thisLineLabels = [] →
    SameBindings s t ∧ t.tally = s.tally ∧ t.thisLineLabels = []
  refl _ hs hp := ⟨.refl hs, rfl, hp⟩
  trans h h' hs hp := by
    obtain ⟨hb, ht, hp⟩ := h hs hp
    obtain ⟨hb', ht', hp⟩ := h' hb.wellFormed hp
    exact ⟨hb.trans hb', ht'.trans ht, hp⟩
  upTo _ _ := True
  upTo_refl _ := trivial

lemma tellsNothing_same {s t : Asm} (h : t.symbols = s.symbols)
    (hr : t.reportedLabels = s.reportedLabels) (ht : t.tally = s.tally) : tellsNothing.rel s t := by
  obtain ⟨-, -, hp, -⟩ := symbols_eq_iff.mp h
  exact fun hs hps => ⟨sameBindings_same h hr hs, ht, hp.trans hps⟩

lemma tellsNothing_aligned (s : Asm) {k : ℕ} (h₀ : 0 < k) (h₁ : k < 32) :
    tellsNothing.rel s (s.alignDirective (BitVec.ofNat 32 k)) := by
  intro hs hp
  have hmoved := moved_alignDirective s (ofNat_ne_zero h₀ h₁)
  have hev := events_alignDirective s (BitVec.ofNat 32 k)
  refine ⟨.of_same (symbolsKeep_wellFormed.toSymbolsRel.alignDirective s _ hs)
    (reportedLabels_of_events hev) (congrArg SymbolTable.table hmoved.table)
      (congrArg SymbolTable.nextLabel hmoved.table) fun l => ?_, tally_of_events hev,
        hmoved.pending.trans hp⟩
  rw [hmoved.label, hp]
  cases s.directiveTo (BitVec.ofNat 32 k) <;> simp

theorem parseRel_tellsNothing : ParseRel tellsNothing where
  scan _ _ _ _ := tellsNothing_same rfl rfl rfl
  unresolved _ _ := tellsNothing_same rfl rfl rfl
  pseudo _ _ := tellsNothing_same rfl rfl rfl
  append _ _ _ := tellsNothing_same rfl rfl rfl
  seg _ kind _ := by cases kind <;> exact tellsNothing_same rfl rfl rfl
  noAlign _ := tellsNothing_same rfl rfl rfl
  nullTerm _ _ := tellsNothing_same rfl rfl rfl
  newLine _ := tellsNothing_same rfl rfl rfl
  newLabel s _ h hs hp := ⟨sameBindings_newLabel s h hs, rfl, hp⟩
  use _ _ _ := tellsNothing_same rfl rfl rfl
  report s r h := by
    refine tellsNothing_same ?_ rfl (tally_note s h)
    cases r <;> first | rfl | cases h
  parseError _ _ := tellsNothing_same rfl rfl rfl
  aligned s k h₀ h₁ := by
    refine tellsNothing.trans ?_ (tellsNothing_aligned _ h₀ (by omega))
    split
    · exact tellsNothing_same rfl rfl rfl
    · exact tellsNothing.refl s
  clear env s := by
    refine KeepsFrom.of_ok (fun _ => trivial) fun _ t h hs hp => ?_
    change (clearLabelList env s.thisLineLabels).run s = _ at h
    rw [hp] at h
    cases h
    exact ⟨.refl hs, rfl, hp⟩

/-- The end of a file tells nothing. -/
def sameReports : Rel Asm := Rel.same fun s => (s.tally, s.reportedLabels, s.nextLabel)

theorem endRel_sameReports : EndRel sameReports where
  erase _ _ _ _ _ := rfl
  report s _ h := Prod.ext (tally_note s h) rfl
  flush _ := rfl
  reset _ := rfl

lemma Observing.of_bindings {s t : Asm} (hs : Observing s) (hb : SameBindings s t)
    (ht : t.tally = s.tally) : Observing t :=
  ⟨hb.wellFormed, hs.told.of_tally ht, hb.labelsTold hs.labels⟩

lemma observing_endFile {s t : Asm} (hs : Observing s) (h : endFile.run s = .ok () t) :
    Observing t := by
  have hf := (endFile_flushed hs.wellFormed h).1
  have hreports := endRel_sameReports.endFile.ok h
  obtain ⟨ht, hl, hn⟩ : t.tally = s.tally ∧ t.reportedLabels = s.reportedLabels ∧
      t.nextLabel = s.nextLabel := by simpa [sameReports, Rel.same] using hreports
  refine ⟨hf.wellFormed, hs.told.of_tally ht, fun x hx => ?_, fun x hx => ?_⟩
  · rw [hf.label]
    exact hs.labels.told x (hl ▸ hx)
  · rw [hn]
    exact hs.labels.old x (hl ▸ hx)

lemma observing_parse {f : FileLoad} {s p : Asm} (hs : Observing s) (hpending : s.thisLineLabels = [])
    (hp : (parseTree f.1).run (parserInit f.2 s) = .ok () p) : Observing p := by
  have hinit : Observing (parserInit f.2 s) :=
    ⟨symbolsKeep_wellFormed.same s _ rfl hs.wellFormed, hs.told.of_tally rfl,
      hs.labels.told, hs.labels.old⟩
  obtain ⟨hb, ht, -⟩ := (parseRel_tellsNothing.parseTree f.1).ok hp hinit.wellFormed hpending
  exact hinit.of_bindings hb ht

/-- Every statement of the file may be accounted for where it is emitted. -/
def FileLoad.EachAccountable (s : Asm) (f : FileLoad) : Prop :=
  f.1.printAstOnly = false → ∀ p ns, (parseTree f.1).run (parserInit f.2 s) = .ok () p →
    p.currentFile = some ns → ∃ t, CommandRun (emitNode f.1.toEnv) Accountable p ns t

lemma observing_load {f : FileLoad} {s u : Asm} (hs : Observing s) (hpending : s.thisLineLabels = [])
    (hc : f.EachAccountable s) (h : f.run.run s = .ok () u) : Observing u := by
  obtain ⟨p, t, hp, ht, hu⟩ := loadSource_parsed h
  have hparsed := observing_parse hs hpending hp
  refine observing_endFile ?_ hu
  rcases ht with ⟨-, rfl⟩ | ⟨ns, hprint, hf, ht⟩
  · exact hparsed
  · obtain ⟨_, v, hv, ht⟩ := ok_of_bind ht
    obtain ⟨w, hw⟩ := hc hprint p ns hp hf
    have hvw : v = w := by
      have hrun := emitNodes_run.mpr (hw.mono fun _ _ _ => trivial)
      rw [hv] at hrun
      cases hrun
      rfl
    subst hvw
    have hemitted := observing_emitNodes hw hparsed
    have hb := (recordRel_sameBindings.clearLabels f.1.toEnv).ok ht hemitted.wellFormed
    have hk := ((placeRel_keepsTold f.1.toEnv).clearLabels f.1.toEnv).ok ht hemitted.told
    exact ⟨hb.wellFormed, hk, hb.labelsTold hemitted.labels⟩

lemma load_pending {f : FileLoad} {s u : Asm} (h : f.run.run s = .ok () u) :
    u.thisLineLabels = [] := by
  obtain ⟨t, ht, hu⟩ := loadSource_run h
  exact (endRel_thisLineLabels.endFile.ok hu).trans (parseFile_pending ht)

/-! Sessions. -/

/-- What is loaded into a new world: a file, or after the exception handler the entry of main. -/
inductive LoadStep
  | file (f : FileLoad)
  | declareMain (env : AsmEnv)

namespace LoadStep

def run : LoadStep → Assemble Unit
  | .file f => f.run
  | .declareMain env => loadHandler.declareMain env

def EachAccountable (s : Asm) : LoadStep → Prop
  | .file f => f.EachAccountable s
  | .declareMain _ => True

end LoadStep

lemma lookupLabel_pending {N : String} {l : LabelRef} {s t : Asm}
    (h : (lookupLabel N).run s = .ok l t) : t.thisLineLabels = s.thisLineLabels := by
  rcases lookupLabel_run h with ⟨-, rfl⟩ | ⟨-, -, rfl⟩ <;> rfl

lemma recordLabel_pending {env : Env} {N : String} {a : Word} {resolve : Bool} {l : LabelRef}
    {s t : Asm} (hw : s.WellFormed) (h : (recordLabel env N a resolve).run s = .ok l t) :
    t.thisLineLabels = s.thisLineLabels := by
  obtain ⟨k, u, hu, h⟩ := ok_of_bind h
  obtain ⟨_, _, hr, h⟩ := ok_of_bind h
  cases h
  have hwu := (symbolsKeep_wellFormed.lookupLabel hw hu).1
  rcases recordEntry_run (hwu.noGp _) hr with hr | hr
  · exact hr.pending.trans (lookupLabel_pending hu)
  · exact hr.pending.trans (lookupLabel_pending hu)

/-- The entry of main after the handler, if it is made. -/
lemma declareMain_run {env : AsmEnv} {s t : Asm} (h : (loadHandler.declareMain env).run s = .ok () t) :
    t = s ∨ ∃ l k u, (makeLabelGlobal "main").run s = .ok l u ∧
      (recordLabel env.toEnv "main" 0 false).run u = .ok k t := by
  change (onlyIf (env.bareMachine = false) _).run s = _ at h
  by_cases hb : env.bareMachine = false
  · rw [onlyIf_pos hb] at h
    obtain ⟨l, u, hu, h⟩ := ok_of_bind h
    obtain ⟨k, _, hk, h⟩ := ok_of_bind h
    cases h
    exact Or.inr ⟨l, k, u, hu, hk⟩
  · rw [onlyIf_neg hb] at h
    cases h
    exact Or.inl rfl

/-- A step of loading leads from one state without waiting labels to another. -/
lemma step_pending {i : LoadStep} {s t : Asm} (hw : s.WellFormed) (hp : s.thisLineLabels = [])
    (h : i.run.run s = .ok () t) : t.WellFormed ∧ t.thisLineLabels = [] := by
  cases i with
  | file f => exact ⟨wellFormed_load hw h, load_pending h⟩
  | declareMain env =>
    rcases declareMain_run h with rfl | ⟨l, k, u, hu, hk⟩
    · exact ⟨hw, hp⟩
    · have hwu := ((recordRel_sameBindings.makeLabelGlobal trivial).ok hu hw).wellFormed
      refine ⟨(symbolsKeep_wellFormed.recordLabel trivial hwu hk).1, ?_⟩
      obtain ⟨l, v, hv, hu⟩ := ok_of_bind hu
      cases hu
      exact (recordLabel_pending hwu hk).trans ((lookupLabel_pending hv).trans hp)

lemma observing_step {i : LoadStep} {s t : Asm} (hs : Observing s) (hp : s.thisLineLabels = [])
    (hc : i.EachAccountable s) (h : i.run.run s = .ok () t) : Observing t := by
  cases i with
  | file f => exact observing_load hs hp hc h
  | declareMain env =>
    rcases declareMain_run h with rfl | ⟨l, k, u, hu, hk⟩
    · exact hs
    · have hb := (recordRel_sameBindings.makeLabelGlobal trivial).ok hu hs.wellFormed
      have hR := (placeRel_keepsTold env.toEnv).toRecordRel
      have htold := (hR.makeLabelGlobal trivial).ok hu hs.told
      exact ⟨(symbolsKeep_wellFormed.recordLabel trivial hb.wellFormed hk).1,
        (hR.record env.toEnv "main" 0 false trivial).ok hk htold,
        labelsTold_recordLabel hb.wellFormed (hb.labelsTold hs.labels) (fun _ _ _ _ => rfl) hk⟩

/-- An observer is installed: what it is told is counted from here. -/
def Asm.installObserver (s : Asm) : Asm := { s with events := [] }

/-- The steps `before` are loaded into a new world, then an observer is installed, and the steps `is`
lead to `s`, where every statement may be accounted for. -/
def ObservedRun (env : AsmEnv) (before is : List LoadStep) (s : Asm) : Prop :=
  ∃ s₀, CommandRun LoadStep.run (fun _ _ => True) (.fresh env) before s₀ ∧
    CommandRun LoadStep.run LoadStep.EachAccountable s₀.installObserver is s

/-- The observer was told of every datum and of every instruction in text once, with its address and
the bytes of the datum, and labels have the addresses that it was told. -/
structure Accounted (s : Asm) : Prop extends Told s where
  labels : ∀ x ∈ s.reportedLabels, (s.label x.2).addr = x.1

lemma Observing.accounted {s : Asm} (h : Observing s) : Accounted s := ⟨h.told, h.labels.told⟩

lemma observing_run {env : AsmEnv} {before is : List LoadStep} {s : Asm}
    (h : ObservedRun env before is s) : Observing s ∧ s.thisLineLabels = [] := by
  obtain ⟨s₀, hbefore, his⟩ := h
  have hs₀ : s₀.WellFormed ∧ s₀.thisLineLabels = [] := by
    refine hbefore.invariant (fun _ _ _ hs _ hr => step_pending hs.1 hs.2 hr)
      ⟨fresh_wellFormed env, ?_⟩
    exact (symbols_eq_iff.mp (fresh_symbols env)).2.2.1
  refine his.invariant (P := fun s => Observing s ∧ s.thisLineLabels = [])
    (fun _ _ _ hs hc hr => ?_) ⟨⟨{ hs₀.1 with }, ⟨rfl, rfl⟩, ?_⟩, hs₀.2⟩
  · exact ⟨observing_step hs.1 hs.2 hc hr, (step_pending hs.1.wellFormed hs.2 hr).2⟩
  · constructor <;> simp [Asm.reportedLabels, Asm.installObserver]

/-- A statement that neither defines nor moves labels. -/
lemma accountable_plain {n : NodeRef × AstNode} (s : Asm) (hf : n.2.hasFloat = false)
    (hm : n.2.moveTo s = none) (hb : n.2.binds (n.2.align s) = none) : Accountable s n where
  noFloat := hf
  stays _ _ _ b h := by
    rw [hm] at h
    cases h
  binds c h := by
    rw [hb] at h
    cases h

/-- A label with the observer installed before it. -/
lemma accountable_label {k : NodeRef} {name : String} {s : Asm} (h : s.reportedLabels = []) :
    Accountable s (k, .labelNormal name) where
  noFloat := rfl
  stays _ _ _ b h := by cases h
  binds c _ x hx := by
    rw [h] at hx
    cases hx

/-- A label, an instruction and a datum. -/
def smallFile : List Lexeme :=
  [.ident ".text" (some (.dir .text)), .nl,
    .ident "x" none, .punct ':', .ident "ssnop" (some (.op .ssnop)), .nl,
    .ident ".data" (some (.dir .data)), .nl, .ident ".byte" (some (.dir .byte)), .int 1, .nl]

def byteNode : AstNode := .dataInt .byte [⟨1, none, 0, false⟩]

def smallTree : List (NodeRef × AstNode) :=
  [(0, .dirSeg .text none), (1, .labelNormal "x"), (2, ssnopNode), (3, .dirSeg .data none),
    (4, byteNode)]

lemma smallFile_accountable :
    FileLoad.EachAccountable (Asm.fresh { Env.quiet with }).installObserver
      ({ Env.quiet with }, smallFile) := by
  intro _ p ns hp hns
  have h : returnsTo (parseTree { Env.quiet with })
      (parserInit smallFile (Asm.fresh { Env.quiet with }).installObserver) (fun p =>
        decide (p.currentFile = some smallTree) &&
          returnsTo (emitNode Env.quiet (0, .dirSeg .text none)) p fun s =>
            decide (s.reportedLabels = []) &&
              returnsTo (emitNodes Env.quiet smallTree.tail) s fun _ => true) = true := by
    decide +kernel
  obtain ⟨q, hq, h⟩ := of_returnsTo h
  rw [hp] at hq
  cases hq
  obtain ⟨hf, h⟩ := Bool.and_eq_true_iff.mp h
  cases hns.symm.trans (of_decide_eq_true hf)
  obtain ⟨s, hs, h⟩ := of_returnsTo h
  obtain ⟨hl, h⟩ := Bool.and_eq_true_iff.mp h
  obtain ⟨t, ht, -⟩ := of_returnsTo h
  refine ⟨t, .cons (accountable_plain _ rfl rfl rfl) hs ?_⟩
  cases emitNodes_run.mp ht with
  | cons _ h₁ h =>
    refine .cons (accountable_label (of_decide_eq_true hl)) h₁ ?_
    cases h with
    | cons _ h₂ h =>
      refine .cons (accountable_plain _ rfl rfl rfl) h₂ ?_
      cases h with
      | cons _ h₃ h =>
        refine .cons (accountable_plain _ rfl rfl rfl) h₃ ?_
        cases h with
        | cons _ h₄ h =>
          cases h
          exact .cons (accountable_plain _ rfl rfl rfl) h₄ (.nil _)

/-- The directive .float with one value. -/
def floatFile : List Lexeme :=
  [.ident ".data" (some (.dir .data)), .nl, .ident ".float" (some (.dir .float)), .fp 0, .nl]

/-- A label on a word that its alignment moves. -/
def movedLabel : List Lexeme :=
  [.ident ".data" (some (.dir .data)), .nl, .ident ".byte" (some (.dir .byte)), .int 1, .nl,
    .ident "x" none, .punct ':', .ident ".word" (some (.dir .word)), .int 2, .nl]

/-- A program's main. -/
def mainFile : List Lexeme :=
  [.ident "main" none, .punct ':', .ident "ssnop" (some (.op .ssnop)), .nl]

/-- The steps are loaded into a new world with an observer installed. -/
def ObservedLoads (is : List LoadStep) (s : Asm) : Prop :=
  CommandRun LoadStep.run (fun _ _ => True) (Asm.fresh { Env.quiet with }).installObserver is s

lemma observedLoads_of_eval (is : List LoadStep) (p : Asm → Prop) [DecidablePred p]
    (h : (CommandRun.eval LoadStep.run (fun _ _ => True) is
      (Asm.fresh { Env.quiet with }).installObserver).any (fun s => p s) = true) :
    ∃ s, ObservedLoads is s ∧ p s := by
  obtain ⟨s, hs, hp⟩ := CommandRun.exists_of_eval h
  exact ⟨s, hs, of_decide_eq_true hp⟩

end Spimulator
