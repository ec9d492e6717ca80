import Mathlib.Tactic.IntervalCases
import Spimulator.DataMemory
import Spimulator.Library.Alignment
import Spimulator.Run

/-! Unaligned words: lwl, lwr, swl and swr as moves of bytes, and the pairs that they form. -/
namespace Spimulator
open ByteStore

/-! The bytes of the merges. -/

lemma toNat_and_three (a : Word) : (a &&& 3).toNat = a.toNat % 4 := by
  rw [BitVec.toNat_and]
  exact Nat.and_two_pow_sub_one_eq_mod _ 2

section

variable (a reg word : Word) {i : ℕ} (hi : i < 4)

include hi

/-- lwl puts the bytes of the word up to the one addressed at the top of the register. -/
lemma byteOf_mergeLwl : byteOf (mergeLwl a reg word) i =
    if 3 ≤ i + a.toNat % 4 then byteOf word (i + a.toNat % 4 - 3) else byteOf reg i := by
  have hr : a.toNat % 4 < 4 := Nat.mod_lt _ (by norm_num)
  rw [mergeLwl, toNat_and_three]
  generalize a.toNat % 4 = r at hr
  interval_cases r <;> interval_cases i <;>
    simp [byteOf_or, byteOf_mask, byteOf_ofNat, byteOf_shiftLeft _ (s := 24) (k := 3) rfl,
      byteOf_shiftLeft _ (s := 16) (k := 2) rfl, byteOf_shiftLeft _ (s := 8) (k := 1) rfl]

/-- lwr puts the bytes of the word from the one addressed at the bottom of the register. -/
lemma byteOf_mergeLwr : byteOf (mergeLwr a reg word) i =
    if i + a.toNat % 4 < 4 then byteOf word (i + a.toNat % 4) else byteOf reg i := by
  have hr : a.toNat % 4 < 4 := Nat.mod_lt _ (by norm_num)
  rw [mergeLwr, toNat_and_three]
  generalize a.toNat % 4 = r at hr
  interval_cases r <;> interval_cases i <;>
    simp [byteOf_or, byteOf_mask, byteOf_ofNat, byteOf_of_ge,
      byteOf_ushiftRight _ (s := 24) (k := 3) rfl, byteOf_ushiftRight _ (s := 16) (k := 2) rfl,
      byteOf_ushiftRight _ (s := 8) (k := 1) rfl]

/-- swl puts the top of the register in the bytes of the word up to the one addressed. -/
lemma byteOf_mergeSwl : byteOf (mergeSwl a reg word) i =
    if i ≤ a.toNat % 4 then byteOf reg (i + 3 - a.toNat % 4) else byteOf word i := by
  have hr : a.toNat % 4 < 4 := Nat.mod_lt _ (by norm_num)
  rw [mergeSwl, toNat_and_three]
  generalize a.toNat % 4 = r at hr
  interval_cases r <;> interval_cases i <;>
    simp [byteOf_or, byteOf_mask, byteOf_ofNat, byteOf_ushiftRight _ (s := 24) (k := 3) rfl,
      byteOf_ushiftRight _ (s := 16) (k := 2) rfl, byteOf_ushiftRight _ (s := 8) (k := 1) rfl]

/-- swr puts the bottom of the register in the bytes of the word from the one addressed. -/
lemma byteOf_mergeSwr : byteOf (mergeSwr a reg word) i =
    if a.toNat % 4 ≤ i then byteOf reg (i - a.toNat % 4) else byteOf word i := by
  have hr : a.toNat % 4 < 4 := Nat.mod_lt _ (by norm_num)
  rw [mergeSwr, toNat_and_three]
  generalize a.toNat % 4 = r at hr
  interval_cases r <;> interval_cases i <;>
    simp [byteOf_or, byteOf_mask, byteOf_ofNat, byteOf_shiftLeft _ (s := 24) (k := 3) rfl,
      byteOf_shiftLeft _ (s := 16) (k := 2) rfl, byteOf_shiftLeft _ (s := 8) (k := 1) rfl]

end

/-! The pairs on an array of bytes. -/

/-- The aligned address of the word around an address. -/
def wordAround (a : Word) : Word := a &&& 0xfffffffc

lemma toNat_wordAround (a : Word) : (wordAround a).toNat = a.toNat - a.toNat % 4 := by
  have hmask : (0xfffffffc : Word) = BitVec.allOnes 32 <<< 2 := rfl
  rw [wordAround, hmask, Alignment.toNat_and_allOnes_shiftLeft]
  omega

lemma wordAround_aligned (a : Word) : wordAround a &&& Width.word.mask = 0 := by
  rw [Width.and_mask_eq_zero, toNat_wordAround]
  simp only [Width.bytes]
  omega

lemma toNat_add_three (a : Word) : (a+3).toNat = (a.toNat + 3) % 2^32 := BitVec.toNat_add a 3

lemma add_ofNat_eq {x y : Word} {j i : ℕ} (h : (x.toNat + j) % 2^32 = (y.toNat + i) % 2^32) :
    x + BitVec.ofNat 32 j = y + BitVec.ofNat 32 i := by
  apply BitVec.eq_of_toNat_eq
  rw [BitVec.toNat_add, BitVec.toNat_add, BitVec.toNat_ofNat, BitVec.toNat_ofNat,
    Nat.add_mod_mod, Nat.add_mod_mod, h]

lemma eq_of_bytes {v v' : Word} (h : ∀ i < 4, byteOf v i = byteOf v' i) : v = v' := by
  have hv : readLE 4 (byteOf v) 0 = v := readLE_bytes fun i _ => by rw [Nat.zero_add]
  have hv' : readLE 4 (byteOf v) 0 = v' := readLE_bytes fun i hi => by rw [Nat.zero_add, h i hi]
  exact hv.symm.trans hv'

namespace ByteMap

lemma byteOf_read (f : ByteMap) (a : Word) {i : ℕ} (hi : i < 4) :
    byteOf (f.read .word a) i = f (a + BitVec.ofNat 32 i) := by
  have h : f.read .word a = readLE 4 (fun i => f (a + BitVec.ofNat 32 i)) 0 :=
    BitVec.signExtend_eq _
  rw [h, byteOf_readLE hi, Nat.zero_add]

lemma write_word (f : ByteMap) (a v b : Word) :
    f.write .word a v b = if (b-a).toNat < 4 then byteOf v (b-a).toNat else f b := rfl

/-- lwl and then lwr read the word at an address. -/
lemma lwl_lwr (f : ByteMap) (a v : Word) :
    mergeLwr a (mergeLwl (a+3) v (f.read .word (wordAround (a+3)))) (f.read .word (wordAround a)) =
      f.read .word a := by
  apply eq_of_bytes
  intro i hi
  have ha := a.isLt
  have h3 := toNat_add_three a
  rw [byteOf_read f a hi, byteOf_mergeLwr _ _ _ hi]
  by_cases hlow : i + a.toNat % 4 < 4
  · rw [if_pos hlow, byteOf_read f _ hlow]
    congr 1
    apply add_ofNat_eq
    rw [toNat_wordAround]
    omega
  · rw [if_neg hlow, byteOf_mergeLwl _ _ _ hi, if_pos (by omega), byteOf_read f _ (by omega)]
    congr 1
    apply add_ofNat_eq
    rw [toNat_wordAround]
    omega

/-- swl stores the top of a register up to the address, swr its bottom from the address on. -/
lemma write_mergeSwl (f : ByteMap) (a v : Word) :
    f.write .word (wordAround a) (mergeSwl a v (f.read .word (wordAround a))) =
      fun b => if (a-b).toNat ≤ a.toNat % 4 then byteOf v (3 - (a-b).toNat) else f b := by
  funext b
  have ha := a.isLt
  have hb := b.isLt
  have hsub : (b - wordAround a).toNat = _ := BitVec.toNat_sub _ _
  have hsub' : (a - b).toNat = _ := BitVec.toNat_sub _ _
  rw [toNat_wordAround] at hsub
  rw [write_word]
  by_cases hin : (b - wordAround a).toNat < 4
  · rw [if_pos hin, byteOf_mergeSwl _ _ _ hin, byteOf_read f _ hin]
    by_cases hle : (b - wordAround a).toNat ≤ a.toNat % 4
    · rw [if_pos hle, if_pos (by omega)]
      congr 1
      omega
    · rw [if_neg hle, if_neg (by omega), BitVec.ofNat_toNat, BitVec.setWidth_eq,
        BitVec.add_comm, BitVec.sub_add_cancel]
  · rw [if_neg hin, if_neg (by omega)]

lemma write_mergeSwr (f : ByteMap) (a v : Word) :
    f.write .word (wordAround a) (mergeSwr a v (f.read .word (wordAround a))) =
      fun b => if (b-a).toNat + a.toNat % 4 < 4 then byteOf v (b-a).toNat else f b := by
  funext b
  have ha := a.isLt
  have hb := b.isLt
  have hsub : (b - wordAround a).toNat = _ := BitVec.toNat_sub _ _
  have hsub' : (b - a).toNat = _ := BitVec.toNat_sub _ _
  rw [toNat_wordAround] at hsub
  rw [write_word]
  by_cases hin : (b - wordAround a).toNat < 4
  · rw [if_pos hin, byteOf_mergeSwr _ _ _ hin, byteOf_read f _ hin]
    by_cases hle : a.toNat % 4 ≤ (b - wordAround a).toNat
    · rw [if_pos hle, if_pos (by omega)]
      congr 1
      omega
    · rw [if_neg hle, if_neg (by omega), BitVec.ofNat_toNat, BitVec.setWidth_eq,
        BitVec.add_comm, BitVec.sub_add_cancel]
  · rw [if_neg hin, if_neg (by omega)]

/-- swl and then swr write the word at an address. -/
lemma swl_swr (f : ByteMap) (a v : Word) :
    let g := f.write .word (wordAround (a+3))
      (mergeSwl (a+3) v (f.read .word (wordAround (a+3))))
    g.write .word (wordAround a) (mergeSwr a v (g.read .word (wordAround a))) =
      f.write .word a v := by
  intro g
  rw [write_mergeSwr]
  funext b
  have ha := a.isLt
  have hb := b.isLt
  have h3 := toNat_add_three a
  have hsub : (a + 3 - b).toNat = _ := BitVec.toNat_sub _ _
  have hsub' : (b - a).toNat = _ := BitVec.toNat_sub _ _
  rw [h3] at hsub
  have hg : g b = if (a+3-b).toNat ≤ (a+3).toNat % 4 then byteOf v (3 - (a+3-b).toNat) else f b :=
    congrFun (write_mergeSwl f (a+3) v) b
  rw [write_word]
  by_cases hlow : (b-a).toNat + a.toNat % 4 < 4
  · rw [if_pos hlow, if_pos (by omega)]
  · rw [if_neg hlow, hg]
    by_cases hin : (b-a).toNat < 4
    · rw [if_pos hin, if_pos (by omega)]
      congr 1
      omega
    · rw [if_neg hin, if_neg (by omega)]

/-- A word that was just written is read again, aligned or not. -/
lemma read_write (f : ByteMap) (a v : Word) : (f.write .word a v).read .word a = v := by
  apply eq_of_bytes
  intro i hi
  have hsub : (a + BitVec.ofNat 32 i - a).toNat = i := by
    rw [BitVec.add_comm, BitVec.add_sub_cancel, BitVec.toNat_ofNat]
    omega
  rw [byteOf_read _ _ hi, write_word, hsub, if_pos hi]

end ByteMap

/-! The pairs on a machine. -/

namespace Machine

/-- The address lies in the data, the stack or the kernel data segment. -/
def inside (m : Machine) (a : Word) : Prop := m.inData a ∨ m.inStack a ∨ m.inKData a

instance (m : Machine) (a : Word) : Decidable (m.inside a) := inferInstanceAs (Decidable (_ ∨ _))

/-- `t` has the data memory of `m`, and an instruction can start in it. -/
structure Follows (m t : Machine) : Prop where
  dataSeg : t.dataSeg = m.dataSeg
  stackSeg : t.stackSeg = m.stackSeg
  kDataSeg : t.kDataSeg = m.kDataSeg
  dataTop : t.dataTop = m.dataTop
  stackBot : t.stackBot = m.stackBot
  kDataTop : t.kDataTop = m.kDataTop
  limit : t.stackSizeLimit = m.stackSizeLimit
  flag : t.exceptionOccurred = false

namespace Follows

variable {m t : Machine} (h : m.Follows t)

include h

lemma inData (a : Word) : t.inData a ↔ m.inData a := by
  rw [Machine.inData, Machine.inData, h.dataTop]

lemma inStack (a : Word) : t.inStack a ↔ m.inStack a := by
  rw [Machine.inStack, Machine.inStack, h.stackBot]

lemma inKData (a : Word) : t.inKData a ↔ m.inKData a := by
  rw [Machine.inKData, Machine.inKData, h.kDataTop]

lemma inside (a : Word) : t.inside a ↔ m.inside a :=
  or_congr (h.inData a) (or_congr (h.inStack a) (h.inKData a))

lemma byteAt : t.byteAt = m.byteAt := by
  funext a
  rw [Machine.byteAt, Machine.byteAt, h.dataSeg, h.stackSeg, h.kDataSeg, h.stackBot]
  exact if_congr (h.inData a) rfl
    (if_congr (h.inStack a) rfl (if_congr (h.inKData a) rfl rfl))

lemma bounds (hb : m.Bounds) : t.Bounds where
  data := h.dataTop ▸ hb.data
  stack := h.stackBot ▸ hb.stack
  kData := h.kDataTop ▸ hb.kData
  stackLe := h.stackBot ▸ hb.stackLe
  limit := h.limit ▸ hb.limit

end Follows

end Machine

section

variable {env : Env} {m : Machine} {a : Word}

lemma loadPart_run (hl : env.delayedLoads = false) (hb : m.Bounds)
    (hf : m.exceptionOccurred = false) (h : m.inside (wordAround a)) (merge : Word → Word)
    (rt : RegNo) :
    (loadPart env a merge rt).run m =
      .ok () (m.setGpr rt (merge (m.byteAt.read .word (wordAround a)))) := by
  have hread : (memReadWord (a &&& 0xfffffffc)).run m = .ok _ m :=
    memRead_inside hb (wordAround_aligned a) h
  rw [loadPart, EStateM.run_bind, hread]
  change EStateM.Result.ok () (m.loadInst env (.gpr rt) _) = _
  rw [hf, if_neg Bool.false_ne_true, Machine.loadInst, hl, if_neg Bool.false_ne_true]
  rfl

/-- A store inside a segment does not move the stack. -/
lemma memWrite_stackBot {tbl : AOpcodeTbl} {w : Width} {v : Word} {m' : Machine}
    (ha : a &&& w.mask = 0) (h : m.inside a) (hrun : (memWrite tbl w a v).run m = .ok () m') :
    m'.stackBot = m.stackBot := by
  by_cases hd : m.inData a
  · simp only [memWrite, EStateM.run_bind, EStateM.run_get, hd, ha, and_self, if_true,
      EStateM.run_set] at hrun
    cases hrun
    rfl
  by_cases hs : m.inStack a
  · simp only [memWrite, EStateM.run_bind, EStateM.run_get, hd, hs, ha, and_self, false_and,
      if_false, if_true, EStateM.run_set] at hrun
    cases hrun
    rfl
  · have hk : m.inKData a := (h.resolve_left hd).resolve_left hs
    simp only [memWrite, EStateM.run_bind, EStateM.run_get, hd, hs, hk, ha, and_self, false_and,
      if_false, if_true, EStateM.run_set] at hrun
    cases hrun
    rfl

lemma storePart_run (env : Env) (hb : m.Bounds) (h : m.inside (wordAround a))
    (merge : Word → Word) :
    ∃ m', (storePart env a merge).run m = .ok () m' ∧
      m'.byteAt = m.byteAt.write .word (wordAround a)
        (merge (m.byteAt.read .word (wordAround a))) ∧
      m'.Bounds ∧ (∀ b, m'.inside b ↔ m.inside b) ∧ m'.gpr = m.gpr := by
  have hal := wordAround_aligned a
  have hread : (memReadWord (a &&& 0xfffffffc)).run m = .ok _ m := memRead_inside hb hal h
  obtain ⟨m', hrun, hbytes, hsame, hb'⟩ := memWrite_inside env.tbl hb hal h
    (merge (m.byteAt.read .word (wordAround a)))
  have hbot := memWrite_stackBot hal h hrun
  refine ⟨m', ?_, hbytes, hb', fun b => ?_, by rw [hsame]⟩
  · rw [storePart, EStateM.run_bind, hread]
    exact hrun
  · rw [Machine.SameButData] at hsame
    rw [Machine.inside, Machine.inside, Machine.inData, Machine.inStack, Machine.inKData, hbot,
      congrArg (fun m : Machine => m.dataTop) hsame, congrArg (fun m : Machine => m.kDataTop) hsame]
    rfl

end

/-- The switch carries out an instruction with the given opcode. -/
def Executes (env : Env) {ν : Type} (slot : ν → Exec ν) (s : ν) (op : Opcode) (i : Inst)
    (m m' : Machine) : Prop :=
  (perform env slot s (dispatch env { i with opcode := some op } m)).run m = .ok (.next, s) m'

/-- The left instruction at `a+3` and then, whatever happens between them to other parts of the
machine, the right one at `a` on the same register leave a state with the property. -/
def PairLeaves (env : Env) {ν : Type} (slot : ν → Exec ν) (s : ν) (left right : Opcode) (a : Word)
    (r : RegNo) (m : Machine) (P : Machine → Prop) : Prop :=
  ∀ i j : Inst, i.rt = r → j.rt = r → effAddr i m = a + 3 →
    ∃ m₁, Executes env slot s left i m m₁ ∧
      ∀ t, m₁.Follows t → t.gpr r = m₁.gpr r → effAddr j t = a →
        ∃ m₂, Executes env slot s right j t m₂ ∧ P m₂

section

variable {env : Env} {ν : Type} (slot : ν → Exec ν) (s : ν) {m : Machine} {a : Word}

/-- Where the words around an address and three bytes on lie, the pair of loads reads its word. -/
lemma loadPair (hl : env.delayedLoads = false) (hb : m.Bounds) (hf : m.exceptionOccurred = false)
    (h₀ : m.inside (wordAround a)) (h₃ : m.inside (wordAround (a+3))) (r : RegNo) :
    PairLeaves env slot s .lwl .lwr a r m fun m₂ =>
      m₂.gpr r = m.byteAt.read .word a ∧ m₂.byteAt = m.byteAt := by
  rintro i j rfl hj hi
  let v := mergeLwl (a+3) (m.gpr i.rt) (m.byteAt.read .word (wordAround (a+3)))
  refine ⟨m.setGpr i.rt v, ?_, fun t ht hr hea => ?_⟩
  · have hrun := loadPart_run hl hb hf h₃ (mergeLwl (a+3) (m.gpr i.rt)) i.rt
    rw [Executes]
    change (perform env slot s (.loadPart (effAddr i m) (mergeLwl (effAddr i m) (m.gpr i.rt))
      i.rt)).run m = _
    rw [hi, perform, EStateM.run_bind, hrun]
    rfl
  · have hb₁ : (m.setGpr i.rt v).Bounds := ⟨hb.data, hb.stack, hb.kData, hb.stackLe, hb.limit⟩
    have hbytes : t.byteAt = m.byteAt := ht.byteAt
    have hrun := loadPart_run hl (ht.bounds hb₁) ht.flag ((ht.inside _).mpr h₀) (mergeLwr a v) i.rt
    refine ⟨t.setGpr i.rt (mergeLwr a v (t.byteAt.read .word (wordAround a))), ?_, ?_, hbytes⟩
    · rw [Executes]
      change (perform env slot s (.loadPart (effAddr j t) (mergeLwr (effAddr j t) (t.gpr j.rt))
        j.rt)).run t = _
      have hv : t.gpr i.rt = v := hr.trans (Function.update_self _ _ _)
      rw [hea, hj, hv, perform, EStateM.run_bind, hrun]
      rfl
    · rw [hbytes]
      exact (Function.update_self _ _ _).trans (ByteMap.lwl_lwr m.byteAt a (m.gpr i.rt))

variable (env) in
/-- There the pair of stores writes its word, and the segments stay where they are. -/
lemma storePair (hb : m.Bounds) (h₀ : m.inside (wordAround a)) (h₃ : m.inside (wordAround (a+3)))
    (r : RegNo) :
    PairLeaves env slot s .swl .swr a r m fun m₂ =>
      m₂.byteAt = m.byteAt.write .word a (m.gpr r) ∧ m₂.Bounds ∧
        ∀ b, m₂.inside b ↔ m.inside b := by
  rintro i j rfl hj hi
  obtain ⟨m₁, hrun, hbytes, hb₁, hin, hgpr⟩ :=
    storePart_run env hb h₃ (mergeSwl (a+3) (m.gpr i.rt))
  refine ⟨m₁, ?_, fun t ht hr hea => ?_⟩
  · rw [Executes]
    change (perform env slot s (.storePart (effAddr i m) (mergeSwl (effAddr i m) (m.gpr i.rt)))).run
      m = _
    rw [hi, perform, EStateM.run_bind, hrun]
    rfl
  · obtain ⟨m₂, hrun₂, hbytes₂, hb₂, hin₂, -⟩ := storePart_run env (ht.bounds hb₁)
      ((ht.inside _).mpr ((hin _).mpr h₀)) (mergeSwr a (m.gpr i.rt))
    refine ⟨m₂, ?_, ?_, hb₂, fun b => (hin₂ b).trans ((ht.inside b).trans (hin b))⟩
    · have hv : t.gpr i.rt = m.gpr i.rt := by rw [hr, hgpr]
      rw [Executes]
      change (perform env slot s (.storePart (effAddr j t) (mergeSwr (effAddr j t)
        (t.gpr j.rt)))).run t = _
      rw [hea, hj, hv, perform, EStateM.run_bind, hrun₂]
      rfl
    · rw [hbytes₂, ht.byteAt, hbytes]
      exact ByteMap.swl_swr m.byteAt a (m.gpr i.rt)

end

/-- With delayed loads off, lwl and lwr load the word at any address whose surrounding words lie in
data, stack or kernel data; swl and swr store it there and nowhere else; and a pair of loads after
a pair of stores returns what was stored. -/
theorem unaligned_pairs {env : Env} {ν : Type} (slot : ν → Exec ν) (s : ν) {m : Machine} {a : Word}
    (hl : env.delayedLoads = false) (hb : m.Bounds) (hf : m.exceptionOccurred = false)
    (h₀ : m.inside (wordAround a)) (h₃ : m.inside (wordAround (a+3))) (r : RegNo) :
    PairLeaves env slot s .lwl .lwr a r m (fun m₂ =>
      m₂.gpr r = m.byteAt.read .word a ∧ m₂.byteAt = m.byteAt) ∧
    PairLeaves env slot s .swl .swr a r m (fun m₂ =>
      m₂.byteAt = m.byteAt.write .word a (m.gpr r) ∧
      ∀ t, m₂.Follows t → ∀ r', PairLeaves env slot s .lwl .lwr a r' t fun m₄ =>
        m₄.gpr r' = m.gpr r) := by
  refine ⟨loadPair slot s hl hb hf h₀ h₃ r, fun i j hi hj hea => ?_⟩
  obtain ⟨m₁, hrun, hstore⟩ := storePair env slot s hb h₀ h₃ r i j hi hj hea
  refine ⟨m₁, hrun, fun t ht hr heat => ?_⟩
  obtain ⟨m₂, hrun₂, hbytes, hb₂, hin⟩ := hstore t ht hr heat
  refine ⟨m₂, hrun₂, hbytes, fun u hu r' i' j' hi' hj' hea' => ?_⟩
  obtain ⟨m₃, hrun₃, hload⟩ := loadPair slot s hl (hu.bounds hb₂) hu.flag
    ((hu.inside _).mpr ((hin _).mpr h₀)) ((hu.inside _).mpr ((hin _).mpr h₃)) r' i' j' hi' hj' hea'
  refine ⟨m₃, hrun₃, fun t' ht' hr' heat' => ?_⟩
  obtain ⟨m₄, hrun₄, hv, -⟩ := hload t' ht' hr' heat'
  refine ⟨m₄, hrun₄, hv.trans ?_⟩
  rw [hu.byteAt, hbytes]
  exact ByteMap.read_write m.byteAt a (m.gpr r)

/-- At an address with residue 1 the pairs meet in two words of the data segment. -/
def twoWords : Machine :=
  { ({} : Machine) with dataTop := 0x10000008, stackBot := stackTop, kDataTop := kDataBot }

theorem unaligned_pairs_twoWords :
    PairLeaves Env.quiet (fun s : Unit => pure s) () .lwl .lwr 0x10000001 9 twoWords (fun m₂ =>
      m₂.gpr 9 = twoWords.byteAt.read .word 0x10000001 ∧ m₂.byteAt = twoWords.byteAt) ∧
    PairLeaves Env.quiet (fun s : Unit => pure s) () .swl .swr 0x10000001 9 twoWords (fun m₂ =>
      m₂.byteAt = twoWords.byteAt.write .word 0x10000001 (twoWords.gpr 9) ∧
      ∀ t, m₂.Follows t → ∀ r', PairLeaves Env.quiet (fun s : Unit => pure s) () .lwl .lwr
        0x10000001 r' t fun m₄ => m₄.gpr r' = twoWords.gpr 9) :=
  unaligned_pairs _ _ rfl ⟨by decide, by decide, by decide, by decide, by decide⟩ rfl (by decide)
    (by decide) 9

end Spimulator
