import Spimulator.Memory

/-! Data memory as an array of bytes, and the accessors of memory.c as its refinement. -/
namespace Spimulator
open ByteStore

/-- What data memory is for: one byte at every address. -/
abbrev ByteMap := Word → Byte

namespace ByteMap

def read (w : Width) (f : ByteMap) (a : Word) : Word :=
  (readLE w.bytes (fun i => f (a + BitVec.ofNat 32 i)) 0).signExtend 32

def write (w : Width) (f : ByteMap) (a v : Word) : ByteMap :=
  fun b => if (b-a).toNat < w.bytes then byteOf v (b-a).toNat else f b

end ByteMap

/-! Aligned addresses and aligned ranges. -/

lemma Width.and_mask_eq_zero (w : Width) (a : Word) :
    a &&& w.mask = 0 ↔ a.toNat % w.bytes = 0 := by
  rw [← BitVec.toNat_inj]
  cases w with
  | byte => simp [Width.mask, Width.bytes, Nat.mod_one]
  | half =>
    change a.toNat &&& (2^1-1) = 0 ↔ a.toNat % 2^1 = 0
    rw [Nat.and_two_pow_sub_one_eq_mod]
  | word =>
    change a.toNat &&& (2^2-1) = 0 ↔ a.toNat % 2^2 = 0
    rw [Nat.and_two_pow_sub_one_eq_mod]

lemma Width.bytes_dvd (w : Width) {n : ℕ} (h : n % 4 = 0) : n % w.bytes = 0 := by
  cases w <;> simp only [Width.bytes] <;> omega

/-- Every byte of an aligned element lies on the same side of an aligned bound as the first. -/
lemma le_add_iff (w : Width) {a b : Word} {i : ℕ} (ha : a.toNat % w.bytes = 0)
    (hb : b.toNat % 4 = 0) (hi : i < w.bytes) :
    b ≤ a + BitVec.ofNat 32 i ↔ b ≤ a := by
  have ha4 := a.isLt
  rw [BitVec.le_def, BitVec.le_def, BitVec.toNat_add, BitVec.toNat_ofNat]
  cases w <;> simp only [Width.bytes] at ha hi <;> omega

lemma add_toNat (w : Width) {a : Word} {i : ℕ} (ha : a.toNat % w.bytes = 0)
    (hi : i < w.bytes) : (a + BitVec.ofNat 32 i).toNat = a.toNat + i := by
  have ha4 := a.isLt
  rw [BitVec.toNat_add, BitVec.toNat_ofNat]
  cases w <;> simp only [Width.bytes] at ha hi <;> omega

/-! The view of a machine's data memory. -/

namespace Machine

/-- The byte at an address: that of the segment the accessors look in, else 0. -/
def byteAt (m : Machine) : ByteMap := fun a =>
  if m.inData a then m.dataSeg (a - dataBot).toNat
  else if m.inStack a then m.stackSeg (a - m.stackBot).toNat
  else if m.inKData a then m.kDataSeg (a - kDataBot).toNat
  else 0

lemma byteAt_of_data {m : Machine} {a : Word} (h : m.inData a) :
    m.byteAt a = m.dataSeg (a - dataBot).toNat := by
  rw [byteAt, if_pos h]

lemma byteAt_of_stack {m : Machine} {a : Word} (hd : ¬ m.inData a) (h : m.inStack a) :
    m.byteAt a = m.stackSeg (a - m.stackBot).toNat := by
  rw [byteAt, if_neg hd, if_pos h]

lemma byteAt_of_not_stack {m : Machine} {a : Word} (hd : ¬ m.inData a) (hs : ¬ m.inStack a) :
    m.byteAt a = if m.inKData a then m.kDataSeg (a - kDataBot).toNat else 0 := by
  rw [byteAt, if_neg hd, if_neg hs]

/-- The bounds of the data segments are word-aligned, the stack ends at its top, and its limit
is an int. -/
structure Bounds (m : Machine) : Prop where
  data : m.dataTop.toNat % 4 = 0
  stack : m.stackBot.toNat % 4 = 0
  kData : m.kDataTop.toNat % 4 = 0
  stackLe : m.stackBot ≤ stackTop
  limit : m.stackSizeLimit < 2^31

/-- An access below the stack that makes it grow within its limit. -/
def grows (m : Machine) (a : Word) : Prop :=
  ¬ m.inText a ∧ m.belowStack a ∧
    (stackTop - m.stackBot).toNat +
      max (roundUp (m.stackBot - a + 4).toInt) (stackTop - m.stackBot).toNat ≤ m.stackSizeLimit

instance (m : Machine) (a : Word) : Decidable (m.grows a) :=
  inferInstanceAs (Decidable (_ ∧ _ ∧ _))

/-- Everything but the data segments and the stack's bottom is as in `m`. -/
def SameButData (m m' : Machine) : Prop :=
  m' = { m with
    dataSeg := m'.dataSeg
    stackSeg := m'.stackSeg
    stackBot := m'.stackBot
    kDataSeg := m'.kDataSeg }

end Machine

lemma range_add_iff (w : Width) {a bot top : Word} {i : ℕ} (ha : a.toNat % w.bytes = 0)
    (hb : bot.toNat % 4 = 0) (ht : top.toNat % 4 = 0) (hi : i < w.bytes) :
    (bot ≤ a + BitVec.ofNat 32 i ∧ a + BitVec.ofNat 32 i < top) ↔ (bot ≤ a ∧ a < top) := by
  rw [le_add_iff w ha hb hi, ← BitVec.not_le, ← BitVec.not_le, le_add_iff w ha ht hi]

/-- The offset of an aligned element in its segment. -/
lemma offset_eq (w : Width) {a bot : Word} (ha : a.toNat % w.bytes = 0)
    (hb : bot.toNat % 4 = 0) (h : bot ≤ a) :
    w.bytes * ((a-bot).toNat / w.bytes) = (a-bot).toNat := by
  have hle := BitVec.le_def.mp h
  have hlt := a.isLt
  rw [BitVec.toNat_sub_of_le h]
  cases w <;> simp only [Width.bytes] at ha ⊢ <;> omega

lemma offset_add (w : Width) {a bot : Word} {i : ℕ} (ha : a.toNat % w.bytes = 0)
    (hb : bot.toNat % 4 = 0) (h : bot ≤ a) (hi : i < w.bytes) :
    (a + BitVec.ofNat 32 i - bot).toNat = (a-bot).toNat + i := by
  have hle := BitVec.le_def.mp h
  rw [BitVec.toNat_sub_of_le ((le_add_iff w ha hb hi).mpr h), BitVec.toNat_sub_of_le h,
    add_toNat w ha hi]
  omega

/-- Fetching an aligned element reads the bytes at its addresses. -/
lemma fetch_eq_read (w : Width) {a bot : Word} {seg : Store} {f : ByteMap}
    (ha : a.toNat % w.bytes = 0) (hb : bot.toNat % 4 = 0) (h : bot ≤ a)
    (hf : ∀ i < w.bytes, f (a + BitVec.ofNat 32 i) = seg (a + BitVec.ofNat 32 i - bot).toNat) :
    w.fetch seg (a-bot).toNat = f.read w a := by
  rw [Width.fetch, ByteMap.read, offset_eq w ha hb h]
  congr 1
  apply readLE_congr
  intro i hi
  rw [Nat.zero_add, hf i hi, offset_add w ha hb h hi]

lemma byteOf_setWidth (w : Width) (v : Word) {i : ℕ} (hi : i < w.bytes) :
    byteOf (v.setWidth (8*w.bytes)) i = byteOf v i := by
  apply BitVec.eq_of_getLsbD_eq
  intro j hj
  have h : 8*i+j < 8*w.bytes := by omega
  simp only [byteOf, BitVec.getLsbD_extractLsb', BitVec.getLsbD_setWidth, h, decide_true,
    Bool.true_and]

/-- Storing an aligned element changes the bytes at its addresses and no others. -/
lemma store_apply (w : Width) {a b bot : Word} {seg : Store} {v : Word}
    (ha : a.toNat % w.bytes = 0) (hb : bot.toNat % 4 = 0) (h : bot ≤ a) (hbb : bot ≤ b) :
    w.store seg (a-bot).toNat v (b-bot).toNat =
      if (b-a).toNat < w.bytes then byteOf v (b-a).toNat else seg (b-bot).toNat := by
  have hle := BitVec.le_def.mp h
  have hle' := BitVec.le_def.mp hbb
  have hoff := BitVec.toNat_sub_of_le h
  have hoff' := BitVec.toNat_sub_of_le hbb
  have hsub := BitVec.toNat_sub b a
  have hb4 := b.isLt
  have ha4 := a.isLt
  have hw : a.toNat + w.bytes ≤ 2^32 := by
    cases w <;> simp only [Width.bytes] at ha ⊢ <;> omega
  rw [Width.store, offset_eq w ha hb h, writeLE]
  by_cases hlt : (b-a).toNat < w.bytes
  · have hba : a.toNat ≤ b.toNat := by omega
    rw [if_pos hlt, if_pos (by omega), show (b-bot).toNat-(a-bot).toNat = (b-a).toNat by omega]
    exact byteOf_setWidth w v hlt
  · rw [if_neg hlt, if_neg (by omega)]

/-! One access. -/

section

variable {m : Machine} {w : Width} {a : Word}

lemma inData_add (hb : m.Bounds) (ha : a.toNat % w.bytes = 0) {i : ℕ} (hi : i < w.bytes) :
    m.inData (a + BitVec.ofNat 32 i) ↔ m.inData a :=
  range_add_iff w ha (by decide) hb.data hi

lemma inStack_add (hb : m.Bounds) (ha : a.toNat % w.bytes = 0) {i : ℕ} (hi : i < w.bytes) :
    m.inStack (a + BitVec.ofNat 32 i) ↔ m.inStack a :=
  range_add_iff w ha hb.stack (by decide) hi

lemma inKData_add (hb : m.Bounds) (ha : a.toNat % w.bytes = 0) {i : ℕ} (hi : i < w.bytes) :
    m.inKData (a + BitVec.ofNat 32 i) ↔ m.inKData a :=
  range_add_iff w ha (by decide) hb.kData hi

/-- All bytes of an aligned element lie in the segment of the first. -/
lemma byteAt_add (hb : m.Bounds) (ha : a.toNat % w.bytes = 0) {i : ℕ} (hi : i < w.bytes) :
    m.byteAt (a + BitVec.ofNat 32 i) =
      if m.inData a then m.dataSeg (a + BitVec.ofNat 32 i - dataBot).toNat
      else if m.inStack a then m.stackSeg (a + BitVec.ofNat 32 i - m.stackBot).toNat
      else if m.inKData a then m.kDataSeg (a + BitVec.ofNat 32 i - kDataBot).toNat
      else 0 := by
  simp only [Machine.byteAt, inData_add hb ha hi, inStack_add hb ha hi, inKData_add hb ha hi]

/-- A read inside a segment returns the bytes at its addresses and changes nothing. -/
theorem memRead_inside (hb : m.Bounds) (ha : a &&& w.mask = 0)
    (h : m.inData a ∨ m.inStack a ∨ m.inKData a) :
    (memRead w a).run m = .ok (m.byteAt.read w a) m := by
  have hal := (w.and_mask_eq_zero a).mp ha
  have hbyte : ∀ i < w.bytes, _ := fun i hi => byteAt_add hb hal hi
  by_cases hd : m.inData a
  · simp only [hd, if_true] at hbyte
    simp only [memRead, EStateM.run_bind, EStateM.run_get, hd, ha, and_self, if_true,
      EStateM.run_pure, fetch_eq_read w hal (by decide) hd.1 hbyte]
  by_cases hs : m.inStack a
  · simp only [hd, hs, if_false, if_true] at hbyte
    simp only [memRead, EStateM.run_bind, EStateM.run_get, hd, hs, ha, and_self, false_and,
      if_false, if_true, EStateM.run_pure, fetch_eq_read w hal hb.stack hs.1 hbyte]
  · have hk : m.inKData a := (h.resolve_left hd).resolve_left hs
    simp only [hd, hs, hk, if_false, if_true] at hbyte
    simp only [memRead, EStateM.run_bind, EStateM.run_get, hd, hs, hk, ha, and_self, false_and,
      if_false, if_true, EStateM.run_pure, fetch_eq_read w hal (by decide) hk.1 hbyte]

/-- An address outside the segment of an aligned element is none of the element's. -/
lemma not_in_element {P : Word → Prop} (hP : ∀ i < w.bytes, (P (a + BitVec.ofNat 32 i) ↔ P a))
    (ha : P a) {b : Word} (hb : ¬ P b) : ¬ (b-a).toNat < w.bytes := by
  intro hi
  apply hb
  have h := (hP _ hi).mpr ha
  rwa [BitVec.ofNat_toNat, BitVec.setWidth_eq, BitVec.add_comm, BitVec.sub_add_cancel] at h

lemma not_in_element' {P : Word → Prop} (hP : ∀ i < w.bytes, (P (a + BitVec.ofNat 32 i) ↔ P a))
    (ha : ¬ P a) {b : Word} (hb : P b) : ¬ (b-a).toNat < w.bytes :=
  not_in_element (P := fun c => ¬ P c) (fun i hi => not_congr (hP i hi)) ha (not_not.mpr hb)

lemma byteAt_storeData (hb : m.Bounds) (ha : a.toNat % w.bytes = 0) (hd : m.inData a)
    (v : Word) : (m.storeData w a v).byteAt = m.byteAt.write w a v := by
  funext b
  rw [ByteMap.write]
  by_cases hbd : m.inData b
  · have h' : (m.storeData w a v).byteAt b = _ := Machine.byteAt_of_data hbd
    rw [h', Machine.byteAt_of_data hbd]
    exact store_apply w ha (by decide) hd.1 hbd.1
  · rw [if_neg (not_in_element (fun i => inData_add hb ha) hd hbd)]
    have hbd' : ¬ (m.storeData w a v).inData b := hbd
    simp only [Machine.byteAt, hbd, hbd', if_false]
    rfl

lemma byteAt_storeStack (hb : m.Bounds) (ha : a.toNat % w.bytes = 0) (hd : ¬ m.inData a)
    (hs : m.inStack a) (v : Word) : (m.storeStack w a v).byteAt = m.byteAt.write w a v := by
  funext b
  rw [ByteMap.write]
  by_cases hbd : m.inData b
  · have h' : (m.storeStack w a v).byteAt b = _ := Machine.byteAt_of_data hbd
    rw [h', Machine.byteAt_of_data hbd,
      if_neg (not_in_element' (fun i => inData_add hb ha) hd hbd)]
    rfl
  by_cases hbs : m.inStack b
  · have h' : (m.storeStack w a v).byteAt b = _ := Machine.byteAt_of_stack hbd hbs
    rw [h', Machine.byteAt_of_stack hbd hbs]
    exact store_apply w ha hb.stack hs.1 hbs.1
  · rw [if_neg (not_in_element (fun i => inStack_add hb ha) hs hbs)]
    have h' : (m.storeStack w a v).byteAt b = _ := Machine.byteAt_of_not_stack hbd hbs
    rw [h', Machine.byteAt_of_not_stack hbd hbs]
    rfl

lemma byteAt_storeKData (hb : m.Bounds) (ha : a.toNat % w.bytes = 0) (hd : ¬ m.inData a)
    (hs : ¬ m.inStack a) (hk : m.inKData a) (v : Word) :
    (m.storeKData w a v).byteAt = m.byteAt.write w a v := by
  funext b
  rw [ByteMap.write]
  by_cases hbd : m.inData b
  · have h' : (m.storeKData w a v).byteAt b = _ := Machine.byteAt_of_data hbd
    rw [h', Machine.byteAt_of_data hbd,
      if_neg (not_in_element' (fun i => inData_add hb ha) hd hbd)]
    rfl
  by_cases hbs : m.inStack b
  · have h' : (m.storeKData w a v).byteAt b = _ := Machine.byteAt_of_stack hbd hbs
    rw [h', Machine.byteAt_of_stack hbd hbs,
      if_neg (not_in_element' (fun i => inStack_add hb ha) hs hbs)]
    rfl
  have h' : (m.storeKData w a v).byteAt b = _ := Machine.byteAt_of_not_stack hbd hbs
  rw [h', Machine.byteAt_of_not_stack hbd hbs]
  by_cases hbk : m.inKData b
  · have hbk' : (m.storeKData w a v).inKData b := hbk
    rw [if_pos hbk, if_pos hbk']
    exact store_apply w ha (by decide) hk.1 hbk.1
  · have hbk' : ¬ (m.storeKData w a v).inKData b := hbk
    rw [if_neg hbk, if_neg hbk', if_neg (not_in_element (fun i => inKData_add hb ha) hk hbk)]

/-- A write inside a segment replaces the bytes at its addresses. -/
theorem memWrite_inside (tbl : AOpcodeTbl) (hb : m.Bounds) (ha : a &&& w.mask = 0)
    (h : m.inData a ∨ m.inStack a ∨ m.inKData a) (v : Word) :
    ∃ m', (memWrite tbl w a v).run m = .ok () m' ∧ m'.byteAt = m.byteAt.write w a v ∧
      m.SameButData m' ∧ m'.Bounds := by
  have hal := (w.and_mask_eq_zero a).mp ha
  by_cases hd : m.inData a
  · refine ⟨m.storeData w a v, ?_, byteAt_storeData hb hal hd v, rfl,
      ⟨hb.data, hb.stack, hb.kData, hb.stackLe, hb.limit⟩⟩
    simp only [memWrite, EStateM.run_bind, EStateM.run_get, hd, ha, and_self, if_true,
      EStateM.run_set]
  by_cases hs : m.inStack a
  · refine ⟨m.storeStack w a v, ?_, byteAt_storeStack hb hal hd hs v, rfl,
      ⟨hb.data, hb.stack, hb.kData, hb.stackLe, hb.limit⟩⟩
    simp only [memWrite, EStateM.run_bind, EStateM.run_get, hd, hs, ha, and_self, false_and,
      if_false, if_true, EStateM.run_set]
  · have hk : m.inKData a := (h.resolve_left hd).resolve_left hs
    refine ⟨m.storeKData w a v, ?_, byteAt_storeKData hb hal hd hs hk v, rfl,
      ⟨hb.data, hb.stack, hb.kData, hb.stackLe, hb.limit⟩⟩
    simp only [memWrite, EStateM.run_bind, EStateM.run_get, hd, hs, hk, ha, and_self, false_and,
      if_false, if_true, EStateM.run_set]

/-! Growth of the stack. -/

lemma le_roundUp (v : ℤ) : v ≤ roundUp v := by
  unfold roundUp
  omega

lemma roundUp_lt (v : ℤ) : roundUp v < v + 4 := by
  unfold roundUp
  omega

lemma roundUp_mod (v : ℤ) : roundUp v % 4 = 0 := by
  unfold roundUp
  omega

lemma stackTop_toNat : stackTop.toNat = 2^31 := rfl

lemma lowered_toNat {bot : Word} {n : ℕ} (h : n ≤ bot.toNat) :
    (bot - BitVec.ofNat 32 n).toNat = bot.toNat - n := by
  have h32 := bot.isLt
  rw [BitVec.toNat_sub, BitVec.toNat_ofNat]
  omega

/-- Moving a stack of `words` words up by `shift` words keeps every byte of memory; the bytes
it gains are 0 as before. -/
lemma byteAt_moveStack {words shift : ℕ} (hw : m.stackBot.toNat + 4*words = 2^31)
    (hs : 4*shift ≤ m.stackBot.toNat) : (m.moveStack words shift (4*shift)).byteAt = m.byteAt := by
  have hbot : (m.moveStack words shift (4*shift)).stackBot.toNat = m.stackBot.toNat - 4*shift :=
    lowered_toNat hs
  funext b
  by_cases hbd : m.inData b
  · rw [Machine.byteAt_of_data hbd]
    exact Machine.byteAt_of_data hbd
  have hbd' : ¬ (m.moveStack words shift (4*shift)).inData b := hbd
  by_cases hbs : (m.moveStack words shift (4*shift)).inStack b
  · rw [Machine.byteAt_of_stack hbd' hbs]
    have hle := BitVec.le_def.mp hbs.1
    have hlt := BitVec.lt_def.mp hbs.2
    rw [BitVec.toNat_sub_of_le hbs.1, hbot]
    rw [hbot] at hle
    rw [stackTop_toNat] at hlt
    change copyWords m.stackSeg shift words (fun _ => 0) _ = _
    rw [copyWords_apply]
    by_cases hold : m.inStack b
    · have hle' := BitVec.le_def.mp hold.1
      rw [Machine.byteAt_of_stack hbd hold, BitVec.toNat_sub_of_le hold.1, if_pos (by omega)]
      congr 1
      omega
    · have hlt' : ¬ m.stackBot.toNat ≤ b.toNat := fun h => hold ⟨BitVec.le_def.mpr h, hbs.2⟩
      have hnk : ¬ m.inKData b := by
        intro h
        have hk := BitVec.le_def.mp h.1
        have hkb : kDataBot.toNat = 0x90000000 := rfl
        omega
      rw [Machine.byteAt_of_not_stack hbd hold, if_neg hnk, if_neg (by omega)]
  · have hold : ¬ m.inStack b := by
      intro h
      have hle := BitVec.le_def.mp h.1
      refine hbs ⟨BitVec.le_def.mpr ?_, h.2⟩
      omega
    rw [Machine.byteAt_of_not_stack hbd' hbs, Machine.byteAt_of_not_stack hbd hold]
    rfl

lemma bounds_moveStack (hb : m.Bounds) {words shift : ℕ} (hs : 4*shift ≤ m.stackBot.toNat) :
    (m.moveStack words shift (4*shift)).Bounds := by
  have hbot := lowered_toNat hs
  have hst := hb.stack
  have hle := BitVec.le_def.mp hb.stackLe
  refine ⟨hb.data, ?_, hb.kData, BitVec.le_def.mpr ?_, hb.limit⟩
  · change (m.stackBot - BitVec.ofNat 32 (4*shift)).toNat % 4 = 0
    rw [hbot]
    omega
  · change (m.stackBot - BitVec.ofNat 32 (4*shift)).toNat ≤ _
    rw [hbot]
    omega

lemma below_toInt (h : m.belowStack a) :
    a.toNat < m.stackBot.toNat ∧
      (m.stackBot - a + 4).toInt = (m.stackBot.toNat : ℤ) - a.toNat + 4 := by
  obtain ⟨-, hlt, hgt⟩ := h
  have hlt' := BitVec.lt_def.mp hlt
  have hgt' := BitVec.lt_def.mp hgt
  have hs := m.stackBot.isLt
  have hk : (0x1000000 : Word).toNat = 0x1000000 := rfl
  have h4 : (4 : Word).toNat = 4 := rfl
  rw [BitVec.toNat_sub, hk] at hgt'
  have hsum : (m.stackBot - a + 4).toNat = m.stackBot.toNat - a.toNat + 4 := by
    rw [BitVec.toNat_add, BitVec.toNat_sub_of_le (BitVec.le_of_lt hlt), h4]
    omega
  refine ⟨hlt', ?_⟩
  rw [BitVec.toInt_eq_toNat_of_lt (by omega), hsum]
  omega

lemma expandStack_run {n : ℤ} {old : ℕ} (hold : (stackTop - m.stackBot).toNat = old)
    (h : 0 ≤ n) (hlim : (old : ℤ) + max (roundUp n) old ≤ m.stackSizeLimit)
    (hint : m.stackSizeLimit < 2^31) :
    (expandStack n).run m = .ok () (m.moveStack (old/4)
      (((old : ℤ) + max (roundUp n) old).toNat/4 - old/4)
      (((old : ℤ) + max (roundUp n) old).toNat - old)) := by
  have hup := le_roundUp n
  have hdelta : hostInt (roundUp n) = roundUp n := hostInt_of_lt (by omega) (by omega)
  have hsize : hostInt ((old : ℤ) + max (roundUp n) old) = (old : ℤ) + max (roundUp n) old :=
    hostInt_of_lt (by omega) (by omega)
  have hno : ¬ (n < 0 ∨ (old : ℤ) + max (roundUp n) old > m.stackSizeLimit) := by omega
  have hpos : ¬ (old : ℤ) + max (roundUp n) old < 0 := by omega
  rw [expandStack, EStateM.run_bind, EStateM.run_get]
  simp only [hold, hdelta, hsize, hno, hpos]
  rfl

/-- An access below the stack moves it down past the accessed element. -/
lemma expandStack_grows (hb : m.Bounds) (h : m.grows a) :
    ∃ words shift, m.stackBot.toNat + 4*words = 2^31 ∧ 4*shift ≤ m.stackBot.toNat ∧
      m.stackBot.toNat - 4*shift ≤ a.toNat ∧
      (expandStack (m.stackBot - a + 4).toInt).run m =
        .ok () (m.moveStack words shift (4*shift)) := by
  obtain ⟨-, hbelow, hlim⟩ := h
  obtain ⟨hlt, hint⟩ := below_toInt hbelow
  have hle := BitVec.le_def.mp hb.stackLe
  have hsize := BitVec.toNat_sub_of_le hb.stackLe
  rw [stackTop_toNat] at hle hsize
  have hst := hb.stack
  have hl := hb.limit
  have hup := le_roundUp (m.stackBot - a + 4).toInt
  have hmod := roundUp_mod (m.stackBot - a + 4).toInt
  generalize hold : (stackTop - m.stackBot).toNat = old at *
  rw [expandStack_run hold (by omega) hlim hl]
  generalize roundUp (m.stackBot - a + 4).toInt = up at *
  have hlowered : ((old : ℤ) + max up old).toNat - old =
      4 * (((old : ℤ) + max up old).toNat/4 - old/4) := by omega
  refine ⟨old/4, ((old : ℤ) + max up old).toNat/4 - old/4, ?_, ?_, ?_, ?_⟩
  · omega
  · omega
  · omega
  · rw [hlowered]

/-! Any access that the segments or the growth of the stack allow. -/

/-- Aligned, and inside a data segment or below the stack within its limit. -/
def accessible (m : Machine) (w : Width) (a : Word) : Prop :=
  a &&& w.mask = 0 ∧ ((m.inData a ∨ m.inStack a ∨ m.inKData a) ∨ m.grows a)

instance : Decidable (accessible m w a) := inferInstanceAs (Decidable (_ ∧ _))

lemma not_inside_of_below (hb : m.Bounds) (h : m.belowStack a) :
    ¬ m.inData a ∧ ¬ m.inStack a ∧ ¬ m.inKData a := by
  obtain ⟨h1, h2, -⟩ := h
  have hle := BitVec.le_def.mp hb.stackLe
  rw [BitVec.lt_def] at h1 h2
  rw [stackTop_toNat] at hle
  refine ⟨fun h => ?_, fun h => ?_, fun h => ?_⟩
  · have h3 := BitVec.lt_def.mp h.2
    omega
  · have h3 := BitVec.le_def.mp h.1
    omega
  · have h3 := BitVec.le_def.mp h.1
    have hk : kDataBot.toNat = 0x90000000 := rfl
    omega

theorem memRead_grows (hb : m.Bounds) (ha : a &&& w.mask = 0) (h : m.grows a) :
    ∃ m', (memRead w a).run m = .ok (m.byteAt.read w a) m' ∧ m'.byteAt = m.byteAt ∧
      m.SameButData m' ∧ m'.Bounds := by
  obtain ⟨words, shift, hw, hs, -, hrun⟩ := expandStack_grows hb h
  obtain ⟨hd, hst, hk⟩ := not_inside_of_below hb h.2.1
  have hal := (w.and_mask_eq_zero a).mp ha
  have hzero : m.byteAt.read w a = 0 := by
    have hbytes : readLE w.bytes (fun i => m.byteAt (a + BitVec.ofNat 32 i)) 0 =
        readLE w.bytes (fun _ => 0#8) 0 := readLE_congr (fun i hi => by
      rw [Nat.zero_add, byteAt_add hb hal hi, if_neg hd, if_neg hst, if_neg hk]
      rfl)
    rw [ByteMap.read, hbytes, readLE_zero]
    cases w <;> rfl
  refine ⟨_, ?_, byteAt_moveStack hw hs, rfl, bounds_moveStack hb hs⟩
  simp only [memRead, badMemRead, EStateM.run_bind, EStateM.run_get, hd, hst, hk, ha, h.1, h.2.1,
    hrun, hzero, false_and, ne_eq, not_true_eq_false, if_false, if_true, EStateM.run_pure]

theorem memWrite_grows (tbl : AOpcodeTbl) (hb : m.Bounds) (ha : a &&& w.mask = 0)
    (h : m.grows a) (v : Word) :
    ∃ m', (memWrite tbl w a v).run m = .ok () m' ∧ m'.byteAt = m.byteAt.write w a v ∧
      m.SameButData m' ∧ m'.Bounds := by
  obtain ⟨words, shift, hw, hs, hle, hrun⟩ := expandStack_grows hb h
  obtain ⟨hd, hst, hk⟩ := not_inside_of_below hb h.2.1
  have hal := (w.and_mask_eq_zero a).mp ha
  have hb' : (m.moveStack words shift (4*shift)).Bounds := bounds_moveStack hb hs
  have hbot : (m.moveStack words shift (4*shift)).stackBot ≤ a := by
    rw [BitVec.le_def]
    exact Nat.le_trans (Nat.le_of_eq (lowered_toNat hs)) hle
  have hin : (m.moveStack words shift (4*shift)).inStack a :=
    ⟨hbot, BitVec.lt_def.mpr (Nat.lt_of_lt_of_le (BitVec.lt_def.mp h.2.1.2.1)
      (BitVec.le_def.mp hb.stackLe))⟩
  refine ⟨(m.moveStack words shift (4*shift)).storeStack w a v, ?_, ?_, rfl,
    ⟨hb'.data, hb'.stack, hb'.kData, hb'.stackLe, hb'.limit⟩⟩
  · simp only [memWrite, badMemWrite, EStateM.run_bind, EStateM.run_get, hd, hst, hk, ha, h.1,
      h.2.1, hrun, hbot, false_and, ne_eq, not_true_eq_false, if_false, if_true, EStateM.run_set]
  · rw [byteAt_storeStack hb' hal hd hin, byteAt_moveStack hw hs]

end

/-! Sequences of accesses. -/

/-- A call of one of the six accessors. -/
inductive MemOp
  | read (w : Width) (a : Word)
  | write (w : Width) (a v : Word)
  deriving DecidableEq, Repr

namespace MemOp

def width : MemOp → Width
  | read w _ => w
  | write w _ _ => w

def addr : MemOp → Word
  | read _ a => a
  | write _ a _ => a

/-- What a read returns; a write returns nothing. -/
def run (tbl : AOpcodeTbl) : MemOp → Exec (Option Word)
  | read w a => do
    let v ← memRead w a
    pure (some v)
  | write w a v => do
    memWrite tbl w a v
    pure none

/-- The same call on an array of bytes. -/
def apply (f : ByteMap) : MemOp → Option Word × ByteMap
  | read w a => (some (f.read w a), f)
  | write w a v => (none, f.write w a v)

end MemOp

def runOps (tbl : AOpcodeTbl) : List MemOp → Exec (List (Option Word))
  | [] => pure []
  | op :: ops => do
    let r ← op.run tbl
    let rs ← runOps tbl ops
    pure (r :: rs)

def ByteMap.applyOps : ByteMap → List MemOp → List (Option Word) × ByteMap
  | f, [] => ([], f)
  | f, op :: ops =>
    let (rs, f') := applyOps (op.apply f).2 ops
    ((op.apply f).1 :: rs, f')

/-- Every call is accessible in the state that the calls before it leave. -/
def AllAccessible (tbl : AOpcodeTbl) : Machine → List MemOp → Prop
  | _, [] => True
  | m, op :: ops =>
    accessible m op.width op.addr ∧ AllAccessible tbl (Frame.final ((op.run tbl).run m)) ops

instance (tbl : AOpcodeTbl) : (m : Machine) → (ops : List MemOp) →
    Decidable (AllAccessible tbl m ops)
  | _, [] => instDecidableTrue
  | m, op :: ops =>
    have := instDecidableAllAccessible tbl (Frame.final ((op.run tbl).run m)) ops
    inferInstanceAs (Decidable (accessible m op.width op.addr ∧ _))

/-- A call does to the machine's data memory what it does to an array of bytes. -/
theorem memOp_refines (tbl : AOpcodeTbl) {m : Machine} (hb : m.Bounds) (op : MemOp)
    (h : accessible m op.width op.addr) :
    ∃ m', (op.run tbl).run m = .ok (op.apply m.byteAt).1 m' ∧
      m'.byteAt = (op.apply m.byteAt).2 ∧ m.SameButData m' ∧ m'.Bounds := by
  cases op with
  | read w a =>
    obtain ⟨ha, hin | hg⟩ : accessible m w a := h
    · refine ⟨m, ?_, rfl, rfl, hb⟩
      simp only [MemOp.run, MemOp.apply, EStateM.run_bind, EStateM.run_pure,
        memRead_inside hb ha hin]
    · obtain ⟨m', hrun, hbytes, hsame, hb'⟩ := memRead_grows hb ha hg
      refine ⟨m', ?_, hbytes, hsame, hb'⟩
      simp only [MemOp.run, MemOp.apply, EStateM.run_bind, EStateM.run_pure, hrun]
  | write w a v =>
    obtain ⟨ha, hin | hg⟩ : accessible m w a := h
    · obtain ⟨m', hrun, hbytes, hsame, hb'⟩ := memWrite_inside tbl hb ha hin v
      refine ⟨m', ?_, hbytes, hsame, hb'⟩
      simp only [MemOp.run, MemOp.apply, EStateM.run_bind, EStateM.run_pure, hrun]
    · obtain ⟨m', hrun, hbytes, hsame, hb'⟩ := memWrite_grows tbl hb ha hg v
      refine ⟨m', ?_, hbytes, hsame, hb'⟩
      simp only [MemOp.run, MemOp.apply, EStateM.run_bind, EStateM.run_pure, hrun]

lemma Machine.SameButData.trans {m m' m'' : Machine} (h : m.SameButData m')
    (h' : m'.SameButData m'') : m.SameButData m'' := by
  rw [Machine.SameButData] at h h' ⊢
  rw [h', h]

theorem runOps_refines (tbl : AOpcodeTbl) (ops : List MemOp) {m : Machine} (hb : m.Bounds)
    (h : AllAccessible tbl m ops) :
    ∃ m', (runOps tbl ops).run m = .ok (m.byteAt.applyOps ops).1 m' ∧
      m'.byteAt = (m.byteAt.applyOps ops).2 ∧ m.SameButData m' ∧ m'.Bounds := by
  induction ops generalizing m with
  | nil => exact ⟨m, rfl, rfl, rfl, hb⟩
  | cons op ops ih =>
    obtain ⟨m', hrun, hbytes, hsame, hb'⟩ := memOp_refines tbl hb op h.1
    have hrest := h.2
    rw [hrun, Frame.final_ok] at hrest
    obtain ⟨m'', hrun', hbytes', hsame', hb''⟩ := ih hb' hrest
    rw [hbytes] at hrun' hbytes'
    refine ⟨m'', ?_, hbytes', hsame.trans hsame', hb''⟩
    simp only [runOps, EStateM.run_bind, hrun, hrun', EStateM.run_pure, ByteMap.applyOps]

/-! Fresh memory. -/

lemma byteAt_of_zero {m : Machine} (hd : m.dataSeg = fun _ => 0) (hs : m.stackSeg = fun _ => 0)
    (hk : m.kDataSeg = fun _ => 0) : m.byteAt = fun _ => 0 := by
  funext a
  simp only [Machine.byteAt, hd, hs, hk, ite_self]

lemma ofInt_roundUp_mod (n : ℕ) : (BitVec.ofInt 32 (roundUp n)).toNat % 4 = 0 := by
  have h := roundUp_mod n
  rw [BitVec.toNat_ofInt]
  omega

section

variable (textSize dataSize : ℕ) (dataLimit : ℤ) (stackSize : ℕ) (stackLimit : ℤ)
  (kTextSize kDataSize : ℕ) (m : Machine)

lemma bounds_makeMemory (hs : roundUp stackSize < 2^31) (hl : stackLimit < 2^31) :
    (makeMemory textSize dataSize dataLimit stackSize stackLimit kTextSize kDataSize m).Bounds := by
  have hup := ofInt_roundUp_mod stackSize
  have hlt : (BitVec.ofInt 32 (roundUp stackSize)).toNat < 2^31 := by
    have h0 := le_roundUp stackSize
    rw [BitVec.toNat_ofInt]
    omega
  have hbot : (stackTop - BitVec.ofInt 32 (roundUp stackSize)).toNat =
      2^31 - (BitVec.ofInt 32 (roundUp stackSize)).toNat :=
    BitVec.toNat_sub_of_le (BitVec.le_def.mpr (Nat.le_of_lt hlt))
  refine ⟨?_, ?_, ?_, BitVec.le_def.mpr ?_, hl⟩
  · have hd := ofInt_roundUp_mod (if dataSize ≤ 65536 then 65536 else dataSize)
    change (dataBot + BitVec.ofInt 32 (roundUp ↑(if dataSize ≤ 65536 then 65536 else dataSize))).toNat
      % 4 = 0
    rw [BitVec.toNat_add, show dataBot.toNat = 0x10000000 from rfl]
    omega
  · change (stackTop - BitVec.ofInt 32 (roundUp stackSize)).toNat % 4 = 0
    omega
  · have hk := ofInt_roundUp_mod kDataSize
    change (kDataBot + BitVec.ofInt 32 (roundUp kDataSize)).toNat % 4 = 0
    rw [BitVec.toNat_add, show kDataBot.toNat = 0x90000000 from rfl]
    omega
  · change (stackTop - BitVec.ofInt 32 (roundUp stackSize)).toNat ≤ 2^31
    omega

lemma byteAt_makeMemory :
    (makeMemory textSize dataSize dataLimit stackSize stackLimit kTextSize kDataSize m).byteAt =
      fun _ => 0 :=
  byteAt_of_zero rfl rfl rfl

/-- From fresh memory, reads return what an array of zero bytes holds after the same writes,
and nothing but the data segments is changed. -/
theorem dataMemory_is_bytes (tbl : AOpcodeTbl) (ops : List MemOp)
    (hs : roundUp stackSize < 2^31) (hl : stackLimit < 2^31)
    (h : AllAccessible tbl
      (makeMemory textSize dataSize dataLimit stackSize stackLimit kTextSize kDataSize m) ops) :
    ∃ m', (runOps tbl ops).run
        (makeMemory textSize dataSize dataLimit stackSize stackLimit kTextSize kDataSize m) =
          .ok (ByteMap.applyOps (fun _ => 0) ops).1 m' ∧
      m'.byteAt = (ByteMap.applyOps (fun _ => 0) ops).2 ∧
      (makeMemory textSize dataSize dataLimit stackSize stackLimit kTextSize kDataSize
        m).SameButData m' := by
  have hb := bounds_makeMemory textSize dataSize dataLimit stackSize stackLimit kTextSize
    kDataSize m hs hl
  obtain ⟨m', hrun, hbytes, hsame, -⟩ := runOps_refines tbl ops hb h
  rw [byteAt_makeMemory] at hrun hbytes
  exact ⟨m', hrun, hbytes, hsame⟩

end

/-- A stack of one word moved twice under a word and a byte of it. -/
theorem dataMemory_is_bytes_grown :
    ∃ m', (runOps .first [.write .word 0x7ffffffc 0x8081, .write .half 0x7fffff00 0xfffe,
        .read .byte 0x7ffffffc, .read .half 0x7fffff00]).run
          (makeMemory 0 0 0 4 4096 0 0 {}) =
            .ok [none, none, some 0xffffff81, some 0xfffffffe] m' ∧
      m'.byteAt 0x7ffffffd = 0x80 ∧ (makeMemory 0 0 0 4 4096 0 0 {}).SameButData m' := by
  obtain ⟨m', hrun, hbytes, hsame⟩ := dataMemory_is_bytes 0 0 0 4 4096 0 0 {} .first
    [.write .word 0x7ffffffc 0x8081, .write .half 0x7fffff00 0xfffe, .read .byte 0x7ffffffc,
      .read .half 0x7fffff00] (by decide) (by decide) (by decide)
  refine ⟨m', hrun, ?_, hsame⟩
  rw [hbytes]
  decide

end Spimulator
