import Spimulator.DataMemory
import Spimulator.Run

/-! Text seen as data: the bytes of the encodings in the user text segment, and the accessors of
memory.c there. -/
namespace Spimulator
open ByteStore Frame

namespace Machine

/-- The encoding at a word of user text, 0 where no instruction is stored. -/
def textWord (m : Machine) (i : ℕ) : Word := (m.textSeg i).elim 0 fun r => (m.insts r).encoding

/-- The byte of user text at an address. -/
def textByteAt (m : Machine) : ByteMap := fun a => byteOf (m.textWord (textIndex a)) (a.toNat % 4)

/-- An instruction is stored at a word of user text. -/
def filled (m : Machine) (i : ℕ) : Bool := (m.textSeg i).isSome

/-- The address is one of user text and of no data segment. -/
structure OnlyText (m : Machine) (a : Word) : Prop where
  text : m.inText a
  data : ¬ m.inData a
  stack : ¬ m.inStack a
  kData : ¬ m.inKData a

instance (m : Machine) (a : Word) : Decidable (m.OnlyText a) :=
  decidable_of_iff (m.inText a ∧ ¬ m.inData a ∧ ¬ m.inStack a ∧ ¬ m.inKData a)
    ⟨fun ⟨h, h₁, h₂, h₃⟩ => ⟨h, h₁, h₂, h₃⟩, fun h => ⟨h.text, h.data, h.stack, h.kData⟩⟩

/-- Every word of user text is empty or points to an allocated record. -/
def TextHeap (m : Machine) : Prop := ∀ i r, m.textSeg i = some r → r < m.nextInst

end Machine

open Machine

/-! Words and their bytes. -/

lemma textIndex_eq_iff (a b : Word) : textIndex b = textIndex a ↔ b.toNat / 4 = a.toNat / 4 := by
  have ha := a.isLt
  have hb := b.isLt
  have hbot : textBot.toNat = 4194304 := rfl
  rw [textIndex, textIndex, BitVec.toNat_sub, BitVec.toNat_sub, hbot]
  omega

lemma and_three_toNat (a : Word) : (a &&& 3).toNat = a.toNat % 4 := by
  change a.toNat &&& (2^2-1) = a.toNat % 2^2
  exact Nat.and_two_pow_sub_one_eq_mod _ _

/-- The bit that selects a half is the place of the half in its word. -/
lemma and_two_toNat {a : Word} (ha : a &&& 1 = 0) : (a &&& 2).toNat = a.toNat % 4 := by
  have h : a &&& (2 ||| 1) = (a &&& 2) ||| (a &&& 1) := BitVec.and_or_distrib_left
  have h' : a &&& 3 = a &&& 2 := by
    rw [ha] at h
    exact h.trans BitVec.or_zero
  rw [← h', and_three_toNat]

section

variable {w : Width} {a : Word}

lemma Width.mod_four_add (ha : a.toNat % w.bytes = 0) : a.toNat % 4 + w.bytes ≤ 4 := by
  cases w <;> simp only [Width.bytes] at ha ⊢ <;> omega

/-- The bytes of an aligned element lie in one word. -/
lemma element_in_word (ha : a.toNat % w.bytes = 0) {i : ℕ} (hi : i < w.bytes) :
    textIndex (a + BitVec.ofNat 32 i) = textIndex a ∧
      (a + BitVec.ofNat 32 i).toNat % 4 = a.toNat % 4 + i := by
  have hle := Width.mod_four_add ha
  rw [textIndex_eq_iff, add_toNat w ha hi]
  omega

/-- The part of a word that an aligned element is. -/
def Width.part (w : Width) (a word : Word) : BitVec (8*w.bytes) :=
  word.extractLsb' (8*(a.toNat % 4)) (8*w.bytes)

lemma textByteAt_read (m : Machine) (ha : a.toNat % w.bytes = 0) :
    m.textByteAt.read w a = (w.part a (m.textWord (textIndex a))).signExtend 32 := by
  rw [ByteMap.read, Width.part, ← readLE_byteOf]
  congr 1
  apply readLE_congr
  intro i hi
  obtain ⟨hidx, hoff⟩ := element_in_word ha hi
  rw [Nat.zero_add, textByteAt, hidx, hoff]

end

/-! Reading. -/

lemma low_bits (n : ℕ) (v : Word) (sh : ℕ) :
    (BitVec.allOnes n).setWidth 32 &&& (v >>> sh) = (v.extractLsb' sh n).setWidth 32 := by
  apply BitVec.eq_of_getLsbD_eq
  intro j hj
  simp only [BitVec.getLsbD_and, BitVec.getLsbD_setWidth, BitVec.getLsbD_allOnes,
    BitVec.getLsbD_ushiftRight, BitVec.getLsbD_extractLsb', hj, decide_true, Bool.true_and]

section

variable {m : Machine} {w : Width} {a : Word}

/-- A read of user text gives the part of the encoding, without its sign. -/
lemma memRead_text (h : m.OnlyText a) (ha : a &&& w.mask = 0) {r : InstRef}
    (hr : m.textSeg (textIndex a) = some r) :
    (memRead w a).run m = .ok ((w.part a (m.textWord (textIndex a))).setWidth 32) m := by
  have hword : m.textWord (textIndex a) = (m.insts r).encoding := by rw [textWord, hr]; rfl
  have hrun : (memRead w a).run m = (badMemRead a w).run m := by
    simp only [memRead, EStateM.run_bind, EStateM.run_get, h.data, h.stack, h.kData, false_and,
      if_false]
  rw [hrun]
  simp only [badMemRead, EStateM.run_bind, EStateM.run_get, ha, h.text, ne_eq, not_true_eq_false,
    if_false, if_true]
  cases w with
  | byte =>
    simp only [textEncoding, EStateM.run_bind, EStateM.run_get, hr, EStateM.run_pure]
    rw [hword, and_three_toNat]
    exact congrArg (EStateM.Result.ok · m) (low_bits 8 _ _)
  | half =>
    simp only [textEncoding, EStateM.run_bind, EStateM.run_get, hr, EStateM.run_pure]
    rw [hword, and_two_toNat ha]
    exact congrArg (EStateM.Result.ok · m) (low_bits 16 _ _)
  | word =>
    have hal : a.toNat % 4 = 0 := (Width.and_mask_eq_zero .word a).mp ha
    have hpart : Width.word.part a (m.insts r).encoding = (m.insts r).encoding := by
      rw [Width.part, hal]
      exact BitVec.extractLsb'_eq_self
    simp only [hr, EStateM.run_pure, hword, hpart]
    congr 1

/-- A read of an empty word gives 0, and a read of a part of it follows a null pointer. -/
lemma memRead_empty (h : m.OnlyText a) (ha : a &&& w.mask = 0)
    (hr : m.textSeg (textIndex a) = none) :
    (memRead w a).run m = if w = .word then .ok 0 m else .error .nullInstruction m := by
  have hrun : (memRead w a).run m = (badMemRead a w).run m := by
    simp only [memRead, EStateM.run_bind, EStateM.run_get, h.data, h.stack, h.kData, false_and,
      if_false]
  rw [hrun]
  simp only [badMemRead, EStateM.run_bind, EStateM.run_get, ha, h.text, ne_eq, not_true_eq_false,
    if_false, if_true]
  cases w with
  | byte | half => simp only [textEncoding, EStateM.run_bind, EStateM.run_get, hr]; rfl
  | word => simp only [hr]; rfl

end

/-! Writing. -/

lemma getLsbD_allOnes_shift (n sh k : ℕ) :
    ((BitVec.allOnes n).setWidth 32 <<< sh).getLsbD k = decide (k < 32 ∧ sh ≤ k ∧ k < sh + n) := by
  simp only [BitVec.getLsbD_shiftLeft, BitVec.getLsbD_setWidth, BitVec.getLsbD_allOnes]
  grind

/-- A part of a word overwritten by the low bits of a value, bit by bit. -/
lemma getLsbD_patch (n sh k : ℕ) (hk : k < 32) (old v : Word) :
    ((old &&& ~~~((BitVec.allOnes n).setWidth 32 <<< sh)) |||
      ((v &&& (BitVec.allOnes n).setWidth 32) <<< sh)).getLsbD k =
        if sh ≤ k ∧ k < sh + n then v.getLsbD (k-sh) else old.getLsbD k := by
  rw [BitVec.getLsbD_or, BitVec.getLsbD_and, BitVec.getLsbD_not, getLsbD_allOnes_shift,
    BitVec.getLsbD_shiftLeft, BitVec.getLsbD_and, BitVec.getLsbD_setWidth, BitVec.getLsbD_allOnes]
  grind

/-- The bytes of a patched encoding. -/
lemma byteOf_patch (w : Width) {a : Word} (ha : a &&& w.mask = 0) (old v : Word) {j : ℕ} (hj : j < 4) :
    byteOf (patchEncoding w a old v) j =
      if a.toNat % 4 ≤ j ∧ j < a.toNat % 4 + w.bytes then byteOf v (j - a.toNat % 4)
      else byteOf old j := by
  have hbits : ∀ (n : ℕ) (p : Word),
      p = ((old &&& ~~~((BitVec.allOnes (8*n)).setWidth 32 <<< (8*(a.toNat % 4)))) |||
        ((v &&& (BitVec.allOnes (8*n)).setWidth 32) <<< (8*(a.toNat % 4)))) →
      byteOf p j = if a.toNat % 4 ≤ j ∧ j < a.toNat % 4 + n then byteOf v (j - a.toNat % 4)
        else byteOf old j := by
    rintro n p rfl
    apply BitVec.eq_of_getLsbD_eq
    intro k hk
    rw [byteOf, BitVec.getLsbD_extractLsb', getLsbD_patch _ _ _ (by omega)]
    by_cases h : a.toNat % 4 ≤ j ∧ j < a.toNat % 4 + n
    · rw [if_pos h, if_pos (by omega), byteOf, BitVec.getLsbD_extractLsb']
      congr 2
      omega
    · rw [if_neg h, if_neg (by omega), byteOf, BitVec.getLsbD_extractLsb']
  cases w with
  | byte =>
    apply hbits 1
    rw [patchEncoding, and_three_toNat]
    rfl
  | half =>
    apply hbits 2
    rw [patchEncoding, and_two_toNat ha]
    rfl
  | word =>
    have hal : a.toNat % 4 = 0 := (Width.and_mask_eq_zero .word a).mp ha
    have hj' : a.toNat % 4 ≤ j ∧ j < a.toNat % 4 + Width.word.bytes := by
      rw [hal]
      exact ⟨Nat.zero_le _, by simpa [Width.bytes] using hj⟩
    rw [if_pos hj', hal]
    rfl

/-- Overwriting part of a word of text overwrites the bytes at the addresses of the part. -/
lemma textByteAt_patch {m m' : Machine} {w : Width} {a : Word} (ha : a &&& w.mask = 0) (v : Word)
    (hother : ∀ i, i ≠ textIndex a → m'.textWord i = m.textWord i)
    (hword : m'.textWord (textIndex a) = patchEncoding w a (m.textWord (textIndex a)) v) :
    m'.textByteAt = m.textByteAt.write w a v := by
  have hal := (w.and_mask_eq_zero a).mp ha
  have hle := Width.mod_four_add hal
  funext b
  rw [ByteMap.write, textByteAt, textByteAt]
  have hsub := BitVec.toNat_sub b a
  have hb := b.isLt
  have ha' := a.isLt
  by_cases hidx : textIndex b = textIndex a
  · rw [hidx, hword, byteOf_patch w ha _ _ (Nat.mod_lt _ (by decide))]
    have hq := (textIndex_eq_iff a b).mp hidx
    by_cases hin : (b-a).toNat < w.bytes
    · rw [if_pos hin, if_pos (by omega), show b.toNat % 4 - a.toNat % 4 = (b-a).toNat by omega]
    · rw [if_neg hin, if_neg (by omega)]
  · rw [hother _ hidx, if_neg]
    intro hin
    apply hidx
    have hba : a + BitVec.ofNat 32 (b-a).toNat = b := by
      rw [BitVec.ofNat_toNat, BitVec.setWidth_eq, BitVec.add_comm, BitVec.sub_add_cancel]
    rw [← hba]
    exact (element_in_word hal hin).1

lemma encoding_instDecode (tbl : AOpcodeTbl) (v : Word) : (instDecode tbl v).encoding = v := by
  unfold instDecode
  cases tbl.find (decodeKey v) with
  | none => rfl
  | some op =>
    change (decodeFields v op).encoding = v
    unfold decodeFields
    cases op.opType <;> rfl

/-- A word of user text with what a word decodes to. -/
def Machine.putText (m : Machine) (tbl : AOpcodeTbl) (i : ℕ) (word : Word) : Machine :=
  (m.allocInst (instDecode tbl word)).2.setText i (some m.nextInst)

section

variable {m : Machine} {tbl : AOpcodeTbl} {w : Width} {a : Word}

lemma insts_putText (i : ℕ) (word : Word) :
    (m.putText tbl i word).insts m.nextInst = instDecode tbl word := Function.update_self _ _ _

lemma textSeg_putText (i : ℕ) (word : Word) :
    (m.putText tbl i word).textSeg = Function.update m.textSeg i (some m.nextInst) := rfl

lemma textWord_putText (i : ℕ) (word : Word) : (m.putText tbl i word).textWord i = word := by
  rw [textWord, textSeg_putText, Function.update_self]
  change ((m.putText tbl i word).insts m.nextInst).encoding = word
  rw [insts_putText, encoding_instDecode]

lemma textWord_putText_of_ne (hm : m.TextHeap) {i j : ℕ} (hj : j ≠ i) (word : Word) :
    (m.putText tbl i word).textWord j = m.textWord j := by
  rw [textWord, textWord, textSeg_putText, Function.update_of_ne hj]
  cases hr : m.textSeg j with
  | none => rfl
  | some r =>
    have hne : r ≠ m.nextInst := Nat.ne_of_lt (hm j r hr)
    exact congrArg Inst.encoding (Function.update_of_ne hne _ _)

lemma textHeap_putText (hm : m.TextHeap) (i : ℕ) (word : Word) :
    (m.putText tbl i word).TextHeap := by
  intro j r hr
  rw [textSeg_putText] at hr
  by_cases hj : j = i
  · subst hj
    rw [Function.update_self] at hr
    cases hr
    exact Nat.lt_succ_self _
  · rw [Function.update_of_ne hj] at hr
    exact Nat.lt_succ_of_lt (hm j r hr)

/-- The word that a write leaves at a word of user text: part of an empty word is not written. -/
def Machine.written (m : Machine) (w : Width) (a v : Word) : Word :=
  match m.textSeg (textIndex a) with
  | none => if w = .word then v else 0
  | some r => patchEncoding w a (m.insts r).encoding v

lemma memWrite_text (h : m.OnlyText a) (ha : a &&& w.mask = 0) (v : Word) :
    (memWrite tbl w a v).run m = .ok () (m.putText tbl (textIndex a) (m.written w a v)) := by
  have hrun : (memWrite tbl w a v).run m = (badMemWrite tbl a v w).run m := by
    simp only [memWrite, EStateM.run_bind, EStateM.run_get, h.data, h.stack, h.kData, false_and,
      if_false]
  rw [hrun]
  simp only [badMemWrite, EStateM.run_bind, EStateM.run_get, ha, h.text, ne_eq, not_true_eq_false,
    if_false, if_true]
  rfl

end

/-! Sequences of accesses. -/

/-- The loads that lb, lbu, lh, lhu and lw make. -/
inductive TextLoad
  | lb | lbu | lh | lhu | lw
  deriving DecidableEq, Repr

namespace TextLoad

def opcode : TextLoad → Opcode
  | lb => .lb
  | lbu => .lbu
  | lh => .lh
  | lhu => .lhu
  | lw => .lw

def width : TextLoad → Width
  | lb | lbu => .byte
  | lh | lhu => .half
  | lw => .word

/-- The mask of the value that is read. -/
def mask : TextLoad → Word
  | lbu => 0xff
  | lhu => 0xffff
  | lb | lh | lw => 0xffffffff

/-- The value read is extended with its sign, from less than a word. -/
def signed : TextLoad → Bool
  | lb | lh => true
  | lbu | lhu | lw => false

lemma dispatch_eq (env : Env) (l : TextLoad) {i : Inst} (h : i.opcode = some l.opcode)
    (m : Machine) : dispatch env i m = .load l.width (effAddr i m) l.mask (.gpr i.rt) := by
  cases l <;> simp only [dispatch, h, opcode] <;> rfl

end TextLoad

def Width.storeOpcode : Width → Opcode
  | .byte => .sb
  | .half => .sh
  | .word => .sw

lemma dispatch_store (env : Env) (w : Width) {i : Inst} (h : i.opcode = some w.storeOpcode)
    (m : Machine) : dispatch env i m = .store w (effAddr i m) (m.gpr i.rt) := by
  cases w <;> simp only [dispatch, h, Width.storeOpcode] <;> rfl

/-- A load or a store at an address. -/
inductive TextOp
  | load (l : TextLoad) (a : Word)
  | store (w : Width) (a v : Word)
  deriving DecidableEq, Repr

namespace TextOp

def width : TextOp → Width
  | load l _ => l.width
  | store w _ _ => w

def addr : TextOp → Word
  | load _ a => a
  | store _ a _ => a

/-- The value that a load gives. -/
def run (tbl : AOpcodeTbl) : TextOp → Exec (Option Word)
  | load l a => do
    let v ← memRead l.width a
    pure (some (v &&& l.mask))
  | store w a v => do
    memWrite tbl w a v
    pure none

/-- The same access to an array of bytes, as the data segment is one. -/
def apply (f : ByteMap) : TextOp → Option Word × ByteMap
  | load l a => (some (f.read l.width a &&& l.mask), f)
  | store w a v => (none, f.write w a v)

/-- The access is aligned and inside user text. -/
def InText (m : Machine) (op : TextOp) : Prop :=
  m.OnlyText op.addr ∧ op.addr &&& op.width.mask = 0

instance (m : Machine) (op : TextOp) : Decidable (op.InText m) :=
  inferInstanceAs (Decidable (_ ∧ _))

/-- The instruction fetched from the word of a store is the one that the word decodes to. -/
def Leaves (tbl : AOpcodeTbl) (f : ByteMap) (m : Machine) : TextOp → Prop
  | load _ _ => True
  | store _ a _ => ∃ r, (memReadInst tbl (a &&& ~~~3#32)).run m = .ok (some r) m ∧
      m.insts r = instDecode tbl (f.read .word (a &&& ~~~3#32))

/-- Part of a word is accessed only where an instruction is stored, or written with 0; and what is
read with its sign is not negative. -/
def Coherent (f : ByteMap) (filled : ℕ → Bool) : TextOp → Prop
  | load l a => l = .lw ∨
      (filled (textIndex a) = true ∧ (l.signed = true → (f.read l.width a).msb = false))
  | store w a v => w = .word ∨ filled (textIndex a) = true ∨ v.setWidth (8*w.bytes) = 0

instance (f : ByteMap) (filled : ℕ → Bool) : (op : TextOp) → Decidable (op.Coherent f filled)
  | load _ _ => inferInstanceAs (Decidable (_ ∨ (_ ∧ (_ → _))))
  | store _ _ _ => inferInstanceAs (Decidable (_ ∨ _ ∨ _))

def fill (filled : ℕ → Bool) : TextOp → ℕ → Bool
  | load _ _ => filled
  | store _ a _ => Function.update filled (textIndex a) true

end TextOp

/-- The accesses give what they give on an array of bytes, and every store leaves the instruction
that its word decodes to. -/
def AsBytes (tbl : AOpcodeTbl) : List TextOp → ByteMap → Machine → Prop
  | [], _, _ => True
  | op :: ops, f, m => ∃ m', (op.run tbl).run m = .ok (op.apply f).1 m' ∧
      op.Leaves tbl (op.apply f).2 m' ∧ AsBytes tbl ops (op.apply f).2 m'

/-- Every access is coherent after those before it. -/
def AllCoherent : List TextOp → ByteMap → (ℕ → Bool) → Prop
  | [], _, _ => True
  | op :: ops, f, filled => op.Coherent f filled ∧ AllCoherent ops (op.apply f).2 (op.fill filled)

instance : (ops : List TextOp) → (f : ByteMap) → (filled : ℕ → Bool) →
    Decidable (AllCoherent ops f filled)
  | [], _, _ => instDecidableTrue
  | op :: ops, f, filled =>
    have := instDecidableAllCoherent ops (op.apply f).2 (op.fill filled)
    inferInstanceAs (Decidable (op.Coherent f filled ∧ _))

/-! One access. -/

section

variable {m : Machine} {tbl : AOpcodeTbl} {w : Width} {a : Word}

omit m tbl w in
lemma wordAddr_toNat (a : Word) : (a &&& ~~~3#32).toNat = a.toNat / 4 * 4 := by
  have hsh : a &&& ~~~3#32 = (a >>> 2) <<< 2 := by
    apply BitVec.eq_of_getLsbD_eq
    intro k hk
    have h3 : (~~~3#32).getLsbD k = !(decide (k < 2)) := by
      change (~~~((BitVec.allOnes 2).setWidth 32)).getLsbD k = _
      rw [BitVec.getLsbD_not, BitVec.getLsbD_setWidth, BitVec.getLsbD_allOnes]
      simp [hk]
    simp only [BitVec.getLsbD_and, h3, BitVec.getLsbD_shiftLeft, BitVec.getLsbD_ushiftRight]
    grind
  have ha := a.isLt
  rw [hsh, BitVec.toNat_shiftLeft, BitVec.toNat_ushiftRight, Nat.shiftLeft_eq,
    Nat.shiftRight_eq_div_pow]
  omega

/-- The word of an address of user text. -/
lemma wordAddr_inText (h : m.inText a) :
    m.inText (a &&& ~~~3#32) ∧ (a &&& ~~~3#32) &&& 3 = 0 ∧
      textIndex (a &&& ~~~3#32) = textIndex a := by
  have hval := wordAddr_toNat a
  have hle := BitVec.le_def.mp h.1
  have hlt := BitVec.lt_def.mp h.2
  have hbot : textBot.toNat = 4194304 := rfl
  refine ⟨⟨BitVec.le_def.mpr ?_, BitVec.lt_def.mpr ?_⟩, ?_, ?_⟩
  · omega
  · omega
  · refine (Width.and_mask_eq_zero .word _).mpr ?_
    rw [hval]
    exact Nat.mul_mod_left _ _
  · rw [textIndex_eq_iff, hval]
    omega

lemma memReadInst_text (h : m.inText a) {r : InstRef} (hr : m.textSeg (textIndex a) = some r) :
    (memReadInst tbl (a &&& ~~~3#32)).run m = .ok (some r) m := by
  obtain ⟨hin, hal, hidx⟩ := wordAddr_inText h
  simp only [memReadInst, EStateM.run_bind, EStateM.run_get, hin, hal, and_self, if_true, hidx, hr,
    EStateM.run_pure]

/-- The word around an address of user text, read from its bytes. -/
lemma textByteAt_word (m : Machine) (h : m.inText a) :
    m.textByteAt.read .word (a &&& ~~~3#32) = m.textWord (textIndex a) := by
  obtain ⟨-, hal, hidx⟩ := wordAddr_inText h
  have hmod := (Width.and_mask_eq_zero .word _).mp hal
  have hoff : (a &&& ~~~3#32).toNat % 4 = 0 := hmod
  rw [textByteAt_read m hmod, hidx, Width.part, hoff]
  have hpart : (m.textWord (textIndex a)).extractLsb' (8*0) (8*Width.word.bytes) =
      m.textWord (textIndex a) := BitVec.extractLsb'_eq_self
  rw [hpart]
  exact BitVec.signExtend_eq _

omit m tbl w a in
lemma setWidth_eq_signExtend_iff {n : ℕ} (hn : n < 32) (p : BitVec n) :
    p.setWidth 32 = p.signExtend 32 ↔ (p.signExtend 32).msb = false := by
  have hmsb : (p.signExtend 32).msb = p.msb := by
    rw [BitVec.msb_eq_getLsbD_last, BitVec.getLsbD_signExtend, if_neg (by omega)]
    rfl
  constructor
  · intro h
    rw [← h, BitVec.msb_eq_getLsbD_last, BitVec.getLsbD_setWidth,
      BitVec.getLsbD_of_ge p _ (by omega)]
    rfl
  · intro h
    exact (BitVec.signExtend_eq_setWidth_of_msb_false (hmsb.symm.trans h)).symm

omit m tbl w a in
lemma and_allOnes_signExtend {n : ℕ} (p : BitVec n) :
    p.setWidth 32 &&& (BitVec.allOnes n).setWidth 32 =
      p.signExtend 32 &&& (BitVec.allOnes n).setWidth 32 := by
  apply BitVec.eq_of_getLsbD_eq
  intro k hk
  simp only [BitVec.getLsbD_and, BitVec.getLsbD_setWidth, BitVec.getLsbD_signExtend,
    BitVec.getLsbD_allOnes]
  grind

omit m tbl w a in
/-- The value of a load, from a part of a word: the mask takes the sign away, or there was none. -/
lemma load_value (l : TextLoad) (p : BitVec (8*l.width.bytes)) :
    p.setWidth 32 &&& l.mask = p.signExtend 32 &&& l.mask ↔
      (l = .lw ∨ (l.signed = true → (p.signExtend 32).msb = false)) := by
  have hsigned : ∀ {n : ℕ} (q : BitVec n), n < 32 →
      (q.setWidth 32 &&& BitVec.allOnes 32 = q.signExtend 32 &&& BitVec.allOnes 32 ↔
        (q.signExtend 32).msb = false) := by
    intro n q hn
    rw [BitVec.and_allOnes, BitVec.and_allOnes, setWidth_eq_signExtend_iff hn]
  cases l with
  | lw => exact iff_of_true (and_allOnes_signExtend p) (Or.inl rfl)
  | lbu => exact iff_of_true (and_allOnes_signExtend p) (Or.inr (by simp [TextLoad.signed]))
  | lhu => exact iff_of_true (and_allOnes_signExtend p) (Or.inr (by simp [TextLoad.signed]))
  | lb => exact (hsigned p (by decide)).trans (by simp [TextLoad.signed])
  | lh => exact (hsigned p (by decide)).trans (by simp [TextLoad.signed])

/-- A load of user text gives what the bytes give exactly when it is coherent. -/
lemma load_iff {l : TextLoad} (h : (TextOp.load l a).InText m) (m' : Machine) :
    ((TextOp.load l a).run tbl).run m = .ok ((TextOp.load l a).apply m.textByteAt).1 m' ↔
      (TextOp.load l a).Coherent m.textByteAt m.filled ∧ m' = m := by
  obtain ⟨hin, hal⟩ : m.OnlyText a ∧ a &&& l.width.mask = 0 := h
  have hread := textByteAt_read m ((l.width.and_mask_eq_zero a).mp hal)
  cases hr : m.textSeg (textIndex a) with
  | some r =>
    have hrun : ((TextOp.load l a).run tbl).run m =
        .ok (some ((l.width.part a (m.textWord (textIndex a))).setWidth 32 &&& l.mask)) m := by
      simp only [TextOp.run, EStateM.run_bind, memRead_text hin hal hr, EStateM.run_pure]
    have hfilled : m.filled (textIndex a) = true := by simp [filled, hr]
    have hval := load_value l (l.width.part a (m.textWord (textIndex a)))
    rw [hrun, TextOp.apply, TextOp.Coherent, hread]
    constructor
    · intro heq
      injection heq with hv hm
      refine ⟨(hval.mp (Option.some.inj hv)).imp_right fun hs => ⟨hfilled, hs⟩, hm.symm⟩
    · rintro ⟨hc, rfl⟩
      rw [hval.mpr (hc.imp_right And.right)]
  | none =>
    have hfilled : ¬ m.filled (textIndex a) = true := by simp [filled, hr]
    have hword : m.textWord (textIndex a) = 0 := by rw [textWord, hr]; rfl
    by_cases hl : l = .lw
    · subst hl
      have hrun : ((TextOp.load .lw a).run tbl).run m = .ok (some 0) m := by
        simp only [TextOp.run, EStateM.run_bind, memRead_empty hin hal hr]
        rfl
      rw [hrun, TextOp.apply, hread, hword]
      have hzero : (TextLoad.lw.width.part a 0).signExtend 32 &&& TextLoad.lw.mask = 0 := by
        have hpart : TextLoad.lw.width.part a 0 = 0 := BitVec.extractLsb'_zero
        rw [hpart]
        rfl
      rw [hzero]
      constructor
      · intro heq
        injection heq with _ hm
        exact ⟨Or.inl rfl, hm.symm⟩
      · rintro ⟨-, rfl⟩
        rfl
    · have hw : l.width ≠ .word := by cases l <;> simp_all [TextLoad.width]
      have hrun : ((TextOp.load l a).run tbl).run m = .error .nullInstruction m := by
        simp only [TextOp.run, EStateM.run_bind, memRead_empty hin hal hr, if_neg hw]
      rw [hrun]
      constructor
      · intro heq
        cases heq
      · rintro ⟨hc, -⟩
        exact absurd (hc.resolve_left hl).1 hfilled

/-- Overwriting part of 0 gives 0 only by writing 0. -/
lemma patchEncoding_zero_iff (ha : a &&& w.mask = 0) (v : Word) :
    patchEncoding w a 0 v = 0 ↔ v.setWidth (8*w.bytes) = 0 := by
  have hle := Width.mod_four_add ((w.and_mask_eq_zero a).mp ha)
  constructor
  · intro hp
    apply eq_zero_of_bytes
    intro i hi
    have hb := byteOf_patch w ha 0 v (j := a.toNat % 4 + i) (by omega)
    rw [if_pos (by omega), hp, byteOf_zero, Nat.add_sub_cancel_left] at hb
    rw [byteOf_setWidth w v hi]
    exact hb.symm
  · intro hv
    refine eq_zero_of_bytes (n := 4) fun j hj => ?_
    rw [byteOf_patch w ha 0 v hj]
    split
    · rename_i h
      have hb := byteOf_setWidth w v (i := j - a.toNat % 4) (by omega)
      rw [← hb, hv, byteOf_zero]
    · exact byteOf_zero j

/-- The word written is the one with the bytes of the value exactly when the store is coherent. -/
lemma written_iff (ha : a &&& w.mask = 0) (v : Word) :
    m.written w a v = patchEncoding w a (m.textWord (textIndex a)) v ↔
      (TextOp.store w a v).Coherent m.textByteAt m.filled := by
  rw [Machine.written, TextOp.Coherent]
  cases hr : m.textSeg (textIndex a) with
  | some r =>
    have hword : m.textWord (textIndex a) = (m.insts r).encoding := by rw [textWord, hr]; rfl
    exact iff_of_true (by rw [hword]) (Or.inr (Or.inl (by simp [filled, hr])))
  | none =>
    have hword : m.textWord (textIndex a) = 0 := by rw [textWord, hr]; rfl
    have hfilled : ¬ m.filled (textIndex a) = true := by simp [filled, hr]
    rw [hword]
    dsimp only
    by_cases hw : w = .word
    · subst hw
      exact iff_of_true rfl (Or.inl rfl)
    · rw [if_neg hw, eq_comm, patchEncoding_zero_iff ha]
      simp [hw, hfilled]

/-- The bytes that a store should leave. -/
lemma textByteAt_store (hm : m.TextHeap) (ha : a &&& w.mask = 0) (v : Word) :
    (m.putText tbl (textIndex a)
      (patchEncoding w a (m.textWord (textIndex a)) v)).textByteAt = m.textByteAt.write w a v :=
  textByteAt_patch ha v (fun _ hi => textWord_putText_of_ne hm hi _) (textWord_putText _ _)

lemma instDecode_inj {tbl : AOpcodeTbl} {v v' : Word} (h : instDecode tbl v = instDecode tbl v') :
    v = v' := by
  rw [← encoding_instDecode tbl v, h, encoding_instDecode]

/-- A store leaves the instruction of the bytes exactly when it is coherent. -/
lemma leaves_iff {v : Word} (hm : m.TextHeap) (h : (TextOp.store w a v).InText m) :
    (TextOp.store w a v).Leaves tbl (m.textByteAt.write w a v)
        (m.putText tbl (textIndex a) (m.written w a v)) ↔
      (TextOp.store w a v).Coherent m.textByteAt m.filled := by
  obtain ⟨hin, hal⟩ : m.OnlyText a ∧ a &&& w.mask = 0 := h
  rw [← written_iff hal]
  have hword : (m.textByteAt.write w a v).read .word (a &&& ~~~3#32) =
      patchEncoding w a (m.textWord (textIndex a)) v := by
    have hin' : (m.putText tbl (textIndex a)
        (patchEncoding w a (m.textWord (textIndex a)) v)).inText a := hin.text
    rw [← textByteAt_store hm hal v, textByteAt_word _ hin', textWord_putText]
  have hfetch : (memReadInst tbl (a &&& ~~~3#32)).run
      (m.putText tbl (textIndex a) (m.written w a v)) =
        .ok (some m.nextInst) (m.putText tbl (textIndex a) (m.written w a v)) :=
    memReadInst_text (m := m.putText tbl (textIndex a) (m.written w a v)) hin.text
      (Function.update_self _ _ _)
  rw [TextOp.Leaves, hword]
  constructor
  · rintro ⟨r, hr, hi⟩
    rw [hfetch] at hr
    injection hr with hr
    obtain rfl := Option.some.inj hr
    rw [insts_putText] at hi
    exact instDecode_inj hi
  · intro hw
    refine ⟨m.nextInst, hfetch, ?_⟩
    rw [insts_putText, hw]

lemma store_run {v : Word} (h : (TextOp.store w a v).InText m) :
    ((TextOp.store w a v).run tbl).run m =
      .ok none (m.putText tbl (textIndex a) (m.written w a v)) := by
  obtain ⟨hin, hal⟩ : m.OnlyText a ∧ a &&& w.mask = 0 := h
  have hrun : (memWrite tbl w a v).run m = _ := memWrite_text hin hal v
  simp only [TextOp.run, EStateM.run_bind, hrun, EStateM.run_pure]

/-- What a coherent access does. -/
lemma textOp_coherent (hm : m.TextHeap) (op : TextOp) (h : op.InText m)
    (hc : op.Coherent m.textByteAt m.filled) :
    ∃ m', (op.run tbl).run m = .ok (op.apply m.textByteAt).1 m' ∧
      op.Leaves tbl (op.apply m.textByteAt).2 m' ∧ m'.textByteAt = (op.apply m.textByteAt).2 ∧
      m'.filled = op.fill m.filled ∧ m'.TextHeap ∧ ∀ b, m.OnlyText b → m'.OnlyText b := by
  cases op with
  | load l a =>
    exact ⟨m, (load_iff h m).mpr ⟨hc, rfl⟩, trivial, rfl, rfl, hm, fun _ hb => hb⟩
  | store w a v =>
    have hal : a &&& w.mask = 0 := h.2
    refine ⟨m.putText tbl (textIndex a) (m.written w a v), store_run h, (leaves_iff hm h).mpr hc,
      ?_, ?_, textHeap_putText hm _ _, fun b hb => ⟨hb.text, hb.data, hb.stack, hb.kData⟩⟩
    · rw [(written_iff hal v).mpr hc]
      exact textByteAt_store hm hal v
    · funext i
      rw [filled, textSeg_putText, TextOp.fill]
      by_cases hi : i = textIndex a
      · subst hi
        simp
      · rw [Function.update_of_ne hi, Function.update_of_ne hi]
        rfl

/-- An access that does what it does on bytes is coherent. -/
lemma coherent_of_asBytes (hm : m.TextHeap) (op : TextOp) (h : op.InText m) {m' : Machine}
    (hrun : (op.run tbl).run m = .ok (op.apply m.textByteAt).1 m')
    (hl : op.Leaves tbl (op.apply m.textByteAt).2 m') : op.Coherent m.textByteAt m.filled := by
  cases op with
  | load l a => exact ((load_iff h m').mp hrun).1
  | store w a v =>
    apply (leaves_iff hm h).mp
    rw [store_run h] at hrun
    injection hrun with _ hrun
    rw [hrun]
    exact hl

end

/-- From any assembled program, loads and stores in user text see its bytes, and stores leave the
instructions that their words decode to, exactly if every access is coherent. -/
theorem text_as_data_iff (tbl : AOpcodeTbl) (m : Machine) (hm : m.TextHeap) (ops : List TextOp)
    (h : ∀ op ∈ ops, op.InText m) :
    AsBytes tbl ops m.textByteAt m ↔ AllCoherent ops m.textByteAt m.filled := by
  induction ops generalizing m with
  | nil => exact Iff.rfl
  | cons op ops ih =>
    have hop : op.InText m := h op List.mem_cons_self
    have hnext : op.Coherent m.textByteAt m.filled → ∃ m',
        (op.run tbl).run m = .ok (op.apply m.textByteAt).1 m' ∧
        op.Leaves tbl (op.apply m.textByteAt).2 m' ∧
        (AsBytes tbl ops (op.apply m.textByteAt).2 m' ↔
          AllCoherent ops (op.apply m.textByteAt).2 (op.fill m.filled)) := by
      intro hc
      obtain ⟨m', hrun, hl, hbytes, hfill, hheap, htext⟩ := textOp_coherent hm op hop hc
      have hrest := ih m' hheap fun o ho =>
        ⟨htext _ (h o (List.mem_cons_of_mem _ ho)).1, (h o (List.mem_cons_of_mem _ ho)).2⟩
      rw [hbytes, hfill] at hrest
      exact ⟨m', hrun, hl, hrest⟩
    constructor
    · rintro ⟨m₁, hrun₁, hl₁, hrest₁⟩
      have hc := coherent_of_asBytes hm op hop hrun₁ hl₁
      obtain ⟨m', hrun, -, hiff⟩ := hnext hc
      rw [hrun₁] at hrun
      injection hrun with _ hrun
      subst hrun
      exact ⟨hc, hiff.mp hrest₁⟩
    · rintro ⟨hc, hrest⟩
      obtain ⟨m', hrun, hl, hiff⟩ := hnext hc
      exact ⟨m', hrun, hl, hiff.mpr hrest⟩

lemma textHeap_ofText (is : List Inst) : (Machine.ofText is).TextHeap := by
  intro i r hr
  change (if i < is.length then some (i+1) else none) = some r at hr
  split at hr
  · cases hr
    exact Nat.succ_lt_succ ‹_›
  · cases hr

/-- `addi $9, $4, 0x80` and an empty word after it. -/
def oneInst : Machine :=
  { Machine.ofText [instDecode .first 0x20890080] with textTop := 0x400008 }

lemma oneInst_textHeap : oneInst.TextHeap := textHeap_ofText [instDecode .first 0x20890080]

/-- Bytes written into an instruction, and a word into the empty one. -/
theorem text_as_data_iff_write :
    AsBytes .first [.store .byte 0x400000 0x7f, .load .lb 0x400000, .load .lw 0x400004,
        .store .word 0x400004 0x8001, .load .lhu 0x400004] oneInst.textByteAt oneInst ↔
      AllCoherent [.store .byte 0x400000 0x7f, .load .lb 0x400000, .load .lw 0x400004,
        .store .word 0x400004 0x8001, .load .lhu 0x400004] oneInst.textByteAt oneInst.filled :=
  text_as_data_iff .first oneInst oneInst_textHeap _ (by decide +kernel)

/-- A negative byte of an instruction loses its sign, and the byte stored into an empty word is
lost. -/
theorem text_as_data_fails :
    ¬ AsBytes .first [.load .lb 0x400000] oneInst.textByteAt oneInst ∧
      ¬ AsBytes .first [.load .lb 0x400004] oneInst.textByteAt oneInst ∧
      ¬ AsBytes .first [.store .byte 0x400004 1] oneInst.textByteAt oneInst := by
  refine ⟨?_, ?_, ?_⟩ <;> rintro ⟨m', hrun, hl, -⟩
  · have hc := coherent_of_asBytes oneInst_textHeap _ (by decide +kernel) hrun hl
    exact absurd hc (by decide +kernel)
  · have hc := coherent_of_asBytes oneInst_textHeap _ (by decide +kernel) hrun hl
    exact absurd hc (by decide +kernel)
  · have hc := coherent_of_asBytes oneInst_textHeap _ (by decide +kernel) hrun hl
    exact absurd hc (by decide +kernel)

end Spimulator
