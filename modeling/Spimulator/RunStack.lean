import Spimulator.BlockRuns
import Spimulator.DelayedLoads
import Spimulator.Likely
import Spimulator.Unaligned

/-! The stack that a program starts with: initialize_run_stack of spim-utils.c. Addresses are
counted in bytes below the top of the stack. -/
namespace Spimulator
open Frame ByteStore CodeBlock

/-! spim-utils.c. A C string is the list of its bytes before the NUL. -/

section

variable (tbl : AOpcodeTbl)

/-- The loop of copy_str_to_stack, over the bytes from the last one on. -/
def pushBytes : List Byte → Exec Unit
  | [] => pure ()
  | b :: bs => do
    let m ← get
    memWriteByte tbl (m.gpr 29) (b.signExtend 32)
    modify fun m => m.setGpr 29 (m.gpr 29 - 1)
    pushBytes bs

def copyStrToStack (s : List Byte) : Exec Word := do
  pushBytes tbl (s ++ [0]).reverse
  let m ← get
  pure (m.gpr 29 + 1)

def copyIntToStack (n : Word) : Exec Word := do
  let m ← get
  memWriteWord tbl (m.gpr 29) n
  modify fun m => m.setGpr 29 (m.gpr 29 - 4)
  let m ← get
  pure (m.gpr 29 + 4)

/-- The room of the array that holds the addresses of the strings. -/
def addrsSize : ℕ := 10000

/-- Copying strings, the address of the first of them to place `j` of the array. -/
def copyStrs : ℕ → List (List Byte) → Exec (List Word)
  | _, [] => pure []
  | j, s :: ss => do
    let p ← copyStrToStack tbl s
    onlyIf (addrsSize ≤ j) (throw .hostMemory)
    let ps ← copyStrs (j+1) ss
    pure (p :: ps)

/-- A vector, from its last pointer down; `reg` gets the address of each in turn. -/
def pushVector (reg : RegNo) : List Word → Exec Unit
  | [] => pure ()
  | p :: ps => do
    pushVector reg ps
    let a ← copyIntToStack tbl p
    modify fun m => m.setGpr reg a

/-- The second half of initialize_run_stack: the vectors, and argc. -/
def buildVectors (argc : Word) (envp args : List Word) : Exec Unit := do
  let _ ← copyIntToStack tbl 0
  pushVector tbl 6 envp
  let _ ← copyIntToStack tbl 0
  pushVector tbl 5 args
  modify fun m => m.setGpr 4 argc
  let m ← get
  memWriteWord tbl (m.gpr 29) argc

/-- initialize_run_stack -/
def initializeRunStack (environ argv : List (List Byte)) : Exec Unit := do
  modify fun m => m.setGpr 29 (stackTop - 1)
  let envp ← copyStrs tbl 0 environ
  let args ← copyStrs tbl environ.length argv
  modify fun m => m.setGpr 29 (m.gpr 29 &&& ~~~3)
  modify fun m => m.setGpr 29 (m.gpr 29 - 4)
  modify fun m => m.setGpr 29 (m.gpr 29 &&& ~~~7)
  buildVectors tbl (BitVec.ofNat 32 argv.length) envp args

end

/-! Addresses below the top of the stack. -/

def below (d : ℕ) : Word := stackTop - BitVec.ofNat 32 d

lemma toNat_below {d : ℕ} (h : d ≤ 2^31) : (below d).toNat = 2^31 - d := by
  have hle : BitVec.ofNat 32 d ≤ stackTop := by
    rw [BitVec.le_def, BitVec.toNat_ofNat, stackTop_toNat]
    omega
  rw [below, BitVec.toNat_sub_of_le hle, BitVec.toNat_ofNat, stackTop_toNat]
  omega

lemma below_sub (d k : ℕ) : below d - BitVec.ofNat 32 k = below (d + k) := by
  rw [below, below, BitVec.ofNat_add]
  generalize BitVec.ofNat 32 d = x
  generalize BitVec.ofNat 32 k = y
  bv_omega

lemma below_add {d k : ℕ} (h : k ≤ d) : below d + BitVec.ofNat 32 k = below (d - k) := by
  have hd : d = (d - k) + k := by omega
  rw [hd, ← below_sub, BitVec.sub_add_cancel, Nat.add_sub_cancel]

/-- The size of the stack after an access `need` bytes below its top. -/
def grownTo (size need : ℕ) : ℕ :=
  if need ≤ size then size else size + max ((need - size + 7)/4*4) size

lemma le_grownTo (size need : ℕ) : size ≤ grownTo size need := by
  unfold grownTo
  split <;> omega

lemma need_le_grownTo (size need : ℕ) : need ≤ grownTo size need := by
  unfold grownTo
  split <;> omega

/-- The size of the stack after `n` pushes of `step` bytes each, the first of them `d` bytes below
its top. -/
def pushed (step size d n : ℕ) : ℕ := (List.range' d n step).foldl grownTo size

lemma pushed_add (step size d j k : ℕ) :
    pushed step size d (j + k) = pushed step (pushed step size d j) (d + step*j) k := by
  rw [pushed, pushed, pushed, ← List.foldl_append, List.range'_append]

lemma pushed_succ (step size d n : ℕ) :
    pushed step size d (n+1) = pushed step (grownTo size d) (d + step) n := rfl

lemma le_pushed (step size d n : ℕ) : size ≤ pushed step size d n := by
  induction n generalizing size d with
  | zero => exact Nat.le_refl _
  | succ n ih => exact Nat.le_trans (le_grownTo size d) (ih _ _)

/-- The stack reaches as far as the bytes pushed. -/
lemma depth_le_pushed {size d : ℕ} (h : d ≤ size + 1) (n : ℕ) : d + n ≤ pushed 1 size d n + 1 := by
  induction n generalizing size d with
  | zero => exact h
  | succ n ih =>
    have hneed := need_le_grownTo size d
    have hreach : d + 1 ≤ grownTo size d + 1 := Nat.succ_le_succ hneed
    have hrest := ih hreach
    rw [pushed_succ]
    omega

/-- No other segment reaches into the top `d` bytes below the top of the stack. -/
structure Machine.Room (m : Machine) (d : ℕ) : Prop where
  dataBot : dataBot ≤ m.dataTop
  data : m.dataTop.toNat < 2^31 - d
  text : m.textTop.toNat ≤ 2^31 - d

lemma Machine.Room.mono {m : Machine} {d e : ℕ} (h : m.Room d) (hle : e ≤ d) : m.Room e :=
  ⟨h.dataBot, by have := h.data; omega, by have := h.text; omega⟩

/-! One access. -/

section

variable {m : Machine} (tbl : AOpcodeTbl) {w : Width} {d size : ℕ}

lemma roundUp_toNat (n : ℕ) : roundUp ((n : ℤ) + 4) = ((n + 7)/4*4 : ℕ) := by
  unfold roundUp
  omega

lemma toNat_stackBot (hb : m.Bounds) (hsize : (stackTop - m.stackBot).toNat = size) :
    m.stackBot.toNat = 2^31 - size ∧ size ≤ 2^31 := by
  have hle := BitVec.le_def.mp hb.stackLe
  rw [BitVec.toNat_sub_of_le hb.stackLe, stackTop_toNat] at hsize
  rw [stackTop_toNat] at hle
  omega

/-- A write below the bottom of the stack, and how far the stack then reaches. -/
lemma memWrite_expands (hb : m.Bounds) (hroom : m.Room d)
    (hsize : (stackTop - m.stackBot).toNat = size) (hd : size < d) (hnear : d ≤ size + 16)
    (hal : below d &&& w.mask = 0) (hlimit : (grownTo size d : ℤ) ≤ m.stackSizeLimit) (v : Word) :
    ∃ m', (memWrite tbl w (below d) v).run m = .ok () m' ∧
      m'.byteAt = m.byteAt.write w (below d) v ∧ m.SameButData m' ∧ m'.Bounds ∧
      (stackTop - m'.stackBot).toNat = grownTo size d := by
  obtain ⟨hbot, hle⟩ := toNat_stackBot hb hsize
  have hdata := hroom.data
  have hdb : dataBot.toNat ≤ m.dataTop.toNat := BitVec.le_def.mp hroom.dataBot
  have hdb' : dataBot.toNat = 0x10000000 := rfl
  have hto := toNat_below (d := d) (by omega)
  have htext : ¬ m.inText (below d) := by
    intro h
    have hlt := BitVec.lt_def.mp h.2
    have hroom' := hroom.text
    omega
  have hbelow : m.belowStack (below d) := by
    refine ⟨BitVec.lt_def.mpr (by omega), BitVec.lt_def.mpr (by omega), BitVec.lt_def.mpr ?_⟩
    have hk : (0x1000000 : Word).toNat = 0x1000000 := rfl
    rw [BitVec.toNat_sub_of_le (BitVec.le_def.mpr (by omega)), hk]
    omega
  have hint : (m.stackBot - below d + 4).toInt = ((d - size : ℕ) : ℤ) + 4 := by
    rw [(below_toInt hbelow).2, hbot, hto]
    omega
  have hgrown : grownTo size d = size + max ((d - size + 7)/4*4) size := by
    rw [grownTo, if_neg (by omega)]
  have hgrows : m.grows (below d) := by
    refine ⟨htext, hbelow, ?_⟩
    rw [hint, roundUp_toNat, hsize, ← Nat.cast_max, ← Nat.cast_add, ← hgrown]
    exact hlimit
  obtain ⟨m', hrun, hbytes, hsame, hb'⟩ := memWrite_grows tbl hb hal hgrows v
  refine ⟨m', hrun, hbytes, hsame, hb', ?_⟩
  have hexpand := expandStack_run (n := (m.stackBot - below d + 4).toInt) hsize
    (by rw [hint]; omega) (by rw [hint, roundUp_toNat]; omega) hb.limit
  obtain ⟨hnd, hns, hnk⟩ := not_inside_of_below hb hbelow
  rw [hint, roundUp_toNat] at hexpand
  rw [memWrite, EStateM.run_bind, EStateM.run_get] at hrun
  simp only [hnd, hns, hnk, false_and, if_false] at hrun
  rw [badMemWrite, EStateM.run_bind, EStateM.run_get] at hrun
  simp only [hal, ne_eq, not_true_eq_false, if_false, htext, hbelow, if_true] at hrun
  rw [hint, run_bind_of_ok hexpand] at hrun
  have hneed := need_le_grownTo size d
  have hlim := hb.limit
  have hsum : ((size : ℤ) + max (((d - size + 7)/4*4 : ℕ) : ℤ) size).toNat = grownTo size d := by
    rw [hgrown, ← Nat.cast_max, ← Nat.cast_add, Int.toNat_natCast]
  rw [hsum] at hrun
  generalize hmoved : m.moveStack (size/4) (grownTo size d/4 - size/4) (grownTo size d - size) =
    moved at hrun
  have hbot' : moved.stackBot.toNat = 2^31 - grownTo size d := by
    rw [← hmoved]
    change (m.stackBot - BitVec.ofNat 32 (grownTo size d - size)).toNat = _
    rw [lowered_toNat (by omega), hbot]
    omega
  change (if moved.stackBot ≤ below d then (set (moved.storeStack w (below d) v) : Exec Unit)
    else _).run moved = _ at hrun
  rw [if_pos (BitVec.le_def.mpr (by omega))] at hrun
  cases hrun
  change (stackTop - moved.stackBot).toNat = _
  rw [BitVec.toNat_sub_of_le (BitVec.le_def.mpr (by rw [stackTop_toNat]; omega)), stackTop_toNat,
    hbot']
  omega

/-- A write near the bottom of the stack, or a little below it. -/
lemma memWrite_below (hb : m.Bounds) (hroom : m.Room d) (h0 : 0 < d)
    (hsize : (stackTop - m.stackBot).toNat = size) (hnear : d ≤ size + 16)
    (hal : below d &&& w.mask = 0) (hlimit : (grownTo size d : ℤ) ≤ m.stackSizeLimit) (v : Word) :
    ∃ m', (memWrite tbl w (below d) v).run m = .ok () m' ∧
      m'.byteAt = m.byteAt.write w (below d) v ∧ m.SameButData m' ∧ m'.Bounds ∧
      (stackTop - m'.stackBot).toNat = grownTo size d := by
  by_cases hd : d ≤ size
  · obtain ⟨hbot, hle⟩ := toNat_stackBot hb hsize
    have hto := toNat_below (d := d) (by omega)
    have hin : m.inside (below d) := by
      refine Or.inr (Or.inl ⟨BitVec.le_def.mpr (by omega), BitVec.lt_def.mpr ?_⟩)
      rw [hto, stackTop_toNat]
      omega
    obtain ⟨m', hrun, hbytes, hsame, hb'⟩ := memWrite_inside tbl hb hal hin v
    refine ⟨m', hrun, hbytes, hsame, hb', ?_⟩
    rw [memWrite_stackBot hal hin hrun, hsize, grownTo, if_pos hd]
  · exact memWrite_expands tbl hb hroom hsize (Nat.lt_of_not_le hd) hnear hal hlimit v

end

/-! The machine while the stack is filled. -/

/-- The stack pointer is `d` bytes below the top of a stack of `size` bytes, and only registers and
data have changed since `m₀`. -/
structure StackAt (m₀ m : Machine) (size d : ℕ) : Prop where
  bounds : m.Bounds
  extent : (stackTop - m.stackBot).toNat = size
  sp : m.gpr 29 = below d
  zero : m.gpr 0 = m₀.gpr 0
  same : (m₀.setRegs m.toRegs).SameButData m
  near : d ≤ size + 16

lemma below_inj {d e : ℕ} (hd : d ≤ 2^31) (he : e ≤ 2^31) (h : below d = below e) : d = e := by
  have hto := congrArg BitVec.toNat h
  rw [toNat_below hd, toNat_below he] at hto
  omega

lemma byteOf_signExtend (b : Byte) : byteOf (b.signExtend 32) 0 = b := by
  change (b.signExtend 32).extractLsb' 0 8 = b
  ext i hi
  rw [BitVec.getElem_extractLsb', BitVec.getLsbD_signExtend]
  have hlt : i < 32 := by omega
  simp [hlt, hi]

/-- The byte at a place, when another or the same is written. -/
lemma write_byte_below (f : ByteMap) (b : Byte) {d e : ℕ} (hd : d ≤ 2^31) (he : e ≤ 2^31) :
    f.write .byte (below d) (b.signExtend 32) (below e) = if e = d then b else f (below e) := by
  change (if (below e - below d).toNat < 1 then
    byteOf (b.signExtend 32) (below e - below d).toNat else f (below e)) = _
  by_cases h : e = d
  · subst h
    simp [byteOf_signExtend]
  · have hne : ¬ (below e - below d).toNat < 1 := by
      intro hlt
      have hz : below e - below d = 0#32 :=
        BitVec.eq_of_toNat_eq (Nat.lt_one_iff.mp hlt)
      exact h (below_inj he hd (BitVec.sub_eq_iff_eq_add.mp hz |>.trans (BitVec.zero_add _)))
    rw [if_neg hne, if_neg h]

/-- The bytes of a word end at its place; those above it are not touched. -/
lemma write_word_below (f : ByteMap) (v : Word) {d e : ℕ} (hd : d ≤ 2^31) (he : e + 4 ≤ d) :
    f.write .word (below d) v (below e) = f (below e) := by
  rw [ByteMap.write_word, if_neg ?_]
  have hle : below d ≤ below e := by
    rw [BitVec.le_def, toNat_below hd, toNat_below (by omega)]
    omega
  rw [BitVec.toNat_sub_of_le hle, toNat_below hd, toNat_below (by omega)]
  omega

section

variable {m₀ m : Machine} (tbl : AOpcodeTbl) {w : Width} {d e size : ℕ}

namespace StackAt

lemma room (h : StackAt m₀ m size d) (hroom : m₀.Room d) : m.Room d := by
  have hdata : m.dataTop = m₀.dataTop := by
    rw [h.same]
    rfl
  have htext : m.textTop = m₀.textTop := by
    rw [h.same]
    rfl
  exact ⟨hdata ▸ hroom.dataBot, hdata ▸ hroom.data, htext ▸ hroom.text⟩

lemma write (h : StackAt m₀ m size d) (hroom : m₀.Room d) (h0 : 0 < d)
    (hal : below d &&& w.mask = 0) (hlimit : (grownTo size d : ℤ) ≤ m₀.stackSizeLimit) (v : Word) :
    ∃ m', (memWrite tbl w (m.gpr 29) v).run m = .ok () m' ∧
      m'.byteAt = m.byteAt.write w (below d) v ∧ StackAt m₀ m' (grownTo size d) d := by
  have hlim : m.stackSizeLimit = m₀.stackSizeLimit := by
    rw [h.same]
    rfl
  obtain ⟨m', hrun, hbytes, hsame, hb, hsize⟩ := memWrite_below tbl h.bounds
    (h.room hroom) h0 h.extent h.near hal (hlim ▸ hlimit) v
  have hregs : m'.toRegs = m.toRegs := by
    rw [hsame]
  have hgpr : m'.gpr = m.gpr := congrArg Regs.gpr hregs
  have hneed := need_le_grownTo size d
  refine ⟨m', h.sp ▸ hrun, hbytes, hb, hsize, ?_, ?_, ?_, by omega⟩
  · rw [hgpr]
    exact h.sp
  · rw [hgpr]
    exact h.zero
  · rw [hregs]
    exact h.same.trans hsame

lemma bounds_setGpr (h : StackAt m₀ m size d) (r : RegNo) (v : Word) : (m.setGpr r v).Bounds :=
  ⟨h.bounds.data, h.bounds.stack, h.bounds.kData, h.bounds.stackLe, h.bounds.limit⟩

lemma same_setGpr (h : StackAt m₀ m size d) (r : RegNo) (v : Word) :
    (m₀.setRegs (m.setGpr r v).toRegs).SameButData (m.setGpr r v) :=
  congrArg (fun u : Machine => u.setGpr r v) h.same

lemma setSp (h : StackAt m₀ m size d) {v : Word} (hv : v = below e) (hnear : e ≤ size + 16) :
    StackAt m₀ (m.setGpr 29 v) size e :=
  ⟨h.bounds_setGpr _ _, h.extent, (m.gpr_setGpr_self 29 v).trans hv,
    (m.gpr_setGpr_of_ne (by decide) v).trans h.zero, h.same_setGpr _ _, hnear⟩

lemma setGpr (h : StackAt m₀ m size d) {r : RegNo} (hr : r ≠ 29) (hz : r ≠ 0) (v : Word) :
    StackAt m₀ (m.setGpr r v) size d :=
  ⟨h.bounds_setGpr _ _, h.extent, (m.gpr_setGpr_of_ne hr.symm v).trans h.sp,
    (m.gpr_setGpr_of_ne hz.symm v).trans h.zero, h.same_setGpr _ _, h.near⟩

end StackAt

lemma pushBytes_run (bs : List Byte) (h : StackAt m₀ m size d) (h0 : 0 < d)
    (hroom : m₀.Room (d + bs.length))
    (hlimit : (pushed 1 size d bs.length : ℤ) ≤ m₀.stackSizeLimit) :
    ∃ m', (pushBytes tbl bs).run m = .ok () m' ∧
      StackAt m₀ m' (pushed 1 size d bs.length) (d + bs.length) ∧
      (∀ i (hi : i < bs.length), m'.byteAt (below (d + i)) = bs[i]) ∧
      ∀ e < d, m'.byteAt (below e) = m.byteAt (below e) := by
  induction bs generalizing m size d with
  | nil => exact ⟨m, rfl, h, by simp, fun _ _ => rfl⟩
  | cons b bs ih =>
    have hroomd : m₀.Room d := hroom.mono (Nat.le_add_right _ _)
    have hdata := hroom.data
    simp only [List.length_cons, pushed_succ] at hlimit hroom hdata ⊢
    have hlim : (grownTo size d : ℤ) ≤ m₀.stackSizeLimit := by
      have hle := le_pushed 1 (grownTo size d) (d + 1) bs.length
      omega
    obtain ⟨m₁, hrun₁, hbytes₁, h₁⟩ := h.write tbl (w := .byte) hroomd h0
      (BitVec.and_zero) hlim (b.signExtend 32)
    have hsp : m₁.gpr 29 - 1 = below (d + 1) := by
      rw [h₁.sp]
      exact below_sub d 1
    have hneed := need_le_grownTo size d
    have h₂ := h₁.setSp hsp (by omega)
    obtain ⟨m', hrun, hat, hbytes, habove⟩ := ih h₂ (by omega)
      (hroom.mono (by omega)) hlimit
    have hbyte (e : ℕ) (he : e ≤ 2^31) : (m₁.setGpr 29 (m₁.gpr 29 - 1)).byteAt (below e) =
        if e = d then b else m.byteAt (below e) := by
      change m₁.byteAt (below e) = _
      rw [hbytes₁]
      exact write_byte_below _ b (by omega) he
    refine ⟨m', ?_, ?_, ?_, ?_⟩
    · rw [pushBytes, EStateM.run_bind, EStateM.run_get]
      change (do
        memWrite tbl .byte (m.gpr 29) (b.signExtend 32)
        modify fun m => m.setGpr 29 (m.gpr 29 - 1)
        pushBytes tbl bs : Exec Unit).run m = _
      rw [run_bind_of_ok hrun₁]
      exact hrun
    · rwa [Nat.add_right_comm, Nat.add_assoc] at hat
    · intro i hi
      cases i with
      | zero =>
        rw [Nat.add_zero, habove d (by omega), hbyte d (by omega), if_pos rfl]
        rfl
      | succ i =>
        have hi' : i < bs.length := by omega
        have hsum : d + (i + 1) = d + 1 + i := by omega
        rw [hsum, hbytes i hi']
        rfl
    · intro e he
      rw [habove e (by omega), hbyte e (by omega), if_neg (by omega)]

end

/-! Strings. -/

/-- A string with its NUL at an address. -/
def CString (f : ByteMap) (p : Word) (s : List Byte) : Prop :=
  ∀ i (h : i < (s ++ [0]).length), f (p + BitVec.ofNat 32 i) = (s ++ [0])[i]

/-- The number of bytes of some strings. -/
def strBytes (ss : List (List Byte)) : ℕ := (ss.map fun s => s.length + 1).sum

lemma strBytes_cons (s : List Byte) (ss : List (List Byte)) :
    strBytes (s :: ss) = (s.length + 1) + strBytes ss := rfl

/-- The addresses of strings that are copied one after the other. -/
def stringAddrs : ℕ → List (List Byte) → List Word
  | _, [] => []
  | d, s :: ss => below (d + s.length) :: stringAddrs (d + (s.length + 1)) ss

lemma stringAddrs_length (d : ℕ) (ss : List (List Byte)) : (stringAddrs d ss).length = ss.length := by
  induction ss generalizing d with
  | nil => rfl
  | cons s ss ih => simp [stringAddrs, ih]

section

variable {m₀ m : Machine} (tbl : AOpcodeTbl) {d size : ℕ}

lemma CString.congr {f g : ByteMap} {s : List Byte} (hd : 0 < d)
    (h : ∀ e < d + (s.length + 1), g (below e) = f (below e))
    (hs : CString f (below (d + s.length)) s) : CString g (below (d + s.length)) s := by
  intro i hi
  have hlen : i < s.length + 1 := by simpa using hi
  have hi' := hs i hi
  rw [below_add (by omega)] at hi' ⊢
  rw [h _ (by omega), hi']

lemma copyStr_run (s : List Byte) (h : StackAt m₀ m size d) (h0 : 0 < d)
    (hroom : m₀.Room (d + (s.length + 1)))
    (hlimit : (pushed 1 size d (s.length + 1) : ℤ) ≤ m₀.stackSizeLimit) :
    ∃ m', (copyStrToStack tbl s).run m = .ok (below (d + s.length)) m' ∧
      StackAt m₀ m' (pushed 1 size d (s.length + 1)) (d + (s.length + 1)) ∧
      CString m'.byteAt (below (d + s.length)) s ∧
      ∀ e < d, m'.byteAt (below e) = m.byteAt (below e) := by
  have hlen : (s ++ [0]).reverse.length = s.length + 1 := by simp
  obtain ⟨m', hrun, hat, hbytes, habove⟩ := pushBytes_run tbl (s ++ [0]).reverse h h0
    (hlen ▸ hroom) (hlen ▸ hlimit)
  rw [hlen] at hat
  have hp : m'.gpr 29 + 1 = below (d + s.length) := by
    rw [hat.sp, ← Nat.add_assoc]
    exact below_add (Nat.le_add_left 1 _)
  refine ⟨m', ?_, hat, fun i hi => ?_, habove⟩
  · rw [copyStrToStack, run_bind_of_ok hrun, EStateM.run_bind, EStateM.run_get, ← hp]
    rfl
  · have hi' : i < s.length + 1 := by simpa using hi
    have hsub : d + s.length - i = d + (s.length - i) := by omega
    rw [below_add (by omega), hsub, hbytes _ (by omega), List.getElem_reverse]
    congr 1
    simp only [List.length_append, List.length_singleton]
    omega

lemma copyStrs_run {j : ℕ} (ss : List (List Byte)) (hj : j + ss.length ≤ addrsSize)
    (h : StackAt m₀ m size d) (h0 : 0 < d)
    (hroom : m₀.Room (d + strBytes ss))
    (hlimit : (pushed 1 size d (strBytes ss) : ℤ) ≤ m₀.stackSizeLimit) :
    ∃ m', (copyStrs tbl j ss).run m = .ok (stringAddrs d ss) m' ∧
      StackAt m₀ m' (pushed 1 size d (strBytes ss)) (d + strBytes ss) ∧
      List.Forall₂ (CString m'.byteAt) (stringAddrs d ss) ss ∧
      ∀ e < d, m'.byteAt (below e) = m.byteAt (below e) := by
  induction ss generalizing j m size d with
  | nil => exact ⟨m, rfl, h, .nil, fun _ _ => rfl⟩
  | cons s ss ih =>
    rw [List.length_cons] at hj
    rw [strBytes_cons] at hroom hlimit ⊢
    rw [pushed_add, Nat.one_mul] at hlimit ⊢
    have hle := le_pushed 1 (pushed 1 size d (s.length + 1)) (d + (s.length + 1)) (strBytes ss)
    obtain ⟨m₁, hrun₁, h₁, hs, habove₁⟩ := copyStr_run tbl s h h0 (hroom.mono (by omega))
      (by omega)
    obtain ⟨m', hrun, hat, hss, habove⟩ := ih (j := j+1) (by omega) h₁ (by omega)
      (hroom.mono (by omega)) hlimit
    refine ⟨m', ?_, ?_, .cons (hs.congr h0 habove) hss, fun e he => ?_⟩
    · rw [copyStrs, run_bind_of_ok hrun₁, onlyIf_neg (by omega), pure_bind, run_bind_of_ok hrun]
      rfl
    · rwa [Nat.add_assoc] at hat
    · rw [habove e (by omega), habove₁ e he]

lemma forall₂_congr {f g : ByteMap} (ss : List (List Byte)) (hd : 0 < d)
    (h : ∀ e < d + strBytes ss, g (below e) = f (below e))
    (hs : List.Forall₂ (CString f) (stringAddrs d ss) ss) :
    List.Forall₂ (CString g) (stringAddrs d ss) ss := by
  induction ss generalizing d with
  | nil => exact .nil
  | cons s ss ih =>
    rw [strBytes_cons] at h
    obtain ⟨hs, hss⟩ := List.forall₂_cons.mp hs
    exact .cons (hs.congr hd fun e he => h e (by omega))
      (ih (by omega) (fun e he => h e (by omega)) hss)

end

/-! Vectors. -/

/-- Words one after the other from an address on. -/
def WordsAt (f : ByteMap) : Word → List Word → Prop
  | _, [] => True
  | a, v :: vs => f.read .word a = v ∧ WordsAt f (a + 4) vs

lemma WordsAt.congr {f g : ByteMap} {vs : List Word} {d : ℕ} (hlen : 4*vs.length ≤ d)
    (h : ∀ e ≤ d, g (below e) = f (below e)) (hs : WordsAt f (below d) vs) :
    WordsAt g (below d) vs := by
  induction vs generalizing d with
  | nil => trivial
  | cons v vs ih =>
    rw [List.length_cons] at hlen
    obtain ⟨hv, hvs⟩ := hs
    have hnext : below d + 4 = below (d - 4) := below_add (k := 4) (by omega)
    refine ⟨?_, ?_⟩
    · rw [← hv]
      refine congrArg (BitVec.signExtend 32) (readLE_congr fun i hi => ?_)
      have hi4 : 0 + i < 4 := by
        rw [Nat.zero_add]
        exact hi
      rw [below_add (by omega)]
      exact h _ (by omega)
    · rw [hnext] at hvs ⊢
      exact ih (by omega) (fun e he => h e (by omega)) hvs

section

variable {m₀ m : Machine} (tbl : AOpcodeTbl) {d size : ℕ} {vs : List Word}

lemma below_aligned {k : ℕ} (hd : d ≤ 2^31) (h : d % 2^k = 0) (hk : k ≤ 31) :
    (below d).toNat % 2^k = 0 := by
  have hsplit : 2^31 = 2^k * 2^(31-k) := by
    rw [← Nat.pow_add, Nat.add_sub_cancel' hk]
  rw [toNat_below hd]
  exact Nat.mod_eq_zero_of_dvd
    (Nat.dvd_sub (hsplit ▸ Nat.dvd_mul_right _ _) (Nat.dvd_of_mod_eq_zero h))

/-- A word is stored in front of others. -/
lemma StackAt.push (h : StackAt m₀ m size d) (hroom : m₀.Room d) (hal : d % 4 = 0)
    (hlimit : (grownTo size d : ℤ) ≤ m₀.stackSizeLimit) (hlen : 4*vs.length + 4 ≤ d)
    (hvs : WordsAt m.byteAt (m.gpr 29 + 4) vs) (v : Word) :
    ∃ m', (memWriteWord tbl (m.gpr 29) v).run m = .ok () m' ∧ StackAt m₀ m' (grownTo size d) d ∧
      WordsAt m'.byteAt (m'.gpr 29) (v :: vs) ∧
      ∀ e, e + 4 ≤ d → m'.byteAt (below e) = m.byteAt (below e) := by
  have hdata := hroom.data
  have hmask : below d &&& Width.word.mask = 0 :=
    (Width.and_mask_eq_zero .word _).mpr (below_aligned (k := 2) (by omega) hal (by decide))
  obtain ⟨m', hrun, hbytes, hat⟩ := h.write tbl (w := .word) hroom (by omega) hmask hlimit v
  have hkept (e : ℕ) (he : e + 4 ≤ d) : m'.byteAt (below e) = m.byteAt (below e) := by
    rw [hbytes]
    exact write_word_below _ v (by omega) he
  have hnext : below d + 4 = below (d - 4) := below_add (k := 4) (by omega)
  rw [h.sp, hnext] at hvs
  refine ⟨m', hrun, hat, ⟨?_, ?_⟩, hkept⟩
  · rw [hbytes, hat.sp]
    exact ByteMap.read_write _ _ _
  · rw [hat.sp, hnext]
    exact hvs.congr (by omega) fun e he => hkept e (by omega)

lemma copyInt_run (h : StackAt m₀ m size d) (hroom : m₀.Room d) (hal : d % 4 = 0)
    (hlimit : (grownTo size d : ℤ) ≤ m₀.stackSizeLimit) (hlen : 4*vs.length + 4 ≤ d)
    (hvs : WordsAt m.byteAt (m.gpr 29 + 4) vs) (v : Word) :
    ∃ a m', (copyIntToStack tbl v).run m = .ok a m' ∧
      StackAt m₀ m' (grownTo size d) (d + 4) ∧ WordsAt m'.byteAt (m'.gpr 29 + 4) (v :: vs) ∧
      ∀ e, e + 4 ≤ d → m'.byteAt (below e) = m.byteAt (below e) := by
  obtain ⟨m₁, hrun, hat, hwords, hkept⟩ := h.push tbl hroom hal hlimit hlen hvs v
  have hneed := need_le_grownTo size d
  have hsp : m₁.gpr 29 - 4 = below (d + 4) := by
    rw [hat.sp]
    exact below_sub d 4
  refine ⟨m₁.gpr 29 - 4 + 4, m₁.setGpr 29 (m₁.gpr 29 - 4), ?_, hat.setSp hsp (by omega), ?_, hkept⟩
  · rw [copyIntToStack, EStateM.run_bind, EStateM.run_get]
    change (do
      memWriteWord tbl (m.gpr 29) v
      modify fun m => m.setGpr 29 (m.gpr 29 - 4)
      let m ← get
      pure (m.gpr 29 + 4) : Exec Word).run m = _
    rw [run_bind_of_ok hrun]
    rfl
  · rw [Machine.gpr_setGpr_self, BitVec.sub_add_cancel]
    exact hwords

lemma pushVector_run (reg : RegNo) (hr : reg ≠ 29) (hz : reg ≠ 0) (ps : List Word)
    (h : StackAt m₀ m size d) (hroom : m₀.Room (d + 4*ps.length)) (hal : d % 4 = 0)
    (hlimit : (pushed 4 size d ps.length : ℤ) ≤ m₀.stackSizeLimit) (hlen : 4*vs.length + 4 ≤ d)
    (hvs : WordsAt m.byteAt (m.gpr 29 + 4) vs) :
    ∃ m', (pushVector tbl reg ps).run m = .ok () m' ∧
      StackAt m₀ m' (pushed 4 size d ps.length) (d + 4*ps.length) ∧
      WordsAt m'.byteAt (m'.gpr 29 + 4) (ps ++ vs) ∧
      ∀ e, e + 4 ≤ d → m'.byteAt (below e) = m.byteAt (below e) := by
  induction ps with
  | nil => exact ⟨m, rfl, h, hvs, fun _ _ => rfl⟩
  | cons p ps ih =>
    rw [List.length_cons, pushed_add] at hlimit ⊢
    rw [List.length_cons] at hroom
    have hle := le_grownTo (pushed 4 size d ps.length) (d + 4*ps.length)
    change (grownTo (pushed 4 size d ps.length) (d + 4*ps.length) : ℤ) ≤ _ at hlimit
    obtain ⟨m₁, hrun₁, h₁, hwords₁, hkept₁⟩ := ih (hroom.mono (by omega)) (by omega)
    obtain ⟨a, m₂, hrun₂, h₂, hwords₂, hkept₂⟩ := copyInt_run tbl h₁
      (hroom.mono (by omega)) (by omega) hlimit (by rw [List.length_append]; omega) hwords₁ p
    refine ⟨m₂.setGpr reg a, ?_, h₂.setGpr hr hz _, ?_, fun e he => ?_⟩
    · rw [pushVector, run_bind_of_ok hrun₁, run_bind_of_ok hrun₂]
      rfl
    · rw [Machine.gpr_setGpr_of_ne _ hr.symm]
      exact hwords₂
    · exact (hkept₂ e (by omega)).trans (hkept₁ e he)

end

/-! The initial stack. -/

/-- A block of memory: where it starts, and its size. -/
abbrev Block := Word × ℕ

def Block.Apart (a b : Block) : Prop :=
  a.1.toNat + a.2 ≤ b.1.toNat ∨ b.1.toNat + b.2 ≤ a.1.toNat

/-- The strings at some addresses. -/
def stringBlocks (ps : List Word) (ss : List (List Byte)) : List Block :=
  List.zipWith (fun p s => (p, s.length + 1)) ps ss

/-- argc with the vectors, and the strings. -/
def stackBlocks (sp : Word) (environ argv : List (List Byte)) (envp args : List Word) : List Block :=
  (sp, 4*(environ.length + argv.length + 3)) ::
    (stringBlocks envp environ ++ stringBlocks args argv)

/-- argc is at $sp, then come the two vectors, each with a null pointer at its end. Each pointer is
that of its string, and nothing overlaps. -/
structure RunStack (m : Machine) (environ argv : List (List Byte)) (envp args : List Word) : Prop where
  aligned : m.gpr 29 &&& 3 = 0
  words : WordsAt m.byteAt (m.gpr 29)
    (BitVec.ofNat 32 argv.length :: (args ++ 0 :: (envp ++ [0])))
  argStrings : List.Forall₂ (CString m.byteAt) args argv
  envStrings : List.Forall₂ (CString m.byteAt) envp environ
  apart : (stackBlocks (m.gpr 29) environ argv envp args).Pairwise Block.Apart
  inside : ∀ b ∈ stackBlocks (m.gpr 29) environ argv envp args, b.1.toNat + b.2 ≤ 2^31

/-- How far below the top of the stack the last word is, after the strings and the first
alignments. -/
def vectorDepth (bytes : ℕ) : ℕ := ((bytes + 1 + 3)/4*4 + 4 + 7)/8*8

/-- How far below the top of the stack argc is. -/
def stackDepth (environ argv : List (List Byte)) : ℕ :=
  vectorDepth (strBytes environ + strBytes argv) + 4*(environ.length + argv.length + 2)

/-- The size of the stack in the end. -/
def finalSize (size : ℕ) (environ argv : List (List Byte)) : ℕ :=
  pushed 4 (pushed 1 size 1 (strBytes environ + strBytes argv))
    (vectorDepth (strBytes environ + strBytes argv)) (environ.length + argv.length + 3)

/-- The stack can be extended for the strings and the vectors. -/
structure Machine.StackFits (m : Machine) (environ argv : List (List Byte)) : Prop where
  room : m.Room (stackDepth environ argv)
  limit : (finalSize (stackTop - m.stackBot).toNat environ argv : ℤ) ≤ m.stackSizeLimit

section

variable {m₀ m : Machine} (tbl : AOpcodeTbl) {d : ℕ}

lemma below_mask {k : ℕ} (hk : k = 2 ∨ k = 3) (hd : d ≤ 2^31 - 8) :
    below d &&& (BitVec.allOnes 32 <<< k) = below ((d + (2^k - 1))/2^k*2^k) := by
  apply BitVec.eq_of_toNat_eq
  rw [Alignment.toNat_and_allOnes_shiftLeft, toNat_below (by omega)]
  rcases hk with rfl | rfl
  · rw [toNat_below (by omega)]
    omega
  · rw [toNat_below (by omega)]
    omega

/-- The strings lie one below the other. -/
lemma stringBlocks_le (ss : List (List Byte)) (h0 : 0 < d) (hd : d + strBytes ss ≤ 2^31) :
    ∀ b ∈ stringBlocks (stringAddrs d ss) ss,
      2^31 - (d + strBytes ss) < b.1.toNat ∧ b.1.toNat + b.2 ≤ 2^31 - (d - 1) := by
  induction ss generalizing d with
  | nil => exact fun b hb => absurd hb List.not_mem_nil
  | cons s ss ih =>
    rw [strBytes_cons] at hd
    intro b hb
    rw [strBytes_cons]
    rcases List.mem_cons.mp hb with rfl | hb
    · dsimp only
      rw [toNat_below (by omega)]
      omega
    · have hrest := ih (d := d + (s.length + 1)) (by omega) (by omega) b hb
      omega

lemma stringBlocks_apart (ss : List (List Byte)) (h0 : 0 < d) (hd : d + strBytes ss ≤ 2^31) :
    (stringBlocks (stringAddrs d ss) ss).Pairwise Block.Apart := by
  induction ss generalizing d with
  | nil => exact .nil
  | cons s ss ih =>
    rw [strBytes_cons] at hd
    refine .cons (fun b hb => Or.inr ?_) (ih (by omega) (by omega))
    have hb' := (stringBlocks_le ss (d := d + (s.length + 1)) (by omega) (by omega) b hb).2
    dsimp only
    rw [toNat_below (by omega)]
    omega

lemma buildVectors_run {size : ℕ} (argc : Word) (envp args : List Word) (h : StackAt m₀ m size d)
    (hd : 4 ≤ d) (hal : d % 4 = 0) (hroom : m₀.Room (d + 4*(envp.length + args.length + 2)))
    (hlimit : (pushed 4 size d (envp.length + args.length + 3) : ℤ) ≤ m₀.stackSizeLimit) :
    ∃ m', (buildVectors tbl argc envp args).run m = .ok () m' ∧
      StackAt m₀ m' (pushed 4 size d (envp.length + args.length + 3))
        (d + 4*(envp.length + args.length + 2)) ∧
      WordsAt m'.byteAt (m'.gpr 29) (argc :: (args ++ 0 :: (envp ++ [0]))) ∧
      ∀ e, e + 4 ≤ d → m'.byteAt (below e) = m.byteAt (below e) := by
  have hgrown (k : ℕ) : grownTo (pushed 4 size d k) (d + 4*k) = pushed 4 size d (k + 1) :=
    (pushed_add 4 size d k 1).symm
  have hmono (k n : ℕ) : pushed 4 size d k ≤ pushed 4 size d (k + n) := by
    rw [pushed_add]
    exact le_pushed _ _ _ _
  have hcounts : envp.length + args.length + 3 =
      1 + envp.length + 1 + args.length + 1 := by omega
  rw [hcounts] at hlimit ⊢
  have hle₄ := hmono (1 + envp.length + 1 + args.length) 1
  have hle₃ := hmono (1 + envp.length + 1) args.length
  have hle₂ := hmono (1 + envp.length) 1
  have hle₁ := hmono 1 envp.length
  have hfirst : grownTo size d = pushed 4 size d 1 := rfl
  have hdepth (j k : ℕ) : d + 4*j + 4*k = d + 4*(j + k) := by omega
  have hnext (k : ℕ) : d + 4*k + 4 = d + 4*(k + 1) := rfl
  have hnil : WordsAt m.byteAt (m.gpr 29 + 4) [] := trivial
  obtain ⟨_, m₁, hrun₁, h₁, hwords₁, hkept₁⟩ := copyInt_run tbl h
    (hroom.mono (by omega)) hal (by rw [hfirst]; omega)
    (by simp; omega) hnil 0
  obtain ⟨m₂, hrun₂, h₂, hwords₂, hkept₂⟩ := pushVector_run tbl 6 (by decide)
    (by decide) envp h₁ (hroom.mono (by omega)) (by omega)
    (by rw [hfirst, ← pushed_add 4 size d 1]; omega) (by simp; omega) hwords₁
  rw [hfirst, ← pushed_add 4 size d 1, hdepth 1] at h₂
  obtain ⟨_, m₃, hrun₃, h₃, hwords₃, hkept₃⟩ := copyInt_run tbl h₂
    (hroom.mono (by omega)) (by omega) (by rw [hgrown]; omega) (by simp; omega) hwords₂ 0
  rw [hgrown, hnext] at h₃
  obtain ⟨m₄, hrun₄, h₄, hwords₄, hkept₄⟩ := pushVector_run tbl 5 (by decide)
    (by decide) args h₃ (hroom.mono (by omega)) (by omega)
    (by rw [← pushed_add]; omega) (by simp; omega) hwords₃
  rw [← pushed_add, hdepth] at h₄
  have h₄' := h₄.setGpr (r := 4) (by decide) (by decide) argc
  have hwords₄' : WordsAt (m₄.setGpr 4 argc).byteAt ((m₄.setGpr 4 argc).gpr 29 + 4)
      (args ++ 0 :: (envp ++ [0])) := by
    rw [Machine.gpr_setGpr_of_ne _ (by decide)]
    exact hwords₄
  have hend : 1 + envp.length + 1 + args.length = envp.length + args.length + 2 := by omega
  rw [← hend] at hroom ⊢
  obtain ⟨m₅, hrun₅, h₅, hwords₅, hkept₅⟩ := h₄'.push tbl hroom (by omega)
    (by rw [hgrown]; omega) (by simp; omega) hwords₄' argc
  rw [hgrown] at h₅
  refine ⟨m₅, ?_, h₅, hwords₅, fun e he => ?_⟩
  · rw [buildVectors, run_bind_of_ok hrun₁, run_bind_of_ok hrun₂, run_bind_of_ok hrun₃,
      run_bind_of_ok hrun₄]
    exact hrun₅
  · rw [hkept₅ e (by omega)]
    change m₄.byteAt (below e) = _
    rw [hkept₄ e (by omega), hkept₃ e (by omega), hkept₂ e (by omega), hkept₁ e he]

/-- The stack pointer after the strings, rounded down twice. -/
lemma StackAt.align {size : ℕ} (h : StackAt m₀ m size d) (hd : d ≤ 2^31 - 64) (hsize : d ≤ size + 1)
    {sp : Word} (hsp : sp = ((m.gpr 29 &&& ~~~3) - 4) &&& ~~~7) :
    StackAt m₀ (m.setGpr 29 sp) size (((d + 3)/4*4 + 4 + 7)/8*8) := by
  have hword : below d &&& ~~~3 = below ((d + 3)/4*4) := below_mask (Or.inl rfl) (by omega)
  have hfree : below ((d + 3)/4*4) - 4 = below ((d + 3)/4*4 + 4) := below_sub _ 4
  have hdouble : below ((d + 3)/4*4 + 4) &&& ~~~7 = below (((d + 3)/4*4 + 4 + 7)/8*8) :=
    below_mask (Or.inr rfl) (by omega)
  refine h.setSp ?_ (by omega)
  rw [hsp, h.sp, hword, hfree, hdouble]

lemma initializeRunStack_fills {environ argv : List (List Byte)}
    (hcount : environ.length + argv.length ≤ addrsSize) (hb : m.Bounds)
    (hfits : m.StackFits environ argv) :
    ∃ m', (initializeRunStack tbl environ argv).run m = .ok () m' ∧
      StackAt m m' (finalSize (stackTop - m.stackBot).toNat environ argv)
        (stackDepth environ argv) ∧
      WordsAt m'.byteAt (m'.gpr 29) (BitVec.ofNat 32 argv.length ::
        (stringAddrs (1 + strBytes environ) argv ++ 0 :: (stringAddrs 1 environ ++ [0]))) ∧
      List.Forall₂ (CString m'.byteAt) (stringAddrs (1 + strBytes environ) argv) argv ∧
      List.Forall₂ (CString m'.byteAt) (stringAddrs 1 environ) environ := by
  obtain ⟨hroom, hlimit⟩ := hfits
  have hdata := hroom.data
  have hbot : 0x10000000 ≤ m.dataTop.toNat := BitVec.le_def.mp hroom.dataBot
  generalize hsize : (stackTop - m.stackBot).toNat = size at hlimit ⊢
  simp only [stackDepth, finalSize, vectorDepth] at hroom hlimit hdata ⊢
  have hle := le_pushed 4 (pushed 1 size 1 (strBytes environ + strBytes argv))
    (((strBytes environ + strBytes argv + 1 + 3)/4*4 + 4 + 7)/8*8) (environ.length + argv.length + 3)
  have hle₁ := le_pushed 1 (pushed 1 size 1 (strBytes environ)) (1 + 1*strBytes environ)
    (strBytes argv)
  rw [← pushed_add] at hle₁
  have h₀ : StackAt m (m.setGpr 29 (stackTop - 1)) size 1 :=
    ⟨⟨hb.data, hb.stack, hb.kData, hb.stackLe, hb.limit⟩, hsize, m.gpr_setGpr_self _ _,
      m.gpr_setGpr_of_ne (by decide) _, rfl, by omega⟩
  have hdeep := depth_le_pushed (Nat.le_add_left 1 size)
    (strBytes environ + strBytes argv)
  have hsum : pushed 1 (pushed 1 size 1 (strBytes environ)) (1 + strBytes environ) (strBytes argv) =
      pushed 1 size 1 (strBytes environ + strBytes argv) := by
    rw [pushed_add, Nat.one_mul]
  obtain ⟨m₁, hrun₁, h₁, hstr₁, -⟩ := copyStrs_run tbl (j := 0) environ (by omega) h₀
    (by omega) (hroom.mono (by omega)) (by omega)
  obtain ⟨m₂, hrun₂, h₂, hstr₂, hkept₂⟩ := copyStrs_run tbl (j := environ.length) argv hcount
    h₁ (by omega) (hroom.mono (by omega)) (by rw [hsum]; omega)
  have hdepth : 1 + strBytes environ + strBytes argv = strBytes environ + strBytes argv + 1 := by
    omega
  rw [hsum, hdepth] at h₂
  have h₃ := h₂.align (by omega) (by omega) rfl
  obtain ⟨m', hrun, hat, hwords, hkept⟩ := buildVectors_run tbl
    (BitVec.ofNat 32 argv.length) (stringAddrs 1 environ) (stringAddrs (1 + strBytes environ) argv)
    h₃ (by omega) (by omega) (by rw [stringAddrs_length, stringAddrs_length]; exact hroom)
    (by rw [stringAddrs_length, stringAddrs_length]; exact hlimit)
  rw [stringAddrs_length, stringAddrs_length] at hat
  have hbytes (e : ℕ) (he : e < 1 + strBytes environ + strBytes argv) :
      m'.byteAt (below e) = m₂.byteAt (below e) := hkept e (by omega)
  refine ⟨m', ?_, hat, hwords, forall₂_congr argv (by omega) hbytes hstr₂,
    forall₂_congr environ (by omega) (fun e he => (hbytes e (by omega)).trans (hkept₂ e he)) hstr₁⟩
  rw [initializeRunStack, run_bind_of_ok (EStateM.run_modify _ _), run_bind_of_ok hrun₁,
    run_bind_of_ok hrun₂, run_bind_of_ok (EStateM.run_modify _ _),
    run_bind_of_ok (EStateM.run_modify _ _), run_bind_of_ok (EStateM.run_modify _ _)]
  simp only [Machine.gpr_setGpr_self, Machine.setGpr_setGpr]
  exact hrun

variable {environ argv : List (List Byte)}

lemma stackDepth_bounds (h : m.StackFits environ argv) :
    strBytes environ + strBytes argv + 4*(environ.length + argv.length + 3) + 1 ≤
      stackDepth environ argv ∧ stackDepth environ argv % 4 = 0 ∧
        stackDepth environ argv < 2^31 := by
  have hdata := h.room.data
  rw [stackDepth, vectorDepth] at hdata ⊢
  omega

lemma stackDepth_le_finalSize (size : ℕ) (environ argv : List (List Byte)) :
    stackDepth environ argv ≤ finalSize size environ argv := by
  have hlast := pushed_add 4 (pushed 1 size 1 (strBytes environ + strBytes argv))
    (vectorDepth (strBytes environ + strBytes argv)) (environ.length + argv.length + 2) 1
  rw [finalSize, hlast]
  exact need_le_grownTo _ _

lemma stackBlocks_apart (h : m.StackFits environ argv) :
    (stackBlocks (below (stackDepth environ argv)) environ argv (stringAddrs 1 environ)
      (stringAddrs (1 + strBytes environ) argv)).Pairwise Block.Apart ∧
    ∀ b ∈ stackBlocks (below (stackDepth environ argv)) environ argv (stringAddrs 1 environ)
      (stringAddrs (1 + strBytes environ) argv), b.1.toNat + b.2 ≤ 2^31 := by
  obtain ⟨hdeep, -, hlt⟩ := stackDepth_bounds h
  have hto := toNat_below (Nat.le_of_lt hlt)
  have henv := stringBlocks_le environ (d := 1) (by omega) (by omega)
  have harg := stringBlocks_le argv (d := 1 + strBytes environ) (by omega) (by omega)
  have hstrings : ∀ b ∈ stringBlocks (stringAddrs 1 environ) environ ++
      stringBlocks (stringAddrs (1 + strBytes environ) argv) argv,
      2^31 - (1 + strBytes environ + strBytes argv) < b.1.toNat ∧ b.1.toNat + b.2 ≤ 2^31 := by
    intro b hb
    rcases List.mem_append.mp hb with hb | hb
    · have hb' := henv b hb
      omega
    · have hb' := harg b hb
      omega
  refine ⟨List.pairwise_cons.mpr ⟨fun b hb => Or.inl ?_, List.pairwise_append.mpr
    ⟨stringBlocks_apart environ (by omega) (by omega), stringBlocks_apart argv (by omega) (by omega),
      fun b hb c hc => Or.inr ?_⟩⟩, fun b hb => ?_⟩
  · have hb' := hstrings b hb
    dsimp only
    rw [hto]
    omega
  · have hb' := henv b hb
    have hc' := harg c hc
    omega
  · rcases List.mem_cons.mp hb with rfl | hb
    · dsimp only
      rw [hto]
      omega
    · exact (hstrings b hb).2

lemma initializeRunStack_run (hcount : environ.length + argv.length ≤ addrsSize) (hb : m.Bounds)
    (hfits : m.StackFits environ argv) :
    ∃ m' envp args, (initializeRunStack tbl environ argv).run m = .ok () m' ∧
      RunStack m' environ argv envp args ∧ m'.Bounds ∧ m'.inStack (m'.gpr 29) ∧
      m'.gpr 0 = m.gpr 0 ∧ (m.setRegs m'.toRegs).SameButData m' := by
  obtain ⟨m', hrun, hat, hwords, hargs, henvs⟩ :=
    initializeRunStack_fills tbl hcount hb hfits
  obtain ⟨hdeep, hal, hlt⟩ := stackDepth_bounds hfits
  have hword := (Width.and_mask_eq_zero .word _).mpr
    (below_aligned (k := 2) (Nat.le_of_lt hlt) hal (by decide))
  obtain ⟨hapart, hinside⟩ := stackBlocks_apart hfits
  rw [← hat.sp] at hword hapart hinside
  have hbot := (toNat_stackBot hat.bounds hat.extent).1
  have hreach := stackDepth_le_finalSize (stackTop - m.stackBot).toNat environ argv
  refine ⟨m', _, _, hrun, ⟨hword, hwords, hargs, henvs, hapart, hinside⟩, hat.bounds, ?_, hat.zero,
    hat.same⟩
  have hto := toNat_below (Nat.le_of_lt hlt)
  rw [hat.sp]
  refine ⟨BitVec.le_def.mpr (by omega), BitVec.lt_def.mpr ?_⟩
  rw [hto, stackTop_toNat]
  omega

end

/-! The startup code. -/

/-- The instructions at __start that set up the arguments of main. -/
def startCode : List Inst :=
  [makeITypeInst .lw 4 29 0, makeITypeInst .addiu 5 29 4, makeITypeInst .addiu 6 5 4,
    makeRShTypeInst .sll 2 4 2, makeRTypeInst .addu 6 6 2]

/-- An instruction after the loads that arrive before it. -/
def ArrivedRuns (env : Env) (i : Inst) (m m' : Machine) : Prop :=
  InstRuns env i (m.doDelayedUpdate env) m'

section

variable {env : Env} {m m₁ m' : Machine} {i : Inst} {v : Word}

/-- The machine with other loads on their way. -/
def Machine.queued (m : Machine) (l₁ l₂ : Option (LoadDest × Word)) : Machine :=
  { m with delayedLoad1 := l₁, delayedLoad2 := l₂ }

lemma Machine.queued_self {l₁ l₂ : Option (LoadDest × Word)} (h₁ : m.delayedLoad1 = l₁)
    (h₂ : m.delayedLoad2 = l₂) : m.queued l₁ l₂ = m := by
  subst h₁ h₂
  rfl

lemma doDelayedUpdate_none (hd : env.delayedLoads = true) (l : Option (LoadDest × Word)) :
    (m.queued l none).doDelayedUpdate env = m.queued none l :=
  doDelayedUpdate_on hd _

lemma doDelayedUpdate_some (hd : env.delayedLoads = true) (l : Option (LoadDest × Word)) (r : RegNo) :
    (m.queued l (some (.gpr r, v))).doDelayedUpdate env = (m.setGpr r v).queued none l :=
  doDelayedUpdate_on hd _

lemma doDelayedUpdate_idle (h₁ : m.delayedLoad1 = none) (h₂ : m.delayedLoad2 = none) :
    m.doDelayedUpdate env = m := by
  cases hd : env.delayedLoads with
  | false => exact doDelayedUpdate_off hd
  | true =>
    have hq := m.queued_self h₁ h₂
    rw [← hq]
    exact doDelayedUpdate_none hd none

lemma InstRuns.load {w : Width} {addr mask : Word} {dest : LoadDest} (hm : m.Ready)
    (h : dispatch env i m = .load w addr mask dest) (hread : (memRead w addr).run m = .ok v m) :
    InstRuns env i m ((m.loadInst env dest (v &&& mask)).goto (m.pc + 4)) := by
  have hload : (m.loadInst env dest (v &&& mask)).exceptionOccurred = false ∧
      (m.loadInst env dest (v &&& mask)).pc = m.pc := by
    unfold Machine.loadInst
    split
    · exact ⟨hm.noException, rfl⟩
    · cases dest with
      | gpr r => exact ⟨hm.noException, rfl⟩
      | fpr r => exact ⟨hm.noException, rfl⟩
  intro ν slot s
  have hperform : (perform env slot s (dispatch env i m)).run m =
      .ok (.next, s) (m.loadInst env dest (v &&& mask)) := by
    rw [h]
    change (do
      let v ← memRead w addr
      modify (Machine.loadInst env dest (v &&& mask))
      pure (Flow.next, s) : Exec (Flow × ν)).run m = _
    rw [run_bind_of_ok hread]
    rfl
  rw [executeInst_run slot s hm, run_bind_of_ok hperform]
  change EStateM.Result.ok (Flow.next, s) (deliver ((m.loadInst env dest (v &&& mask)).goto
    ((m.loadInst env dest (v &&& mask)).pc + 4))) = _
  rw [deliver_goto hload.1, hload.2]

lemma addiu_runs (env : Env) (rt rs : Byte) (f : Half) (hm : m.Ready) :
    InstRuns env (makeITypeInst .addiu rt rs f) m
      ((m.setGpr rt (m.gpr rs + f.signExtend 32)).goto (m.pc + 4)) := by
  rw [← simm_make rs rt f .addiu]
  exact .setRt hm rfl

lemma startLoad_runs (env : Env) (hm : m.Ready) (hread : (memRead .word (m.gpr 29)).run m = .ok v m) :
    InstRuns env (makeITypeInst .lw 4 29 0) m ((m.loadInst env (.gpr 4) v).goto (m.pc + 4)) := by
  have haddr : effAddr (makeITypeInst .lw 4 29 0) m = m.gpr 29 := by
    change m.gpr 29 + (makeITypeInst .lw 4 29 0).simm = m.gpr 29
    rw [simm_make]
    exact BitVec.add_zero _
  have h : InstRuns env (makeITypeInst .lw 4 29 0) m _ := .load hm rfl (haddr ▸ hread)
  have hmask : v &&& 0xffffffff = v := BitVec.and_allOnes
  rw [hmask] at h
  exact h

/-- A machine in which no load is on its way runs an instruction at once. -/
lemma InstRuns.arrived (he : InstRuns env i m m') (h₁ : m.delayedLoad1 = none)
    (h₂ : m.delayedLoad2 = none) : ArrivedRuns env i m m' := by
  rw [ArrivedRuns, doDelayedUpdate_idle h₁ h₂]
  exact he

/-- The last two instructions of the startup code. -/
lemma startTail_runs {start : Word} (hpc : m.pc = start) (hm : m.Ready)
    (h₁ : m.delayedLoad1 = none) (h₂ : m.delayedLoad2 = none) :
    Runs 4 (fun m : Machine => m.pc) (ArrivedRuns env) start
      [makeRShTypeInst .sll 2 4 2, makeRTypeInst .addu 6 6 2] m
      (((m.setGpr 2 (m.gpr 4 <<< 2)).setGpr 6 (m.gpr 6 + m.gpr 4 <<< 2)).goto (start + 4 + 4)) := by
  subst hpc
  have hsll : InstRuns env (makeRShTypeInst .sll 2 4 2) m
      ((m.setGpr 2 (m.gpr 4 <<< 2)).goto (m.pc + 4)) := .setRd hm rfl
  have hm' : ((m.setGpr 2 (m.gpr 4 <<< 2)).goto (m.pc + 4)).Ready :=
    (hm.setGpr (by decide) _).goto _
  have hsum : ((m.setGpr 2 (m.gpr 4 <<< 2)).goto (m.pc + 4)).gpr 6 +
      ((m.setGpr 2 (m.gpr 4 <<< 2)).goto (m.pc + 4)).gpr 2 = m.gpr 6 + m.gpr 4 <<< 2 := by
    rw [Machine.toRegs_goto, Machine.gpr_setGpr_self, Machine.gpr_setGpr_of_ne _ (by decide)]
  have haddu : InstRuns env (makeRTypeInst .addu 6 6 2) _ _ :=
    .setRd (v := m.gpr 6 + m.gpr 4 <<< 2) hm' (by rw [← hsum]; rfl)
  have hlast : Runs 4 (fun m : Machine => m.pc) (ArrivedRuns env) (slot 4 m.pc 1)
      [makeRTypeInst .addu 6 6 2] ((m.setGpr 2 (m.gpr 4 <<< 2)).goto (m.pc + 4)) _ :=
    Runs.next rfl (haddu.arrived h₁ h₂) .refl
  exact Runs.next rfl (hsll.arrived h₁ h₂) hlast

lemma Machine.setGpr_comm (m : Machine) {r s : RegNo} (h : r ≠ s) (x y : Word) :
    (m.setGpr r x).setGpr s y = (m.setGpr s y).setGpr r x := by
  simp only [setGpr, setRegs, Regs.setGpr, Function.update_comm h]

/-- addiu $a2, $a1, 4 after the two instructions before it. -/
lemma startAdd_runs (env : Env) (v : Word) (hm : m.Ready) (x p : Word) :
    InstRuns env (makeITypeInst .addiu 6 5 4) (((m.setGpr 4 v).setGpr 5 x).goto p)
      ((((m.setGpr 4 v).setGpr 5 x).setGpr 6 (x + 4)).goto (p + 4)) := by
  have h : InstRuns env _ _ _ := addiu_runs env 6 5 4
    (((hm.setGpr (r := 4) (by decide) v).setGpr (r := 5) (by decide) x).goto p)
  rwa [Machine.toRegs_goto, Machine.gpr_setGpr_self] at h

lemma threeRuns {i₁ i₂ i₃ : Inst} {a b c : Machine} (h₁ : ArrivedRuns env i₁ m a)
    (ha : a.pc = m.pc + 4) (h₂ : ArrivedRuns env i₂ a b) (hb : b.pc = m.pc + 4 + 4)
    (h₃ : ArrivedRuns env i₃ b c) :
    Runs 4 (fun m : Machine => m.pc) (ArrivedRuns env) m.pc [i₁, i₂, i₃] m c :=
  Runs.next rfl h₁ (Runs.next ha h₂ (Runs.next hb h₃ .refl))

/-- The first three instructions leave the same registers whether loads are delayed or not. -/
lemma startHead_runs (env : Env) (hm : m.Ready) (h₁ : m.delayedLoad1 = none) (h₂ : m.delayedLoad2 = none)
    (hread : (memRead .word (m.gpr 29)).run m = .ok v m) :
    Runs 4 (fun m : Machine => m.pc) (ArrivedRuns env) m.pc
      [makeITypeInst .lw 4 29 0, makeITypeInst .addiu 5 29 4, makeITypeInst .addiu 6 5 4] m
      ((((m.setGpr 4 v).setGpr 5 (m.gpr 29 + 4)).setGpr 6 (m.gpr 29 + 4 + 4)).goto
        (m.pc + 4 + 4 + 4)) := by
  have hlw := (startLoad_runs env hm hread).arrived h₁ h₂
  cases hd : env.delayedLoads with
  | false =>
    rw [Machine.loadInst, if_neg (by simp [hd])] at hlw
    have hm₁ : ((m.setGpr 4 v).goto (m.pc + 4)).Ready := (hm.setGpr (by decide) v).goto _
    have hadd₁ : ArrivedRuns env (makeITypeInst .addiu 5 29 4) ((m.setGpr 4 v).goto (m.pc + 4))
        (((m.setGpr 4 v).setGpr 5 (m.gpr 29 + 4)).goto (m.pc + 4 + 4)) := by
      have h := addiu_runs env 5 29 4 hm₁
      rw [Machine.toRegs_goto, Machine.gpr_setGpr_of_ne _ (by decide)] at h
      exact h.arrived h₁ h₂
    have hadd₂ := (startAdd_runs env v hm (m.gpr 29 + 4) (m.pc + 4 + 4)).arrived h₁ h₂
    exact threeRuns hlw rfl hadd₁ rfl hadd₂
  | true =>
    rw [Machine.loadInst, if_pos hd] at hlw
    have hadd₁ : ArrivedRuns env (makeITypeInst .addiu 5 29 4)
        (({ m with delayedLoad1 := some (.gpr 4, v) } : Machine).goto (m.pc + 4))
        (((m.setGpr 5 (m.gpr 29 + 4)).goto (m.pc + 4 + 4)).queued none (some (.gpr 4, v))) := by
      have hq : ({ m with delayedLoad1 := some (.gpr 4, v) } : Machine).goto (m.pc + 4) =
          (m.goto (m.pc + 4)).queued (some (.gpr 4, v)) none := by
        rw [← h₂]
        rfl
      rw [ArrivedRuns, hq, doDelayedUpdate_none hd]
      exact addiu_runs env 5 29 4 ⟨hm.zero, hm.noException⟩
    have hadd₂ : ArrivedRuns env (makeITypeInst .addiu 6 5 4)
        (((m.setGpr 5 (m.gpr 29 + 4)).goto (m.pc + 4 + 4)).queued none (some (.gpr 4, v)))
        ((((m.setGpr 4 v).setGpr 5 (m.gpr 29 + 4)).setGpr 6 (m.gpr 29 + 4 + 4)).goto
          (m.pc + 4 + 4 + 4)) := by
      have harrived : (((m.setGpr 5 (m.gpr 29 + 4)).goto (m.pc + 4 + 4)).setGpr 4 v).queued none none =
          ((m.setGpr 4 v).setGpr 5 (m.gpr 29 + 4)).goto (m.pc + 4 + 4) := by
        rw [Machine.setGpr_goto, m.setGpr_comm (by decide)]
        exact Machine.queued_self h₁ h₂
      rw [ArrivedRuns, doDelayedUpdate_some hd, harrived]
      exact startAdd_runs env v hm _ _
    exact threeRuns hlw rfl hadd₁ rfl hadd₂

/-- The startup code, from a state in which no load is on its way. -/
lemma startCode_runs (env : Env) (hm : m.Ready) (h₁ : m.delayedLoad1 = none) (h₂ : m.delayedLoad2 = none)
    (hread : (memRead .word (m.gpr 29)).run m = .ok v m) :
    ∃ m', Runs 4 (fun m : Machine => m.pc) (ArrivedRuns env) m.pc startCode m m' ∧
      m'.pc = slot 4 m.pc startCode.length ∧ m'.byteAt = m.byteAt ∧ m'.gpr 29 = m.gpr 29 ∧
      m'.gpr 4 = v ∧ m'.gpr 5 = m.gpr 29 + 4 ∧ m'.gpr 6 = m.gpr 29 + 4 + 4 + v <<< 2 := by
  have hhead := startHead_runs env hm h₁ h₂ hread
  have hm₃ : ((((m.setGpr 4 v).setGpr 5 (m.gpr 29 + 4)).setGpr 6 (m.gpr 29 + 4 + 4)).goto
      (m.pc + 4 + 4 + 4)).Ready :=
    (((hm.setGpr (by decide) _).setGpr (by decide) _).setGpr (by decide) _).goto _
  have hpc : m.pc + 4 + 4 + 4 = slot 4 m.pc 3 := by
    simp [slot, BitVec.add_assoc]
  refine ⟨_, Runs.append hhead (startTail_runs hpc hm₃ h₁ h₂), ?_, rfl, ?_, ?_, ?_, ?_⟩
  · simp [slot, startCode, BitVec.add_assoc]
  all_goals simp [Machine.gpr_setGpr]

end

/-! The whole. -/

lemma WordsAt.append {f : ByteMap} {us vs : List Word} {a : Word} (h : WordsAt f a (us ++ vs)) :
    WordsAt f a us ∧ WordsAt f (a + BitVec.ofNat 32 (4*us.length)) vs := by
  induction us generalizing a with
  | nil => exact ⟨trivial, by simpa using h⟩
  | cons u us ih =>
    obtain ⟨hu, hrest⟩ := h
    obtain ⟨hus, hvs⟩ := ih hrest
    refine ⟨⟨hu, hus⟩, ?_⟩
    rw [List.length_cons, Nat.mul_succ, Nat.add_comm, BitVec.ofNat_add, ← BitVec.add_assoc]
    exact hvs

lemma ofNat_shift_two (n : ℕ) : BitVec.ofNat 32 n <<< 2 = BitVec.ofNat 32 (4*n) := by
  apply BitVec.eq_of_toNat_eq
  simp only [BitVec.toNat_shiftLeft, BitVec.toNat_ofNat, Nat.shiftLeft_eq]
  omega

/-- The registers from which main gets its arguments. -/
structure MainArgs (m : Machine) (argc : ℕ) (envp args : List Word) : Prop where
  argc : m.gpr 4 = BitVec.ofNat 32 argc
  argv : WordsAt m.byteAt (m.gpr 5) (args ++ [0])
  envp : WordsAt m.byteAt (m.gpr 6) (envp ++ [0])

lemma mainArgs_of {m t : Machine} {environ argv : List (List Byte)} {envp args : List Word}
    (h : RunStack m environ argv envp args) (hbytes : t.byteAt = m.byteAt)
    (h₄ : t.gpr 4 = BitVec.ofNat 32 argv.length) (h₅ : t.gpr 5 = m.gpr 29 + 4)
    (h₆ : t.gpr 6 = m.gpr 29 + 4 + 4 + (BitVec.ofNat 32 argv.length : Word) <<< 2) :
    MainArgs t argv.length envp args := by
  have hlen : args.length = argv.length := h.argStrings.length_eq
  have hwords := h.words.2
  have hsplit : args ++ 0 :: (envp ++ [0]) = (args ++ [0]) ++ (envp ++ [0]) := by simp
  rw [hsplit] at hwords
  obtain ⟨hargs, henv⟩ := hwords.append
  have ha : m.gpr 29 + 4 + BitVec.ofNat 32 (4*(args ++ [0]).length) = t.gpr 6 := by
    rw [h₆, ofNat_shift_two, List.length_append, List.length_singleton, hlen, Nat.mul_add,
      BitVec.ofNat_add, BitVec.add_comm (BitVec.ofNat 32 (4*argv.length)), ← BitVec.add_assoc]
    rfl
  refine ⟨h₄, ?_, ?_⟩
  · rw [hbytes, h₅]
    exact hargs
  · rw [hbytes, ← ha]
    exact henv

/-- With at most 10000 strings that fit, the stack is filled as main expects it, and the startup code
leaves the arguments in registers. -/
theorem initializeRunStack_wellFormed (env : Env) {environ argv : List (List Byte)}
    (hcount : environ.length + argv.length ≤ 10000) {m : Machine} (hb : m.Bounds)
    (h₁ : m.delayedLoad1 = none) (h₂ : m.delayedLoad2 = none) (hfits : m.StackFits environ argv) :
    ∃ m' envp args, (initializeRunStack env.tbl environ argv).run m = .ok () m' ∧
      RunStack m' environ argv envp args ∧
      ∀ start, ∃ t, Runs 4 (fun m : Machine => m.pc) (ArrivedRuns env) start startCode
          (m'.prepared.goto start) t ∧
        t.pc = slot 4 start startCode.length ∧ t.byteAt = m'.byteAt ∧ t.gpr 29 = m'.gpr 29 ∧
        MainArgs t argv.length envp args := by
  obtain ⟨m', envp, args, hrun, hstack, hbounds, hin, -, hsame⟩ :=
    initializeRunStack_run env.tbl hcount hb hfits
  refine ⟨m', envp, args, hrun, hstack, fun start => ?_⟩
  have hready : (m'.prepared.goto start).Ready := ⟨by rw [Machine.toRegs_goto, gpr_prepared]; rfl, rfl⟩
  have hsp : (m'.prepared.goto start).gpr 29 = m'.gpr 29 := by
    rw [Machine.toRegs_goto, gpr_prepared]
    rfl
  have hread : (memRead .word ((m'.prepared.goto start).gpr 29)).run (m'.prepared.goto start) =
      .ok (BitVec.ofNat 32 argv.length) (m'.prepared.goto start) := by
    have hb' : (m'.prepared.goto start).Bounds :=
      ⟨hbounds.data, hbounds.stack, hbounds.kData, hbounds.stackLe, hbounds.limit⟩
    rw [hsp, memRead_inside (w := .word) hb' hstack.aligned (Or.inr (Or.inl hin))]
    exact congrArg (fun v => EStateM.Result.ok v _) hstack.words.1
  have hl₁ : m'.delayedLoad1 = none := by
    rw [hsame]
    exact h₁
  have hl₂ : m'.delayedLoad2 = none := by
    rw [hsame]
    exact h₂
  obtain ⟨t, hruns, hpc, hbytes, hsp', h₄, h₅, h₆⟩ := startCode_runs env hready hl₁ hl₂ hread
  rw [hsp] at hsp' h₅ h₆
  exact ⟨t, hruns, hpc, hbytes, hsp', mainArgs_of hstack hbytes h₄ h₅ h₆⟩

/-- A fresh machine with a stack of 64 bytes that can grow to a page. -/
def smallStack : Machine := makeMemory 0 0 0 64 4096 0 0 {}

theorem initializeRunStack_wellFormed_small :
    ∃ m' envp args, (initializeRunStack .first [[65, 61]] [[97], [], [98]]).run smallStack = .ok () m' ∧
      RunStack m' [[65, 61]] [[97], [], [98]] envp args ∧
      ∀ start, ∃ t, Runs 4 (fun m : Machine => m.pc) (ArrivedRuns Env.quiet) start startCode
          (m'.prepared.goto start) t ∧
        t.pc = slot 4 start startCode.length ∧ t.byteAt = m'.byteAt ∧ t.gpr 29 = m'.gpr 29 ∧
        MainArgs t 3 envp args :=
  initializeRunStack_wellFormed Env.quiet (by decide)
    (bounds_makeMemory 0 0 0 64 4096 0 0 {} (by decide) (by decide)) rfl rfl
    ⟨⟨by decide, by decide, by decide⟩, by decide⟩

/-- Why a run failed. -/
def haltOf {α : Type} : EStateM.Result Halt Machine α → Option Halt
  | .ok _ _ => none
  | .error h _ => some h

/-- The stack of one argument takes 20 bytes, and a stack of 16 bytes doubles. -/
theorem initializeRunStack_doubles :
    stackDepth [] [[97]] = 20 ∧ haltOf ((initializeRunStack .first [] [[97]]).run
      (makeMemory 0 0 0 16 24 0 0 {})) = some (.expandStack 8 32) := by
  constructor
  · decide
  · decide +kernel

end Spimulator
