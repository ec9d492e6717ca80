import Mathlib.Algebra.Ring.Int.Defs
import Mathlib.Algebra.Ring.Nat
import Mathlib.Tactic.Lemma

/-! Stores of bytes read and written as little-endian values of any width. -/
namespace ByteStore

abbrev Store := ℕ → BitVec 8

/-- The little-endian value of the `n` bytes from `off` on. -/
def readLE : (n : ℕ) → Store → ℕ → BitVec (8*n)
  | 0, _, _ => 0
  | n+1, s, off => readLE n s (off+1) ++ s off

/-- The `i`-th byte of a value, from the low end. -/
def byteOf {n : ℕ} (v : BitVec n) (i : ℕ) : BitVec 8 := v.extractLsb' (8*i) 8

/-- The store with the `n` bytes from `off` on replaced by those of a value. -/
def writeLE (n : ℕ) (s : Store) (off : ℕ) (v : BitVec (8*n)) : Store :=
  fun i => if off ≤ i ∧ i < off+n then byteOf v (i-off) else s i

/-- The store with the bytes from `off` on replaced by a list. -/
def writeList (s : Store) (off : ℕ) (bs : List (BitVec 8)) : Store :=
  fun i => if off ≤ i then bs.getD (i-off) (s i) else s i

theorem readLE_congr {n : ℕ} {s t : Store} {off off' : ℕ}
    (h : ∀ i < n, s (off+i) = t (off'+i)) : readLE n s off = readLE n t off' := by
  induction n generalizing off off' with
  | zero => rfl
  | succ n ih =>
    have h0 : s off = t off' := h 0 (by omega)
    have hs : readLE n s (off+1) = readLE n t (off'+1) := ih (fun i hi => by
      have := h (i+1) (by omega)
      rwa [show off+1+i = off+(i+1) by omega, show off'+1+i = off'+(i+1) by omega])
    simp only [readLE, h0, hs]

theorem writeLE_of_lt {n : ℕ} {s : Store} {off i : ℕ} {v : BitVec (8*n)} (h : i < off) :
    writeLE n s off v i = s i := by
  rw [writeLE, if_neg (by omega)]

theorem writeLE_of_ge {n : ℕ} {s : Store} {off i : ℕ} {v : BitVec (8*n)} (h : off+n ≤ i) :
    writeLE n s off v i = s i := by
  rw [writeLE, if_neg (by omega)]

theorem writeLE_at {n : ℕ} {s : Store} {off i : ℕ} {v : BitVec (8*n)} (h : i < n) :
    writeLE n s off v (off+i) = byteOf v i := by
  rw [writeLE, if_pos (by omega), Nat.add_sub_cancel_left]

/-- A value is the little-endian reading of its own bytes. -/
theorem readLE_bytes {n : ℕ} {s : Store} {off : ℕ} {v : BitVec (8*n)}
    (h : ∀ i < n, s (off+i) = byteOf v i) : readLE n s off = v := by
  induction n generalizing off with
  | zero => exact BitVec.eq_of_toNat_eq (by
      have h0 := v.isLt
      simp only [readLE, BitVec.ofNat_eq_ofNat, BitVec.toNat_ofNat, Nat.zero_mod]
      simp only [Nat.mul_zero, Nat.pow_zero] at h0
      omega)
  | succ n ih =>
    have h0 : s off = byteOf v 0 := h 0 (by omega)
    have hs : readLE n s (off+1) = v.extractLsb' 8 (8*n) := ih (fun i hi => by
      rw [show off+1+i = off+(i+1) by omega, h (i+1) (by omega)]
      apply BitVec.eq_of_getLsbD_eq
      intro j hj
      have hlt : 8*i+j < 8*n := by omega
      simp only [byteOf, BitVec.getLsbD_extractLsb', hj, hlt, decide_true, Bool.true_and]
      congr 1
      omega)
    simp only [readLE, h0, hs, byteOf]
    exact BitVec.extractLsb'_append_extractLsb'

theorem readLE_zero (n off : ℕ) : readLE n (fun _ => 0#8) off = 0 := by
  induction n generalizing off with
  | zero => rfl
  | succ n ih =>
    simp only [readLE, ih]
    exact BitVec.zero_append_zero

/-- A value is 0 if its bytes are. -/
theorem eq_zero_of_bytes {n : ℕ} {v : BitVec (8*n)} (h : ∀ i < n, byteOf v i = 0) : v = 0 := by
  rw [← readLE_zero n 0]
  exact (readLE_bytes fun i hi => (h i hi).symm).symm

theorem byteOf_zero {n : ℕ} (i : ℕ) : byteOf (0 : BitVec n) i = 0 := BitVec.extractLsb'_zero

/-- Reading what was just written. -/
theorem readLE_writeLE (n : ℕ) (s : Store) (off : ℕ) (v : BitVec (8*n)) :
    readLE n (writeLE n s off v) off = v :=
  readLE_bytes (fun _ hi => writeLE_at hi)

/-- Adjacent bytes of a value are a part of it. -/
theorem readLE_byteOf {m : ℕ} (v : BitVec m) (o n : ℕ) :
    readLE n (fun i => byteOf v (o+i)) 0 = v.extractLsb' (8*o) (8*n) := by
  apply readLE_bytes
  intro i hi
  apply BitVec.eq_of_getLsbD_eq
  intro j hj
  have hlt : 8*i+j < 8*n := by omega
  simp only [byteOf, BitVec.getLsbD_extractLsb', hj, hlt, decide_true, Bool.true_and, Nat.zero_add]
  congr 1
  omega

/-- Copying `k` words upwards by `shift` words, from the last word to the first. -/
def copyWords (src : Store) (shift : ℕ) : ℕ → Store → Store
  | 0, dst => dst
  | k+1, dst => copyWords src shift k (writeLE 4 dst (4*(k+shift)) (readLE 4 src (4*k)))

theorem byteOf_readLE {n : ℕ} {s : Store} {off i : ℕ} (h : i < n) :
    byteOf (readLE n s off) i = s (off+i) := by
  induction n generalizing off i with
  | zero => omega
  | succ n ih =>
    cases i with
    | zero =>
      apply BitVec.eq_of_getLsbD_eq
      intro j hj
      simp only [byteOf, readLE, BitVec.getLsbD_extractLsb', BitVec.getLsbD_append, Nat.mul_zero,
        Nat.zero_add, hj, decide_true, Bool.true_and, Nat.add_zero, if_true]
    | succ i =>
      have hi := @ih (off+1) i (by omega)
      rw [show off+(i+1) = off+1+i by omega, ← hi]
      apply BitVec.eq_of_getLsbD_eq
      intro j hj
      have hge : ¬ 8*(i+1)+j < 8 := by omega
      simp only [byteOf, readLE, BitVec.getLsbD_extractLsb', BitVec.getLsbD_append, hj, hge,
        decide_true, Bool.true_and, if_false]
      congr 1
      omega

/-- The copy has the source's words at their new place and nothing else changed. -/
theorem copyWords_apply (src : Store) (shift k : ℕ) (dst : Store) (i : ℕ) :
    copyWords src shift k dst i =
      if 4*shift ≤ i ∧ i < 4*(shift+k) then src (i-4*shift) else dst i := by
  induction k generalizing dst with
  | zero => rw [copyWords, if_neg (by omega)]
  | succ k ih =>
    rw [copyWords, ih]
    by_cases h : 4*shift ≤ i ∧ i < 4*(shift+k)
    · rw [if_pos h, if_pos (by omega)]
    · rw [if_neg h]
      by_cases h' : 4*(k+shift) ≤ i ∧ i < 4*(k+shift)+4
      · rw [if_pos (by omega)]
        obtain ⟨j, rfl⟩ := Nat.exists_eq_add_of_le h'.1
        rw [writeLE_at (by omega), byteOf_readLE (by omega)]
        congr 1
        omega
      · rw [if_neg (by omega), writeLE, if_neg h']

/-! Bytes of combined and shifted values. -/

section

variable {n : ℕ} (v v' : BitVec n)

/-- Past the end of a value its bytes are 0. -/
theorem byteOf_of_ge {i : ℕ} (h : n ≤ 8*i) : byteOf v i = 0 := by
  apply BitVec.eq_of_getLsbD_eq
  intro j hj
  have hge : n ≤ 8*i+j := by omega
  simp only [byteOf, BitVec.getLsbD_extractLsb', BitVec.getLsbD_of_ge v _ hge, Bool.and_false,
    BitVec.ofNat_eq_ofNat, BitVec.getLsbD_zero]

theorem byteOf_or (i : ℕ) : byteOf (v ||| v') i = byteOf v i ||| byteOf v' i :=
  BitVec.extractLsb'_or

theorem byteOf_ofNat (x : ℕ) {i : ℕ} (h : 8*i + 8 ≤ n) :
    byteOf (BitVec.ofNat n x) i = BitVec.ofNat 8 (x / 2^(8*i)) := by
  apply BitVec.eq_of_toNat_eq
  have hpow : 2^n = 2^(8*i) * 2^(n - 8*i) := by
    rw [← Nat.pow_add]
    congr 1
    omega
  have hdvd : 2^8 ∣ 2^(n - 8*i) := Nat.pow_dvd_pow 2 (by omega)
  rw [byteOf, BitVec.extractLsb'_toNat, BitVec.toNat_ofNat, BitVec.toNat_ofNat,
    Nat.shiftRight_eq_div_pow, hpow, Nat.mod_mul_right_div_self, Nat.mod_mod_of_dvd _ hdvd]

/-- A mask of whole bytes keeps a byte or clears it. -/
theorem byteOf_mask (i : ℕ) (h : byteOf v' i = 0 ∨ byteOf v' i = BitVec.allOnes 8) :
    byteOf (v &&& v') i = if byteOf v' i = 0 then 0 else byteOf v i := by
  have hand : byteOf (v &&& v') i = byteOf v i &&& byteOf v' i := BitVec.extractLsb'_and
  rw [hand]
  rcases h with h | h
  · rw [h, if_pos rfl]
    exact BitVec.and_zero
  · rw [h, if_neg (by decide), BitVec.and_allOnes]

/-- A shift by whole bytes moves the bytes down. -/
theorem byteOf_ushiftRight {s k : ℕ} (hs : s = 8*k) (i : ℕ) :
    byteOf (v >>> s) i = byteOf v (i+k) := by
  apply BitVec.eq_of_getLsbD_eq
  intro j hj
  simp only [byteOf, BitVec.getLsbD_extractLsb', BitVec.getLsbD_ushiftRight, hj, decide_true,
    Bool.true_and]
  congr 1
  omega

/-- A shift by whole bytes moves the bytes up, and those past the top are lost. -/
theorem byteOf_shiftLeft {s k : ℕ} (hs : s = 8*k) {i : ℕ} (h : 8*i + 8 ≤ n) :
    byteOf (v <<< s) i = if i < k then 0 else byteOf v (i-k) := by
  apply BitVec.eq_of_getLsbD_eq
  intro j hj
  have hlt : 8*i+j < n := by omega
  simp only [byteOf, BitVec.getLsbD_extractLsb', BitVec.getLsbD_shiftLeft, hj, hlt, decide_true,
    Bool.true_and]
  by_cases hik : i < k
  · have hs : 8*i+j < s := by omega
    simp only [hik, hs, if_true, decide_true, Bool.not_true, Bool.false_and, BitVec.ofNat_eq_ofNat,
      BitVec.getLsbD_zero]
  · have hs' : ¬ 8*i+j < s := by omega
    simp only [hik, hs', if_false, decide_false, Bool.not_false, Bool.true_and,
      BitVec.getLsbD_extractLsb', hj, decide_true]
    congr 1
    omega

end

end ByteStore
