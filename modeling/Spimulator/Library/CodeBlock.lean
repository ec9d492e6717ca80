import Mathlib.Data.BitVec
import Mathlib.Logic.Relation

/-! Blocks of code placed at an address. The machine, its instructions and their size are
parameters, and a run of a block goes on as long as the program counter points into it. -/
namespace CodeBlock
open Relation

section

variable {ι σ : Type} {w : ℕ} (size : ℕ) (pc : σ → BitVec w) (exec : ι → σ → σ → Prop)

/-- The address of an instruction of a block. -/
def slot (start : BitVec w) (k : ℕ) : BitVec w := start + BitVec.ofNat w (size*k)

/-- The execution of the instruction that the program counter points to. -/
inductive Step (start : BitVec w) (code : List ι) : σ → σ → Prop
  | mk {m m' : σ} {k : ℕ} {i : ι} (at_slot : pc m = slot size start k) (fetched : code[k]? = some i)
      (executed : exec i m m') : Step start code m m'

abbrev Runs (start : BitVec w) (code : List ι) : σ → σ → Prop :=
  ReflTransGen (Step size pc exec start code)

variable {size pc exec} {start : BitVec w} {code rest : List ι} {m m₁ m' : σ} {i : ι}

@[simp] theorem slot_zero : slot size start 0 = start := by
  simp [slot]

theorem slot_add (j k : ℕ) : slot size (slot size start j) k = slot size start (j + k) := by
  simp only [slot, Nat.mul_add, BitVec.ofNat_add, BitVec.add_assoc]

/-- The slots of a block that fits in the address space are different. -/
theorem slot_inj {j k : ℕ} (hj : size*j < 2^w) (hk : size*k < 2^w) (hsize : 0 < size)
    (h : slot size start j = slot size start k) : j = k := by
  have hof : BitVec.ofNat w (size*j) = BitVec.ofNat w (size*k) := (BitVec.add_right_inj start).mp h
  have hnat := congrArg BitVec.toNat hof
  rw [BitVec.toNat_ofNat, BitVec.toNat_ofNat, Nat.mod_eq_of_lt hj, Nat.mod_eq_of_lt hk] at hnat
  exact Nat.eq_of_mul_eq_mul_left hsize hnat

theorem Step.head (hpc : pc m = start) (he : exec i m m') :
    Step size pc exec start (i :: rest) m m' :=
  .mk (k := 0) (by simpa using hpc) rfl he

/-- A step of a block is one of any block that ends in it. -/
theorem Step.after {pre : List ι} (h : Step size pc exec (slot size start pre.length) code m m') :
    Step size pc exec start (pre ++ code) m m' := by
  obtain ⟨hpc, hf, he⟩ := h
  rename_i k i
  rw [slot_add] at hpc
  refine .mk hpc ?_ he
  rw [List.getElem?_append_right (Nat.le_add_right _ _), Nat.add_sub_cancel_left]
  exact hf

/-- A step of a block is one of any block that begins with it. -/
theorem Step.before {post : List ι} (h : Step size pc exec start code m m') :
    Step size pc exec start (code ++ post) m m' := by
  obtain ⟨hpc, hf, he⟩ := h
  refine .mk hpc ?_ he
  rw [List.getElem?_append_left (List.getElem?_eq_some_iff.mp hf).1]
  exact hf

namespace Runs

theorem after {pre : List ι} (h : Runs size pc exec (slot size start pre.length) code m m') :
    Runs size pc exec start (pre ++ code) m m' :=
  h.lift id fun _ _ => Step.after

theorem before {post : List ι} (h : Runs size pc exec start code m m') :
    Runs size pc exec start (code ++ post) m m' :=
  h.lift id fun _ _ => Step.before

/-- Blocks one after the other. -/
theorem append (h : Runs size pc exec start code m m₁)
    (h' : Runs size pc exec (slot size start code.length) rest m₁ m') :
    Runs size pc exec start (code ++ rest) m m' :=
  (before h).trans (after h')

/-- The first instruction skips `n` instructions, and the rest of the block runs. -/
theorem skip (n : ℕ) (hpc : pc m = start) (he : exec i m m₁) (hn : n ≤ rest.length)
    (h : Runs size pc exec (slot size start (n+1)) (rest.drop n) m₁ m') :
    Runs size pc exec start (i :: rest) m m' := by
  have hlen : (i :: rest.take n).length = n+1 := by simp [hn]
  have hcode : (i :: rest.take n) ++ rest.drop n = i :: rest := by simp
  rw [← hlen] at h
  have hrest := after h
  rw [hcode] at hrest
  exact .head (.head hpc he) hrest

/-- The first instruction is followed by the next. -/
theorem next (hpc : pc m = start) (he : exec i m m₁)
    (h : Runs size pc exec (slot size start 1) rest m₁ m') :
    Runs size pc exec start (i :: rest) m m' :=
  skip 0 hpc he (Nat.zero_le _) h

/-- A property that every step of the block keeps holds at the end of a run. -/
theorem invariant {P : σ → Prop} (hstep : ∀ m m', P m → Step size pc exec start code m m' → P m')
    (h : Runs size pc exec start code m m') (hm : P m) : P m' := by
  induction h with
  | refl => exact hm
  | tail _ hs ih => exact hstep _ _ ih hs

end Runs

/-- A step of a block of a deterministic machine that fits in the address space is one. -/
theorem Step.unique (hexec : ∀ i m m₁ m₂, exec i m m₁ → exec i m m₂ → m₁ = m₂) (hsize : 0 < size)
    (hfits : size*code.length ≤ 2^w) (h : Step size pc exec start code m m₁)
    (h' : Step size pc exec start code m m') : m₁ = m' := by
  obtain ⟨hpc, hf, he⟩ := h
  obtain ⟨hpc', hf', he'⟩ := h'
  rename_i j i k i'
  have hj : size*j < 2^w := Nat.lt_of_lt_of_le
    ((Nat.mul_lt_mul_left hsize).mpr (List.getElem?_eq_some_iff.mp hf).1) hfits
  have hk : size*k < 2^w := Nat.lt_of_lt_of_le
    ((Nat.mul_lt_mul_left hsize).mpr (List.getElem?_eq_some_iff.mp hf').1) hfits
  have hjk := slot_inj hj hk hsize (hpc.symm.trans hpc')
  subst hjk
  rw [hf] at hf'
  cases hf'
  exact hexec i m m₁ m' he he'

/-- Runs that leave the block end in one state. -/
theorem Runs.end_unique (h : Runs size pc exec start code m m₁)
    (h' : Runs size pc exec start code m m') (hout : ∀ k < code.length, pc m₁ ≠ slot size start k)
    (hout' : ∀ k < code.length, pc m' ≠ slot size start k)
    (hexec : ∀ i m m₁ m₂, exec i m m₁ → exec i m m₂ → m₁ = m₂) (hsize : 0 < size)
    (hfits : size*code.length ≤ 2^w) : m₁ = m' := by
  have hstop {m m' : σ} (hout : ∀ k < code.length, pc m ≠ slot size start k)
      (h : Runs size pc exec start code m m') : m = m' := by
    cases h.cases_head with
    | inl he => exact he
    | inr hs =>
      obtain ⟨_, ⟨hpc, hf, -⟩, -⟩ := hs
      exact absurd hpc (hout _ (List.getElem?_eq_some_iff.mp hf).1)
  have hdet : Relator.RightUnique (Step size pc exec start code) :=
    fun _ _ _ hs hs' => Step.unique hexec hsize hfits hs hs'
  rcases ReflTransGen.total_of_right_unique hdet h h' with hrun | hrun
  · exact hstop hout hrun
  · exact (hstop hout' hrun).symm

end
end CodeBlock
