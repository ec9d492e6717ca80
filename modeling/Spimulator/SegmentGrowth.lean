import Spimulator.DataMemory
import Spimulator.Location
import Spimulator.Run

/-! Growth of the data segment and of the kernel data segment. -/
namespace Spimulator
open Frame

def Machine.dataSize (m : Machine) : ℕ := (m.dataTop - dataBot).toNat
def Machine.kDataSize (m : Machine) : ℕ := (m.kDataTop - kDataBot).toNat

/-- The data segment has grown by a rounded number of bytes, within its limit: the old bytes are
kept and the new ones are zero. -/
structure Extended (m m' : Machine) (n : ℤ) : Prop where
  nonneg : 0 ≤ n
  within : m.dataSize + roundUp n ≤ m.dataSizeLimit
  size : (m'.dataSize : ℤ) = m.dataSize + roundUp n
  kept : ∀ i < m.dataSize, m'.dataSeg i = m.dataSeg i
  zero : ∀ i, m.dataSize ≤ i → i < m'.dataSize → m'.dataSeg i = 0

/-- A request for more data either extends the segment or is refused with an error, and nothing is
lost. The machine is what `machine` takes from the state. -/
def ExtendsOrRefuses {ε σ α : Type} (refusal : Halt → ε) (machine : σ → Machine) (m : Machine)
    (n : ℤ) : EStateM.Result ε σ α → Prop
  | .ok _ s => Extended m (machine s) n
  | .error e s => (∃ size, e = refusal (.expandData n size)) ∧ (machine s).dataTop = m.dataTop ∧
      ∀ i < m.dataSize, (machine s).dataSeg i = m.dataSeg i

/-- The new size is an int, or the limit is far enough below zero to be exceeded by the sum that
has wrapped around. -/
def Machine.canRequest (m : Machine) (n : ℤ) : Prop :=
  n < 0 ∨ m.dataSize + roundUp n < 2^31 ∨ m.dataSizeLimit < m.dataSize + roundUp n - 2^32

section

variable {m : Machine} {n : ℤ}

lemma hostInt_of_ge {v : ℤ} (h : 2^31 ≤ v) (h' : v < 2^32) : hostInt v = v - 2^32 := by
  have hwrap : BitVec.ofInt 32 v = BitVec.ofInt 32 (v - 2^32) := by
    apply BitVec.eq_of_toNat_eq
    rw [BitVec.toNat_ofInt, BitVec.toNat_ofInt]
    omega
  unfold hostInt
  rw [hwrap]
  exact hostInt_of_lt (by omega) (by omega)

lemma toInt_dataSize (hsize : m.dataSize < 2^31) : (m.dataTop - dataBot).toInt = m.dataSize :=
  BitVec.toInt_eq_toNat_of_lt (by change 2 * m.dataSize < 2^32; omega)

lemma expandData_refused (hsize : m.dataSize < 2^31)
    (h : n < 0 ∨ m.dataSizeLimit < hostInt (m.dataSize + roundUp n)) :
    (expandData n).run m = .error (.expandData n (hostInt (m.dataSize + roundUp n))) m := by
  rw [expandData, EStateM.run_bind, EStateM.run_get]
  simp only [toInt_dataSize hsize, hostInt_add_hostInt]
  rw [if_pos h]
  rfl

lemma expandData_fails (hsize : m.dataSize < 2^31)
    (h : ¬ (n < 0 ∨ m.dataSizeLimit < hostInt (m.dataSize + roundUp n)))
    (hneg : hostInt (m.dataSize + roundUp n) < 0) :
    (expandData n).run m = .error .reallocFailed m := by
  rw [expandData, EStateM.run_bind, EStateM.run_get]
  simp only [toInt_dataSize hsize, hostInt_add_hostInt]
  rw [if_neg h, if_pos hneg]
  rfl

/-- The machine with a larger data segment. -/
def Machine.withData (m : Machine) (n : ℤ) : Machine :=
  { m with
    dataTop := m.dataTop + BitVec.ofInt 32 (roundUp n)
    dataSeg := fun i =>
      if (m.dataSize : ℤ) ≤ i ∧ (i : ℤ) < m.dataSize + roundUp n then 0 else m.dataSeg i }

lemma expandData_extends (hsize : m.dataSize < 2^31)
    (h : ¬ (n < 0 ∨ m.dataSizeLimit < m.dataSize + roundUp n))
    (hint : m.dataSize + roundUp n < 2^31) :
    (expandData n).run m = .ok () (m.withData n) := by
  have hup := le_roundUp n
  have hdelta : hostInt (roundUp n) = roundUp n := hostInt_of_lt (by omega) (by omega)
  have hnew : hostInt (m.dataSize + roundUp n) = m.dataSize + roundUp n :=
    hostInt_of_lt (by omega) hint
  have hpos : ¬ (m.dataSize : ℤ) + roundUp n < 0 := by omega
  rw [expandData, EStateM.run_bind, EStateM.run_get]
  simp only [toInt_dataSize hsize, hdelta, hnew]
  rw [if_neg h, if_neg hpos]
  rfl

lemma toNat_grown {top bot : Word} {d : ℤ} (h : 0 ≤ d) (hint : (top - bot).toNat + d < 2^31) :
    ((top + BitVec.ofInt 32 d - bot).toNat : ℤ) = (top - bot).toNat + d := by
  have hadd : top + BitVec.ofInt 32 d - bot = top - bot + BitVec.ofInt 32 d := by
    rw [BitVec.sub_eq_add_neg, BitVec.sub_eq_add_neg, BitVec.add_assoc,
      BitVec.add_comm (BitVec.ofInt 32 d), ← BitVec.add_assoc]
  rw [hadd, BitVec.toNat_add, BitVec.toNat_ofInt]
  omega

lemma dataSize_withData (h : 0 ≤ n) (hint : m.dataSize + roundUp n < 2^31) :
    ((m.withData n).dataSize : ℤ) = m.dataSize + roundUp n :=
  toNat_grown (Int.le_trans h (le_roundUp n)) hint

lemma extended_withData (h : ¬ (n < 0 ∨ m.dataSizeLimit < m.dataSize + roundUp n))
    (hint : m.dataSize + roundUp n < 2^31) : Extended m (m.withData n) n where
  nonneg := by omega
  within := by omega
  size := dataSize_withData (by omega) hint
  kept i hi := if_neg (by omega)
  zero i hi hlt := by
    have hsize := dataSize_withData (by omega) hint
    exact if_pos (by omega)

/-- How a request ends: an extension, an error that changes nothing, or the end of the simulator. -/
lemma expandData_cases (hn : n < 2^31) (hsize : m.dataSize < 2^31) :
    (m.canRequest n ∧ (expandData n).run m = .ok () (m.withData n) ∧ Extended m (m.withData n) n) ∨
    (m.canRequest n ∧ ∃ size, (expandData n).run m = .error (.expandData n size) m) ∨
    (¬ m.canRequest n ∧ (expandData n).run m = .error .reallocFailed m) := by
  have hup := le_roundUp n
  have hlt := roundUp_lt n
  have hmod := roundUp_mod n
  unfold Machine.canRequest
  by_cases hneg : n < 0
  · exact Or.inr (Or.inl ⟨Or.inl hneg, _, expandData_refused hsize (Or.inl hneg)⟩)
  by_cases hint : (m.dataSize : ℤ) + roundUp n < 2^31
  · have hnew : hostInt (m.dataSize + roundUp n) = m.dataSize + roundUp n :=
      hostInt_of_lt (by omega) hint
    by_cases hlim : m.dataSizeLimit < m.dataSize + roundUp n
    · refine Or.inr (Or.inl ⟨Or.inr (Or.inl hint), _, expandData_refused hsize (Or.inr ?_)⟩)
      rw [hnew]
      exact hlim
    · have hno : ¬ (n < 0 ∨ m.dataSizeLimit < m.dataSize + roundUp n) := by omega
      exact Or.inl ⟨Or.inr (Or.inl hint), expandData_extends hsize hno hint,
        extended_withData hno hint⟩
  · have hnew : hostInt (m.dataSize + roundUp n) = m.dataSize + roundUp n - 2^32 :=
      hostInt_of_ge (by omega) (by omega)
    by_cases hlim : m.dataSizeLimit < m.dataSize + roundUp n - 2^32
    · refine Or.inr (Or.inl ⟨Or.inr (Or.inr hlim), _, expandData_refused hsize (Or.inr ?_)⟩)
      rw [hnew]
      exact hlim
    · refine Or.inr (Or.inr ⟨by omega, expandData_fails hsize ?_ ?_⟩)
      · rw [hnew]
        omega
      · rw [hnew]
        omega

/-- A computation that ends as the request does and keeps the data segment apart from it. -/
lemma extendsOrRefuses_iff {ε σ α : Type} {refusal : Halt → ε} {machine : σ → Machine}
    (hinj : ∀ h h', refusal h = refusal h' → h = h') (hn : n < 2^31) (hsize : m.dataSize < 2^31)
    {r : EStateM.Result ε σ α}
    (hok : ∀ m', (expandData n).run m = .ok () m' → ∃ a s, r = .ok a s ∧
      (machine s).dataTop = m'.dataTop ∧ (machine s).dataSeg = m'.dataSeg)
    (herror : ∀ e, (expandData n).run m = .error e m → ∃ s, r = .error (refusal e) s ∧
      (machine s).dataTop = m.dataTop ∧ (machine s).dataSeg = m.dataSeg) :
    ExtendsOrRefuses refusal machine m n r ↔ m.canRequest n := by
  rcases expandData_cases hn hsize with ⟨hcan, hrun, hext⟩ | ⟨hcan, size, hrun⟩ | ⟨hno, hrun⟩
  · obtain ⟨a, s, rfl, htop, hseg⟩ := hok _ hrun
    refine iff_of_true ?_ hcan
    have hsize' : (machine s).dataSize = (m.withData n).dataSize := by
      unfold Machine.dataSize
      rw [htop]
    refine ⟨hext.nonneg, hext.within, ?_, ?_, ?_⟩
    · rw [hsize']
      exact hext.size
    · rw [hseg]
      exact hext.kept
    · rw [hseg, hsize']
      exact hext.zero
  · obtain ⟨s, rfl, htop, hseg⟩ := herror _ hrun
    refine iff_of_true ⟨⟨size, rfl⟩, htop, fun i _ => by rw [hseg]⟩ hcan
  · obtain ⟨s, rfl, -, -⟩ := herror _ hrun
    refine iff_of_false ?_ hno
    rintro ⟨⟨size, he⟩, -⟩
    cases hinj _ _ he

/-- The segment's size stays an int. -/
lemma dataSize_lt_of_extended {m' : Machine} (hlim : m.dataSizeLimit < 2^31)
    (h : Extended m m' n) : m'.dataSize < 2^31 := by
  have hsize := h.size
  have hwithin := h.within
  omega

/-- The request of the location counter, when the next datum would lie past the data segment. -/
lemma incrementDataPc_expands {s : Asm} {delta : Word} (hk : s.dataInKernel = false)
    (hpast : s.machine.dataTop ≤ s.nextDataPc + delta) :
    (incrementDataPc delta).run s =
      (onMachine (expandData (expansion (s.nextDataPc + delta) s.machine.dataTop))).run
        (s.setDataPc (s.nextDataPc + delta)) := by
  have hpc : s.currentDataPc = s.nextDataPc := by simp [Asm.currentDataPc, hk]
  have hset : s.setDataPc (s.nextDataPc + delta) = { s with nextDataPc := s.nextDataPc + delta } := by
    simp [Asm.setDataPc, hk]
  rw [incrementDataPc, EStateM.run_bind, EStateM.run_modify]
  simp only [EStateM.run_bind, EStateM.run_get, hpc, hset, hk]
  rw [onlyIf_pos hpast]
  rfl

end

lemma doSyscall_sbrk (env : Env) {m : Machine} (h : serviceOf (m.gpr regV0) = some .sbrk) :
    (doSyscall env).run m = (do
      expandData (m.gpr regA0).toInt
      modify fun m' => m'.setGpr regRes m.dataTop
      pure true : Exec Bool).run m := by
  rw [doSyscall_run env h (by decide) (by decide), otherService, bind_assoc, EStateM.run_bind,
    EStateM.run_get]
  simp only [bind_assoc]

/-- For every request of an int on every data segment, by sbrk or by the assembler: the segment is
extended within its limit or an error is reported and nothing is lost, exactly when the new size is
an int (or, past that, the limit is far below zero). -/
theorem expandData_iff (env : Env) :
    (∀ (m : Machine) (n : ℤ), -2^31 ≤ n → n < 2^31 → m.dataSize < 2^31 →
      (ExtendsOrRefuses id id m n ((expandData n).run m) ↔ m.canRequest n)) ∧
    (∀ m : Machine, serviceOf (m.gpr regV0) = some .sbrk → m.dataSize < 2^31 →
      (ExtendsOrRefuses id id m (m.gpr regA0).toInt ((doSyscall env).run m) ↔
        m.canRequest (m.gpr regA0).toInt)) ∧
    ∀ (s : Asm) (delta : Word), s.dataInKernel = false →
      s.machine.dataTop ≤ s.nextDataPc + delta → s.machine.dataSize < 2^31 →
      (ExtendsOrRefuses AsmHalt.machine (fun t : Asm => t.machine) s.machine
          (expansion (s.nextDataPc + delta) s.machine.dataTop) ((incrementDataPc delta).run s) ↔
        s.machine.canRequest (expansion (s.nextDataPc + delta) s.machine.dataTop)) := by
  refine ⟨fun m n _ hn hsize => ?_, fun m hsv hsize => ?_, fun s delta hk hpast hsize => ?_⟩
  · refine extendsOrRefuses_iff (fun _ _ => id) hn hsize (fun m' h => ?_) fun e h => ?_
    · exact ⟨(), m', h, rfl, rfl⟩
    · exact ⟨m, h, rfl, rfl⟩
  · rw [doSyscall_sbrk env hsv]
    refine extendsOrRefuses_iff (fun _ _ => id) BitVec.toInt_lt hsize (fun m' h => ?_) fun e h => ?_
    · refine ⟨true, m'.setGpr regRes m.dataTop, ?_, rfl, rfl⟩
      rw [run_bind_of_ok h]
      rfl
    · refine ⟨m, ?_, rfl, rfl⟩
      rw [run_bind_of_error h]
  · rw [incrementDataPc_expands hk hpast]
    have hmachine : (s.setDataPc (s.nextDataPc + delta)).machine = s.machine := by
      unfold Asm.setDataPc
      split <;> rfl
    refine extendsOrRefuses_iff (fun _ _ => AsmHalt.machine.inj) BitVec.toInt_lt hsize
      (fun m' h => ?_) fun e h => ?_
    · refine ⟨(), (s.setDataPc (s.nextDataPc + delta)).setMachine m', ?_, rfl, rfl⟩
      change onMachine _ _ = _
      rw [onMachine, hmachine, h]
    · refine ⟨(s.setDataPc (s.nextDataPc + delta)).setMachine s.machine, ?_, rfl, rfl⟩
      change onMachine _ _ = _
      rw [onMachine, hmachine, h]

/-- The machine of a program that asks sbrk for so many bytes, with the default sizes. -/
def asksFor (n : Word) : Machine :=
  ({ dataTop := 0x10010000, dataSizeLimit := 0x100000 : Machine }.setGpr regV0 9).setGpr regA0 n

theorem expandData_eight :
    ExtendsOrRefuses id id (asksFor 8) (8 : Word).toInt ((doSyscall Env.quiet).run (asksFor 8)) :=
  ((expandData_iff Env.quiet).2.1 (asksFor 8) rfl (by decide)).mpr (Or.inr (Or.inl (by decide)))

/-- A request past the top of an int ends the simulator. -/
theorem expandData_overflow :
    ¬ ExtendsOrRefuses id id (asksFor 0x7fff0000) (0x7fff0000 : Word).toInt
      ((doSyscall Env.quiet).run (asksFor 0x7fff0000)) := by
  have hrun : (expandData ((asksFor 0x7fff0000).gpr regA0).toInt).run (asksFor 0x7fff0000)
      = .error .reallocFailed (asksFor 0x7fff0000) :=
    expandData_fails (by decide) (by decide) (by decide)
  rw [doSyscall_sbrk Env.quiet rfl, run_bind_of_error hrun]
  rintro ⟨⟨size, he⟩, -⟩
  cases he

/-! The kernel data segment. -/

/-- The old bytes of the kernel data segment are kept, and the new ones are zero. -/
structure KExtended (m m' : Machine) (n : ℤ) : Prop where
  size : (m'.kDataSize : ℤ) = m.kDataSize + roundUp n
  kept : ∀ i < m.kDataSize, m'.kDataSeg i = m.kDataSeg i
  zero : ∀ i, m.kDataSize ≤ i → i < m'.kDataSize → m'.kDataSeg i = 0

/-- The bytes that an expansion clears by mistake are zero before it, and so is the memory that it
adds and does not clear. -/
structure QuarterClear (m : Machine) (n : ℤ) : Prop where
  old : ∀ i < m.kDataSize, m.kDataSize / 4 ≤ i → (i : ℤ) < (m.kDataSize + roundUp n) / 4 →
    m.kDataSeg i = 0
  new : ∀ i : ℕ, m.kDataSize ≤ i → (m.kDataSize + roundUp n) / 4 ≤ i →
    (i : ℤ) < m.kDataSize + roundUp n → m.kDataSeg i = 0

/-- The expansions succeed one after another, and each extends the segment. -/
def ExtendsAll : List ℤ → Asm → Prop
  | [], _ => True
  | n :: ns, s => ∃ t, (expandKData n).run s = .ok () t ∧ KExtended s.machine t.machine n ∧
    ExtendsAll ns t

/-- The condition of each expansion, in the state before it. -/
def QuartersClear : List ℤ → Asm → Prop
  | [], _ => True
  | n :: ns, s => QuarterClear s.machine n ∧
    ∀ t, (expandKData n).run s = .ok () t → QuartersClear ns t

/-- The expansions fit in the limit, an int. -/
structure Asm.FitsK (s : Asm) (ns : List ℤ) : Prop where
  nonneg : ∀ n ∈ ns, 0 ≤ n
  within : s.machine.kDataSize + (ns.map roundUp).sum ≤ s.kDataSizeLimit
  limit : s.kDataSizeLimit < 2^31

section

variable {n : ℤ} {ns : List ℤ} {s : Asm}

/-- The machine with a larger kernel data segment. -/
def Machine.withKData (m : Machine) (n : ℤ) : Machine :=
  { m with
    kDataTop := m.kDataTop + BitVec.ofInt 32 (roundUp n)
    kDataSeg := fun i =>
      if (m.kDataSize : ℤ) / 4 ≤ i ∧ (i : ℤ) < (m.kDataSize + roundUp n) / 4 then 0
      else m.kDataSeg i }

lemma sum_roundUp_nonneg (h : ∀ n ∈ ns, 0 ≤ n) : 0 ≤ (ns.map roundUp).sum := by
  induction ns with
  | nil => simp
  | cons n ns ih =>
    have hn := h n (by simp)
    have hup := le_roundUp n
    have hns := ih fun k hk => h k (by simp [hk])
    rw [List.map_cons, List.sum_cons]
    omega

lemma Asm.FitsK.head (h : s.FitsK (n :: ns)) :
    0 ≤ n ∧ s.machine.kDataSize + roundUp n ≤ s.kDataSizeLimit := by
  have hsum := sum_roundUp_nonneg fun k hk => h.nonneg k (List.mem_cons_of_mem n hk)
  have hwithin := h.within
  rw [List.map_cons, List.sum_cons] at hwithin
  exact ⟨h.nonneg n List.mem_cons_self, by omega⟩

lemma expandKData_run (h : s.FitsK (n :: ns)) :
    (expandKData n).run s = .ok () (s.setMachine (s.machine.withKData n)) := by
  obtain ⟨hn, hwithin⟩ := h.head
  have hlimit := h.limit
  have hup := le_roundUp n
  have hold : (s.machine.kDataTop - kDataBot).toInt = s.machine.kDataSize :=
    BitVec.toInt_eq_toNat_of_lt (by change 2 * s.machine.kDataSize < 2^32; omega)
  have hdelta : hostInt (roundUp n) = roundUp n := hostInt_of_lt (by omega) (by omega)
  have hnew : hostInt (s.machine.kDataSize + roundUp n) = s.machine.kDataSize + roundUp n :=
    hostInt_of_lt (by omega) (by omega)
  have hno : ¬ (n < 0 ∨ (s.machine.kDataSize : ℤ) + roundUp n > s.kDataSizeLimit) := by omega
  have hpos : ¬ (s.machine.kDataSize : ℤ) + roundUp n < 0 := by omega
  rw [expandKData, EStateM.run_bind, EStateM.run_get]
  simp only [hold, hdelta, hnew]
  rw [if_neg hno, if_neg hpos]
  rfl

lemma kDataSize_withKData {m : Machine} (h : 0 ≤ n) (hint : m.kDataSize + roundUp n < 2^31) :
    ((m.withKData n).kDataSize : ℤ) = m.kDataSize + roundUp n :=
  toNat_grown (Int.le_trans h (le_roundUp n)) hint

lemma Asm.FitsK.tail (h : s.FitsK (n :: ns)) :
    (s.setMachine (s.machine.withKData n)).FitsK ns where
  nonneg k hk := h.nonneg k (List.mem_cons_of_mem n hk)
  within := by
    obtain ⟨hn, hwithin⟩ := h.head
    have hlimit := h.limit
    have hsize := kDataSize_withKData (m := s.machine) hn (by omega)
    have hall := h.within
    rw [List.map_cons, List.sum_cons] at hall
    change ((s.machine.withKData n).kDataSize : ℤ) + _ ≤ s.kDataSizeLimit
    omega
  limit := h.limit

/-- One expansion. -/
lemma kExtended_iff {m : Machine} (h : 0 ≤ n) (hint : m.kDataSize + roundUp n < 2^31) :
    KExtended m (m.withKData n) n ↔ QuarterClear m n := by
  have hsize := kDataSize_withKData h hint
  have hup := le_roundUp n
  constructor
  · intro hext
    constructor
    · intro i hi hlow hhigh
      have hkept := hext.kept i hi
      rw [← hkept]
      exact if_pos (by omega)
    · intro i hi hlow hhigh
      have hzero := hext.zero i hi (by omega)
      rw [← hzero]
      exact (if_neg (by omega)).symm
  · intro hclear
    refine ⟨hsize, fun i hi => ?_, fun i hi hlt => ?_⟩
    · by_cases hc : (m.kDataSize : ℤ) / 4 ≤ i ∧ (i : ℤ) < (m.kDataSize + roundUp n) / 4
      · rw [hclear.old i hi (by omega) hc.2]
        exact if_pos hc
      · exact if_neg hc
    · by_cases hc : (m.kDataSize : ℤ) / 4 ≤ i ∧ (i : ℤ) < (m.kDataSize + roundUp n) / 4
      · exact if_pos hc
      · rw [← hclear.new i hi (by omega) (by omega)]
        exact if_neg hc

/-- Expansions within the limit keep every byte and add zeros exactly when the bytes from a quarter
of the old size to a quarter of the new one are zero already, and so is what realloc adds past
them. -/
theorem expandKData_iff (h : s.FitsK ns) : ExtendsAll ns s ↔ QuartersClear ns s := by
  induction ns generalizing s with
  | nil => exact Iff.rfl
  | cons n ns ih =>
    obtain ⟨hn, hwithin⟩ := h.head
    have hlimit := h.limit
    have hrun := expandKData_run h
    have hone := kExtended_iff (m := s.machine) hn (by omega)
    constructor
    · rintro ⟨t, ht, hext, hall⟩
      obtain rfl : s.setMachine (s.machine.withKData n) = t := by
        rw [hrun] at ht
        injection ht
      refine ⟨hone.mp hext, fun u hu => ?_⟩
      obtain rfl : s.setMachine (s.machine.withKData n) = u := by
        rw [hrun] at hu
        injection hu
      exact (ih h.tail).mp hall
    · rintro ⟨hclear, hall⟩
      exact ⟨_, hrun, hone.mpr hclear, (ih h.tail).mpr (hall _ hrun)⟩

end

/-- The default kernel data segment, with the byte 7 at 0x90004000 or all zero. -/
def kernelData (b : Byte) : Asm :=
  { machine := { kDataTop := 0x90010000, kDataSeg := fun i => if i = 0x4000 then b else 0 }
    kDataSizeLimit := 0x100000 }

theorem expandKData_zeros : ExtendsAll [0x10000, 4] (kernelData 0) := by
  have hfits : (kernelData 0).FitsK [0x10000, 4] := ⟨by decide, by decide, by decide⟩
  have hzero : ∀ i, (kernelData 0).machine.kDataSeg i = 0 := by
    intro i
    exact ite_self 0
  refine (expandKData_iff hfits).mpr ⟨⟨fun i _ _ _ => hzero i, fun i _ _ _ => hzero i⟩, ?_⟩
  intro t ht
  rw [expandKData_run hfits] at ht
  have hzero' : ∀ i, t.machine.kDataSeg i = 0 := by
    intro i
    obtain rfl : (kernelData 0).setMachine ((kernelData 0).machine.withKData 0x10000) = t := by
      injection ht
    change (if _ then 0 else (kernelData 0).machine.kDataSeg i) = 0
    rw [hzero i]
    exact ite_self 0
  exact ⟨⟨fun i _ _ _ => hzero' i, fun i _ _ _ => hzero' i⟩, fun _ _ => trivial⟩

/-- Growing from 64 KB to 128 KB clears the bytes from 16 KB to 32 KB. -/
theorem expandKData_clears :
    (kernelData 7).FitsK [0x10000] ∧ ¬ ExtendsAll [0x10000] (kernelData 7) := by
  have hfits : (kernelData 7).FitsK [0x10000] := ⟨by decide, by decide, by decide⟩
  refine ⟨hfits, ?_⟩
  rintro ⟨t, ht, hext, -⟩
  rw [expandKData_run hfits] at ht
  obtain rfl : (kernelData 7).setMachine ((kernelData 7).machine.withKData 0x10000) = t := by
    injection ht
  have hkept := hext.kept 0x4000 (by decide)
  revert hkept
  decide

end Spimulator
