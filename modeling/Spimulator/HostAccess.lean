import Mathlib.Data.Nat.Find
import Mathlib.Tactic.SplitIfs
import Spimulator.Run

/-! The host memory that the services with a buffer are given: which places of it they touch, and
when these are bytes of the simulated memory. -/
namespace Spimulator
open Frame ByteStore

/-! Places of the host. -/

/-- The place so many bytes on. The arrays of pointers have no places that the simulated memory
knows of. -/
def MemRef.add : MemRef → ℕ → MemRef
  | .text, _ => .text
  | .data off, i => .data (off+i)
  | .stack off, i => .stack (off+i)
  | .kData off, i => .kData (off+i)

namespace Machine

def hostByte (m : Machine) : MemRef → Option Byte
  | .text => none
  | .data off => some (m.dataSeg off)
  | .stack off => some (m.stackSeg off)
  | .kData off => some (m.kDataSeg off)

/-- A byte of the simulated data, stack or kernel data. -/
def inSegment (m : Machine) : MemRef → Prop
  | .text => False
  | .data off => off < (m.dataTop - dataBot).toNat
  | .stack off => off < (stackTop - m.stackBot).toNat
  | .kData off => off < (m.kDataTop - kDataBot).toNat

instance (m : Machine) : (r : MemRef) → Decidable (m.inSegment r)
  | .text => inferInstanceAs (Decidable False)
  | .data _ | .stack _ | .kData _ => inferInstanceAs (Decidable (_ < _))

/-- What mem_reference finds at an address. -/
def refer (m : Machine) (addr : Word) : Option MemRef :=
  if m.inText addr then some .text
  else if m.inData addr then some (.data (addr - dataBot).toNat)
  else if m.inStack addr then some (.stack (addr - m.stackBot).toNat)
  else if m.inKText addr then some .text
  else if m.inKData addr then some (.kData (addr - kDataBot).toNat)
  else none

lemma memReference_run (m : Machine) (addr : Word) :
    (memReference addr).run m = match m.refer addr with
      | some r => .ok r m
      | none => .error .outOfBounds m := by
  rw [memReference, EStateM.run_bind, EStateM.run_get]
  unfold refer
  dsimp only
  split_ifs <;> rfl

/-- The bytes that read_string stores: a line of the input that fits the buffer, and a zero. -/
def stringBytes (m : Machine) : List Byte :=
  if 0 < (m.gpr regA1).toInt then
    (takeLine ((m.gpr regA1).toInt - 1).toNat m.consoleIn).1 ++ [0]
  else []

end Machine

/-! The services. -/

namespace Service

def takesBuffer : Service → Bool
  | .printString | .readString | .open | .read | .write => true
  | _ => false

/-- Where the buffer starts. -/
def buffer (m : Machine) : Service → Word
  | .read | .write => m.gpr regA1
  | _ => m.gpr regA0

/-- The addresses given to mem_reference. -/
def tested (m : Machine) : Service → List Word
  | .read | .write => [m.gpr regA1 + m.gpr regA2 - 1, m.gpr regA1]
  | _ => [m.gpr regA0]

/-- A count as the host takes it. -/
def sizeT (w : Word) : ℕ := (w.signExtend 64).toNat

/-- The service gets past mem_reference and is given this place. -/
def Reaches (m : Machine) (sv : Service) (r : MemRef) : Prop :=
  (∀ a ∈ sv.tested m, (m.refer a).isSome) ∧ m.refer (sv.buffer m) = some r

/-- It touches the i-th byte from there: a string up to its zero, the bytes that are read, or the
whole count that is written. -/
def Touches (env : Env) (m : Machine) (sv : Service) (r : MemRef) (i : ℕ) : Prop :=
  match sv with
  | .printString | .open => ∀ j < i, m.hostByte (r.add j) ≠ some 0
  | .readString => i < m.stringBytes.length
  | .read => i < (env.host.readFile m.hostCalls (m.gpr regA2)).2.length
  | .write => i < sizeT (m.gpr regA2)
  | _ => False

/-- The i-th byte is one that was asked for; a string is as long as it is. -/
def Asked (m : Machine) (i : ℕ) : Service → Prop
  | .readString => (i : ℤ) < (m.gpr regA1).toInt
  | .read | .write => (i : ℤ) < (m.gpr regA2).toInt
  | _ => True

/-- Every byte touched is one of the simulated memory and was asked for. -/
def Contained (env : Env) (m : Machine) (sv : Service) : Prop :=
  ∀ r i, sv.Reaches m r → sv.Touches env m r i → m.inSegment (r.add i) ∧ sv.Asked m i

/-- The extent of the buffer from a place on lies in its segment. -/
def Fits (m : Machine) (r : MemRef) : Service → Prop
  | .printString | .open => ∃ i, m.inSegment (r.add i) ∧ m.hostByte (r.add i) = some 0
  | .readString => 0 < (m.gpr regA1).toInt → m.inSegment (r.add ((m.gpr regA1).toInt - 1).toNat)
  | .read | .write => m.gpr regA2 ≠ 0 →
      0 < (m.gpr regA2).toInt ∧ m.inSegment (r.add ((m.gpr regA2).toInt - 1).toNat)
  | _ => True

/-- An address that is tested lies in no segment, or the buffer lies in one segment of bytes. -/
def Admits (m : Machine) (sv : Service) : Prop :=
  (∃ a ∈ sv.tested m, m.refer a = none) ∨ ∃ r, m.refer (sv.buffer m) = some r ∧ sv.Fits m r

end Service

/-- read(2) stores no more than it was asked for. -/
def Host.Honest (h : Host) : Prop :=
  ∀ n count, (h.readFile n count).2.length ≤ Service.sizeT count

section

variable {m : Machine} {sv : Service} {r : MemRef}

/-! Segments. -/

lemma inSegment_of_le {i j : ℕ} (h : i ≤ j) (hj : m.inSegment (r.add j)) :
    m.inSegment (r.add i) := by
  cases r with
  | text => exact hj
  | data off => exact Nat.lt_of_le_of_lt (Nat.add_le_add_left h off) hj
  | stack off => exact Nat.lt_of_le_of_lt (Nat.add_le_add_left h off) hj
  | kData off => exact Nat.lt_of_le_of_lt (Nat.add_le_add_left h off) hj

lemma exists_not_inSegment (m : Machine) (r : MemRef) : ∃ i, ¬ m.inSegment (r.add i) := by
  cases r with
  | text => exact ⟨0, id⟩
  | data off => exact ⟨(m.dataTop - dataBot).toNat, Nat.not_lt.mpr (Nat.le_add_left _ off)⟩
  | stack off => exact ⟨(stackTop - m.stackBot).toNat, Nat.not_lt.mpr (Nat.le_add_left _ off)⟩
  | kData off => exact ⟨(m.kDataTop - kDataBot).toNat, Nat.not_lt.mpr (Nat.le_add_left _ off)⟩

/-- A string whose zero is not in its segment is read past the end of it. -/
lemma zero_of_contained
    (h : ∀ i, (∀ j < i, m.hostByte (r.add j) ≠ some 0) → m.inSegment (r.add i)) :
    ∃ i, m.inSegment (r.add i) ∧ m.hostByte (r.add i) = some 0 := by
  classical
  by_contra hno
  have hend := Nat.find_spec (exists_not_inSegment m r)
  refine hend (h _ fun j hj hzero => hno ⟨j, ?_, hzero⟩)
  exact Classical.not_not.mp (Nat.find_min (exists_not_inSegment m r) hj)

lemma contained_of_zero {i : ℕ} (hin : ∃ k, m.inSegment (r.add k) ∧ m.hostByte (r.add k) = some 0)
    (h : ∀ j < i, m.hostByte (r.add j) ≠ some 0) : m.inSegment (r.add i) := by
  obtain ⟨k, hk, hzero⟩ := hin
  have hle : i ≤ k := Nat.le_of_not_lt fun hlt => h k hlt hzero
  exact inSegment_of_le hle hk

/-! Counts and lines. -/

lemma sizeT_of_nonneg {w : Word} (h : 0 ≤ w.toInt) : Service.sizeT w = w.toInt.toNat := by
  have hext : (w.signExtend 64).toInt = w.toInt := BitVec.toInt_signExtend_of_le (by decide)
  have hcond := BitVec.toInt_eq_toNat_cond (w.signExtend 64)
  have hlt := (w.signExtend 64).isLt
  unfold Service.sizeT
  split at hcond <;> omega

lemma sizeT_pos {w : Word} (h : w.toInt ≠ 0) : 0 < Service.sizeT w := by
  have hext : (w.signExtend 64).toInt = w.toInt := BitVec.toInt_signExtend_of_le (by decide)
  have hcond := BitVec.toInt_eq_toNat_cond (w.signExtend 64)
  unfold Service.sizeT
  split at hcond <;> omega

lemma takeLine_length (n : ℕ) (input : List Byte) : (takeLine n input).1.length ≤ n := by
  induction n generalizing input with
  | zero => simp [takeLine]
  | succ n ih =>
    cases input with
    | nil => simp [takeLine]
    | cons c rest =>
      have hrest := ih rest
      simp only [takeLine]
      split
      · simp
      · simpa using hrest

/-- Input without a newline fills the buffer. -/
lemma takeLine_replicate (n : ℕ) :
    (takeLine n (List.replicate n 65#8)).1 = List.replicate n 65#8 := by
  induction n with
  | zero => rfl
  | succ n ih => simp [takeLine, List.replicate_succ, ih]

lemma stringBytes_length (m : Machine) (h : 0 < (m.gpr regA1).toInt) :
    (m.stringBytes.length : ℤ) ≤ (m.gpr regA1).toInt := by
  have hline := takeLine_length ((m.gpr regA1).toInt - 1).toNat m.consoleIn
  rw [Machine.stringBytes, if_pos h, List.length_append, List.length_singleton]
  omega

/-! What the services touch, for all that the host can answer. -/

/-- The machine with other input waiting. -/
def Machine.withInput (m : Machine) (input : List Byte) : Machine := { m with consoleIn := input }

/-- The property, whatever the host answers and whatever is typed. -/
def Service.AlwaysContained (m : Machine) (sv : Service) : Prop :=
  ∀ (env : Env) (input : List Byte), env.host.Honest → sv.Contained env (m.withInput input)

/-- A host that fills every buffer. -/
def Host.filling : Host :=
  { Host.idle with readFile := fun _ count => (0, List.replicate (Service.sizeT count) 0) }

lemma honest_filling : Host.filling.Honest := fun _ _ => Nat.le_of_eq List.length_replicate

lemma reaches_or (hsv : sv.takesBuffer = true) :
    (∃ a ∈ sv.tested m, m.refer a = none) ∨
      ∃ r, m.refer (sv.buffer m) = some r ∧ sv.Reaches m r := by
  by_cases h : ∃ a ∈ sv.tested m, m.refer a = none
  · exact Or.inl h
  · have hall : ∀ a ∈ sv.tested m, (m.refer a).isSome := by
      intro a ha
      rw [Option.isSome_iff_ne_none]
      exact fun hnone => h ⟨a, ha, hnone⟩
    have hmem : sv.buffer m ∈ sv.tested m := by
      cases sv <;> first
        | cases hsv
          done
        | simp [Service.buffer, Service.tested]
    obtain ⟨r, hr⟩ := Option.isSome_iff_exists.mp (hall _ hmem)
    exact Or.inr ⟨r, hr, hall, hr⟩

lemma stringBytes_filled (m : Machine) (h : 0 < (m.gpr regA1).toInt) :
    (m.withInput (List.replicate ((m.gpr regA1).toInt - 1).toNat 65#8)).stringBytes.length
      = ((m.gpr regA1).toInt - 1).toNat + 1 := by
  have hline := takeLine_replicate ((m.gpr regA1).toInt - 1).toNat
  change (if 0 < (m.gpr regA1).toInt then (takeLine ((m.gpr regA1).toInt - 1).toNat
    (List.replicate ((m.gpr regA1).toInt - 1).toNat 65#8)).1 ++ [0] else []).length = _
  rw [if_pos h, hline, List.length_append, List.length_replicate, List.length_singleton]

/-- A count that the host transfers whole. -/
lemma fits_of_count (hne : m.gpr regA2 ≠ 0)
    (h : ∀ i < Service.sizeT (m.gpr regA2), m.inSegment (r.add i) ∧ (i : ℤ) < (m.gpr regA2).toInt) :
    0 < (m.gpr regA2).toInt ∧ m.inSegment (r.add ((m.gpr regA2).toInt - 1).toNat) := by
  have hne' : (m.gpr regA2).toInt ≠ 0 := fun h0 => hne (BitVec.eq_of_toInt_eq h0)
  have hpos := (h 0 (sizeT_pos hne')).2
  refine ⟨hpos, (h _ ?_).1⟩
  rw [sizeT_of_nonneg (by omega)]
  omega

/-- What is touched when all goes against the service. -/
lemma fits_of_contained (hsv : sv.takesBuffer = true) (hr : sv.Reaches m r)
    (h : sv.AlwaysContained m) : sv.Fits m r := by
  have hfill := h { Env.quiet with host := .filling }
  cases sv with
  | printString | «open» =>
    exact zero_of_contained fun i hi => (hfill m.consoleIn honest_filling r i hr hi).1
  | readString =>
    intro hpos
    refine (hfill (List.replicate ((m.gpr regA1).toInt - 1).toNat 65#8) honest_filling r _ hr ?_).1
    change _ < (m.withInput _).stringBytes.length
    rw [stringBytes_filled m hpos]
    exact Nat.lt_succ_self _
  | read =>
    intro hne
    refine fits_of_count hne fun i hi => hfill m.consoleIn honest_filling r i hr ?_
    change i < (List.replicate (Service.sizeT (m.gpr regA2)) (0 : Byte)).length
    rwa [List.length_replicate]
  | write => exact fun hne => fits_of_count hne fun i hi => hfill m.consoleIn honest_filling r i hr hi
  | _ => cases hsv

/-- A byte of the count that was asked for. -/
lemma contained_of_count {i : ℕ} (hfits : m.gpr regA2 ≠ 0 →
      0 < (m.gpr regA2).toInt ∧ m.inSegment (r.add ((m.gpr regA2).toInt - 1).toNat))
    (hi : i < Service.sizeT (m.gpr regA2)) :
    m.inSegment (r.add i) ∧ (i : ℤ) < (m.gpr regA2).toInt := by
  have hne : m.gpr regA2 ≠ 0 := by
    intro h0
    rw [h0] at hi
    exact absurd hi (Nat.not_lt_zero i)
  obtain ⟨hpos, hin⟩ := hfits hne
  rw [sizeT_of_nonneg (by omega)] at hi
  exact ⟨inSegment_of_le (by omega) hin, by omega⟩

lemma contained_of_fits (hsv : sv.takesBuffer = true) (hfits : sv.Fits m r) {env : Env}
    (hhost : env.host.Honest) {input : List Byte} {i : ℕ}
    (ht : sv.Touches env (m.withInput input) r i) :
    m.inSegment (r.add i) ∧ sv.Asked (m.withInput input) i := by
  cases sv with
  | printString | «open» => exact ⟨contained_of_zero hfits ht, trivial⟩
  | readString =>
    have hlt : i < (m.withInput input).stringBytes.length := ht
    by_cases hpos : 0 < (m.gpr regA1).toInt
    · have hlen := stringBytes_length (m.withInput input) hpos
      have hi : (i : ℤ) < (m.gpr regA1).toInt := Int.lt_of_lt_of_le (by omega) hlen
      exact ⟨inSegment_of_le (by omega) (hfits hpos), hi⟩
    · have hnil : (m.withInput input).stringBytes = [] := if_neg hpos
      rw [hnil] at hlt
      exact absurd hlt (Nat.not_lt_zero i)
  | read => exact contained_of_count hfits (Nat.lt_of_lt_of_le ht (hhost _ _))
  | write => exact contained_of_count hfits ht
  | _ => cases hsv

lemma alwaysContained_iff (hsv : sv.takesBuffer = true) :
    sv.AlwaysContained m ↔ sv.Admits m := by
  constructor
  · intro h
    rcases reaches_or (m := m) hsv with hnone | ⟨r, hr, hreach⟩
    · exact Or.inl hnone
    · exact Or.inr ⟨r, hr, fits_of_contained hsv hreach h⟩
  · rintro hadm env input hhost r i hreach ht
    have hreach' : sv.Reaches m r := by
      cases sv <;> exact hreach
    rcases hadm with ⟨a, ha, hnone⟩ | ⟨r', hr', hfits⟩
    · have hsome := hreach'.1 a ha
      rw [hnone] at hsome
      cases hsome
    · obtain rfl : r' = r := Option.some.inj (hr'.symm.trans hreach'.2)
      exact contained_of_fits hsv hfits hhost ht

/-! What the services do. -/

lemma memReference_none {a : Word} (h : m.refer a = none) :
    (memReference a).run m = .error .outOfBounds m := by
  rw [Machine.memReference_run, h]

lemma memReference_some {a : Word} (h : m.refer a = some r) :
    (memReference a).run m = .ok r m := by
  rw [Machine.memReference_run, h]

/-- What each service does with the registers it has read. -/
lemma otherService_run (env : Env) (m : Machine) :
    (otherService env .printString).run m =
      (do let _ ← memReference (m.gpr regA0); pure () : Exec Unit).run m ∧
    (otherService env .open).run m = (do
      let _ ← memReference (m.gpr regA0)
      let n ← askHost
      modify fun m => m.setGpr regRes (env.host.openFile n) : Exec Unit).run m ∧
    (otherService env .readString).run m = (do
      let r ← memReference (m.gpr regA0)
      let line ← readInput (m.gpr regA1).toInt
      putBytes r (if 0 < (m.gpr regA1).toInt then line ++ [0] else [])
      modify fun m => m.setGpr regA3 (if line = [] then 1 else 0) : Exec Unit).run m ∧
    (otherService env .read).run m = (do
      let _ ← memReference (m.gpr regA1 + m.gpr regA2 - 1)
      let r ← memReference (m.gpr regA1)
      let n ← askHost
      putBytes r (env.host.readFile n (m.gpr regA2)).2
      modify fun m' => m'.setGpr regRes (env.host.readFile n (m.gpr regA2)).1 : Exec Unit).run m ∧
    (otherService env .write).run m = (do
      let _ ← memReference (m.gpr regA1 + m.gpr regA2 - 1)
      let _ ← memReference (m.gpr regA1)
      let n ← askHost
      modify fun m => m.setGpr regRes (env.host.writeFile n) : Exec Unit).run m := by
  refine ⟨?_, ?_, ?_, ?_, ?_⟩
  all_goals rw [otherService, EStateM.run_bind, EStateM.run_get]
  all_goals simp only [readService, fileService]
  all_goals rw [EStateM.run_bind, EStateM.run_get]

/-- An address in no segment is an error before anything is touched. -/
lemma otherService_refused (env : Env) (hsv : sv.takesBuffer = true) {a : Word}
    (ha : a ∈ sv.tested m) (hnone : m.refer a = none) :
    (otherService env sv).run m = .error .outOfBounds m := by
  obtain ⟨hprint, hopen, hstring, hread, hwrite⟩ := otherService_run env m
  have hpair {f : MemRef → Exec Unit} (ha : a ∈ Service.tested m .read) :
      (do
        let _ ← memReference (m.gpr regA1 + m.gpr regA2 - 1)
        let r ← memReference (m.gpr regA1)
        f r : Exec Unit).run m = .error .outOfBounds m := by
    cases hend : m.refer (m.gpr regA1 + m.gpr regA2 - 1) with
    | none => exact run_bind_of_error (memReference_none hend)
    | some r =>
      rcases List.mem_cons.mp ha with rfl | ha
      · rw [hend] at hnone
        cases hnone
      · obtain rfl := List.mem_singleton.mp ha
        rw [run_bind_of_ok (memReference_some hend)]
        exact run_bind_of_error (memReference_none hnone)
  cases sv with
  | printString =>
    obtain rfl := List.mem_singleton.mp ha
    exact hprint.trans (run_bind_of_error (memReference_none hnone))
  | «open» =>
    obtain rfl := List.mem_singleton.mp ha
    exact hopen.trans (run_bind_of_error (memReference_none hnone))
  | readString =>
    obtain rfl := List.mem_singleton.mp ha
    exact hstring.trans (run_bind_of_error (memReference_none hnone))
  | read => exact hread.trans (hpair ha)
  | write => exact hwrite.trans (hpair ha)
  | _ => cases hsv

lemma hostByte_setGpr (m : Machine) (rt : RegNo) (v : Word) :
    (m.setGpr rt v).hostByte = m.hostByte := by
  funext p
  cases p <;> rfl

/-- Storing bytes changes no place but theirs. -/
lemma hostByte_putBytes {bs : List Byte} {p : MemRef} {f : Machine → Machine}
    (hf : ∀ m, (f m).hostByte = m.hostByte)
    (h : (final ((do putBytes r bs; modify f : Exec Unit).run m)).hostByte p ≠ m.hostByte p) :
    ∃ i < bs.length, r.add i = p := by
  have hlist {s : Store} {off j : ℕ} (hne : writeList s off bs j ≠ s j) :
      ∃ i < bs.length, off + i = j := by
    unfold writeList at hne
    by_cases hle : off ≤ j
    · refine ⟨j - off, ?_, by omega⟩
      by_contra hge
      rw [if_pos hle, List.getD_eq_getElem?_getD, List.getElem?_eq_none (by omega)] at hne
      exact hne rfl
    · rw [if_neg hle] at hne
      exact absurd rfl hne
  cases r with
  | text =>
    by_cases hbs : bs = []
    · subst hbs
      exact absurd (congrFun (hf m) p) h
    · have hrun : (do putBytes .text bs; modify f : Exec Unit).run m = .error .hostMemory m :=
        run_bind_of_error (by rw [putBytes, if_neg hbs]; rfl)
      rw [hrun] at h
      exact absurd rfl h
  | data off =>
    change (f { m with dataSeg := writeList m.dataSeg off bs }).hostByte p ≠ _ at h
    rw [hf] at h
    cases p with
    | data j =>
      obtain ⟨i, hi, rfl⟩ := hlist fun he => h (congrArg some he)
      exact ⟨i, hi, rfl⟩
    | _ => exact absurd rfl h
  | stack off =>
    change (f { m with stackSeg := writeList m.stackSeg off bs }).hostByte p ≠ _ at h
    rw [hf] at h
    cases p with
    | stack j =>
      obtain ⟨i, hi, rfl⟩ := hlist fun he => h (congrArg some he)
      exact ⟨i, hi, rfl⟩
    | _ => exact absurd rfl h
  | kData off =>
    change (f { m with kDataSeg := writeList m.kDataSeg off bs }).hostByte p ≠ _ at h
    rw [hf] at h
    cases p with
    | kData j =>
      obtain ⟨i, hi, rfl⟩ := hlist fun he => h (congrArg some he)
      exact ⟨i, hi, rfl⟩
    | _ => exact absurd rfl h

/-- A service changes no place but those it touches. -/
lemma otherService_touches (env : Env) (hsv : sv.takesBuffer = true) (hr : sv.Reaches m r)
    {p : MemRef} (h : (final ((otherService env sv).run m)).hostByte p ≠ m.hostByte p) :
    ∃ i, sv.Touches env m r i ∧ r.add i = p := by
  obtain ⟨hprint, hopen, hstring, hread, hwrite⟩ := otherService_run env m
  obtain ⟨hall, hr⟩ := hr
  cases sv with
  | printString =>
    have hr : m.refer (m.gpr regA0) = some r := hr
    rw [hprint, run_bind_of_ok (memReference_some hr)] at h
    exact absurd rfl h
  | «open» =>
    have hr : m.refer (m.gpr regA0) = some r := hr
    rw [hopen, run_bind_of_ok (memReference_some hr)] at h
    exact absurd (congrFun (hostByte_setGpr _ _ _) p) h
  | readString =>
    have hr : m.refer (m.gpr regA0) = some r := hr
    rw [hstring, run_bind_of_ok (memReference_some hr)] at h
    obtain ⟨i, hi, hp⟩ := hostByte_putBytes (fun m => hostByte_setGpr m _ _) h
    exact ⟨i, hi, hp⟩
  | read =>
    have hr : m.refer (m.gpr regA1) = some r := hr
    obtain ⟨r', hend⟩ := Option.isSome_iff_exists.mp (hall _ List.mem_cons_self)
    rw [hread, run_bind_of_ok (memReference_some hend), run_bind_of_ok (memReference_some hr)] at h
    obtain ⟨i, hi, hp⟩ := hostByte_putBytes (fun m => hostByte_setGpr m _ _) h
    exact ⟨i, hi, hp⟩
  | write =>
    have hr : m.refer (m.gpr regA1) = some r := hr
    obtain ⟨r', hend⟩ := Option.isSome_iff_exists.mp (hall _ List.mem_cons_self)
    rw [hwrite, run_bind_of_ok (memReference_some hend), run_bind_of_ok (memReference_some hr)] at h
    exact absurd (congrFun (hostByte_setGpr _ _ _) p) h
  | _ => cases hsv

/-- The services with a buffer stay inside the simulated memory, whatever is typed and whatever the
host answers, exactly when an address that they test lies in no segment, which is an error that
touches nothing, or the whole buffer lies in the segment of bytes where it starts. What they change
is among what they touch. -/
theorem buffers_contained_iff (hsv : sv.takesBuffer = true)
    (h : serviceOf (m.gpr regV0) = some sv) :
    (sv.AlwaysContained m ↔ sv.Admits m) ∧ ∀ env : Env,
      ((∃ a ∈ sv.tested m, m.refer a = none) → (doSyscall env).run m = .error .outOfBounds m) ∧
      ∀ p, (final ((doSyscall env).run m)).hostByte p ≠ m.hostByte p →
        ∃ r i, sv.Reaches m r ∧ sv.Touches env m r i ∧ r.add i = p := by
  refine ⟨alwaysContained_iff hsv, fun env => ?_⟩
  have hexit : sv ≠ .exit ∧ sv ≠ .exit2 := by
    cases sv <;> first
      | cases hsv
        done
      | exact ⟨Service.noConfusion, Service.noConfusion⟩
  have hrun := doSyscall_run env h hexit.1 hexit.2
  have hfinal : final ((doSyscall env).run m) = final ((otherService env sv).run m) := by
    rw [hrun, EStateM.run_bind]
    cases (otherService env sv).run m <;> rfl
  refine ⟨?_, fun p hp => ?_⟩
  · rintro ⟨a, ha, hnone⟩
    rw [hrun]
    exact run_bind_of_error (otherService_refused env hsv ha hnone)
  · rw [hfinal] at hp
    rcases reaches_or (m := m) hsv with ⟨a, ha, hnone⟩ | ⟨r, -, hreach⟩
    · rw [otherService_refused env hsv ha hnone] at hp
      exact absurd rfl hp
    · obtain ⟨i, ht, hadd⟩ := otherService_touches env hsv hreach hp
      exact ⟨r, i, hreach, ht, hadd⟩

end

/-- A program that asks for a service with a buffer at an address. -/
def asksWith (service addr count : Word) : Machine :=
  ((({ textTop := 0x400100, dataTop := 0x10010000 : Machine }.setGpr regV0 service).setGpr regA0
    addr).setGpr regA1 count)

theorem printString_contained :
    Service.printString.AlwaysContained (asksWith 4 0x10000000 0) :=
  (@buffers_contained_iff (asksWith 4 0x10000000 0) .printString rfl rfl).1.mpr
    (Or.inr ⟨.data 0, by decide, 0, by decide, rfl⟩)

/-- read_string writes over the array of pointers that the text segment is. -/
theorem readString_in_text :
    ¬ Service.readString.Contained Env.quiet ((asksWith 8 0x400000 4).withInput [65]) ∧
    (doSyscall Env.quiet).run ((asksWith 8 0x400000 4).withInput [65]) =
      .error .hostMemory ((asksWith 8 0x400000 4).withInput []) := by
  constructor
  · intro hcontained
    have hstart : ((asksWith 8 0x400000 4).withInput [65]).gpr regA0 = 0x400000 := rfl
    have hrefer : ((asksWith 8 0x400000 4).withInput [65]).refer 0x400000 = some .text :=
      if_pos ⟨by decide, by decide⟩
    have hreach : Service.readString.Reaches ((asksWith 8 0x400000 4).withInput [65]) .text := by
      refine ⟨fun a ha => ?_, hrefer⟩
      rw [List.mem_singleton.mp ha, hstart, hrefer]
      rfl
    have htouched : 0 < ((asksWith 8 0x400000 4).withInput [65]).stringBytes.length := by
      decide +kernel
    exact (hcontained .text 0 hreach htouched).1
  · rfl

end Spimulator
