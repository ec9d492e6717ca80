import Mathlib.Data.List.Basic
import Mathlib.Data.List.TakeWhile
import Mathlib.Data.Nat.Digits.Defs
import Mathlib.Tactic.FinCases
import Mathlib.Tactic.NormNum
import Spimulator.Run

/-! The read_int service over a whole input. Reading has no way back: the byte that ends a number
is consumed with it. -/
namespace Spimulator
open Frame

/-- A number in decimal. -/
def decimal (n : ℕ) : List Byte :=
  if n = 0 then [48] else (Nat.digits 10 n).reverse.map fun d => 48 + BitVec.ofNat 8 d

/-- A number printed in decimal with an optional sign; zeros may come before it. -/
inductive Numeral : ℤ → List Byte → Prop
  | bare (zeros n : ℕ) : Numeral n (List.replicate zeros 48 ++ decimal n)
  | plus (zeros n : ℕ) : Numeral n (43 :: (List.replicate zeros 48 ++ decimal n))
  | minus (zeros n : ℕ) : Numeral (-n) (45 :: (List.replicate zeros 48 ++ decimal n))

/-- Numbers in a row, with blanks between them and any blanks before and after. -/
inductive Printed : List ℤ → List Byte → Prop
  | nil {ws : List Byte} : ws.all isBlank → Printed [] ws
  | last {ws text : List Byte} {v : ℤ} : ws.all isBlank → Numeral v text → Printed [v] (ws ++ text)
  | cons {ws text rest : List Byte} {b : Byte} {v : ℤ} {vs : List ℤ} : ws.all isBlank →
      Numeral v text → isBlank b → Printed vs rest → Printed (v :: vs) (ws ++ (text ++ b :: rest))

/-! Digits. -/

/-- The loop over the digits. -/
def digitsValue (ds : List Byte) : ℤ := ds.foldl (fun v c => v*10 + ((c.toNat : ℤ) - 48)) 0

lemma toNat_digit {d : ℕ} (hd : d < 10) : ((48 : Byte) + BitVec.ofNat 8 d).toNat = 48 + d := by
  have hd' : d % 256 = d := Nat.mod_eq_of_lt (by omega)
  simp [BitVec.toNat_add, hd']
  omega

lemma isDigit_digit {d : ℕ} (hd : d < 10) : isDigit (48 + BitVec.ofNat 8 d) = true := by
  have h := toNat_digit hd
  simp only [isDigit, decide_eq_true_eq, BitVec.le_def, h]
  constructor
  · exact Nat.le_add_right 48 d
  · change 48 + d ≤ 57
    omega

lemma digitsValue_digits {ds : List ℕ} (hds : ∀ d ∈ ds, d < 10) :
    digitsValue (ds.reverse.map fun d => 48 + BitVec.ofNat 8 d) = (Nat.ofDigits 10 ds : ℕ) := by
  induction ds with
  | nil => rfl
  | cons d ds ih =>
    have hd := toNat_digit (hds d (by simp))
    have hrest := ih fun e he => hds e (by simp [he])
    simp only [digitsValue] at hrest ⊢
    simp only [List.reverse_cons, List.map_append, List.map_cons, List.map_nil, List.foldl_append,
      List.foldl_cons, List.foldl_nil, hrest, hd, Nat.ofDigits_cons]
    push_cast
    ring

lemma digitsValue_decimal (n : ℕ) : digitsValue (decimal n) = n := by
  unfold decimal
  split
  · subst n
    rfl
  · have hlt : ∀ d ∈ Nat.digits 10 n, d < 10 := fun d hd => Nat.digits_lt_base (by norm_num) hd
    rw [digitsValue_digits hlt, Nat.ofDigits_digits]

lemma all_isDigit_decimal (n : ℕ) : ∀ c ∈ decimal n, isDigit c = true := by
  intro c hc
  unfold decimal at hc
  split at hc
  · obtain rfl := List.mem_singleton.mp hc
    rfl
  · obtain ⟨d, hd, rfl⟩ := List.mem_map.mp hc
    exact isDigit_digit (Nat.digits_lt_base (by norm_num) (List.mem_reverse.mp hd))

lemma decimal_ne_nil (n : ℕ) : decimal n ≠ [] := by
  unfold decimal
  split
  · simp
  · rename_i h
    simpa [Nat.digits_eq_nil_iff_eq_zero] using h

lemma digitsValue_zeros (zeros : ℕ) (ds : List Byte) :
    digitsValue (List.replicate zeros 48 ++ ds) = digitsValue ds := by
  induction zeros with
  | zero => rfl
  | succ zeros ih => exact ih

lemma all_isDigit_zeros (zeros n : ℕ) :
    ∀ c ∈ List.replicate zeros 48 ++ decimal n, isDigit c = true := by
  intro c hc
  rcases List.mem_append.mp hc with hc | hc
  · obtain rfl := List.eq_of_mem_replicate hc
    rfl
  · exact all_isDigit_decimal n c hc

/-! One call. -/

lemma not_isBlank_of_isDigit {c : Byte} (h : isDigit c = true) : isBlank c = false := by
  revert c
  decide

lemma not_isDigit_of_isBlank {c : Byte} (h : isBlank c = true) : isDigit c = false := by
  by_contra hc
  rw [not_isBlank_of_isDigit (by simpa using hc)] at h
  exact Bool.false_ne_true h

lemma readSign_digit {c : Byte} (h : isDigit c = true) (rest : List Byte) :
    readSign (c :: rest) = (1, c :: rest) := by
  unfold readSign
  split
  · exact absurd h (by simp_all [isDigit])
  · exact absurd h (by simp_all [isDigit])
  · rfl

lemma Numeral.ne_nil {v : ℤ} {text : List Byte} (h : Numeral v text) : text ≠ [] := by
  cases h <;> simp [decimal_ne_nil]

lemma Numeral.head {v : ℤ} {text : List Byte} (h : Numeral v text) :
    ∀ c ∈ text.head?, isBlank c = false := by
  cases h with
  | bare zeros n =>
    intro c hc
    exact not_isBlank_of_isDigit (all_isDigit_zeros zeros n c (List.mem_of_mem_head? hc))
  | plus zeros n => simp [isBlank]
  | minus zeros n => simp [isBlank]

/-- The sign is taken off, and digits are left. -/
lemma Numeral.readSign {v : ℤ} {text : List Byte} (h : Numeral v text) (rest : List Byte) :
    ∃ sign ds, Spimulator.readSign (text ++ rest) = (sign, ds ++ rest) ∧ ds ≠ []
      ∧ (∀ c ∈ ds, isDigit c = true) ∧ sign * digitsValue ds = v := by
  have hne : ∀ zeros n, List.replicate zeros 48 ++ decimal n ≠ [] := by simp [decimal_ne_nil]
  have hvalue : ∀ zeros n, digitsValue (List.replicate zeros 48 ++ decimal n) = n := by
    intro zeros n
    rw [digitsValue_zeros, digitsValue_decimal]
  cases h with
  | bare zeros n =>
    refine ⟨1, _, ?_, hne zeros n, all_isDigit_zeros zeros n, by rw [hvalue, one_mul]⟩
    have hdigits := all_isDigit_zeros zeros n
    cases hds : List.replicate zeros 48 ++ decimal n with
    | nil => exact absurd hds (hne zeros n)
    | cons c ds =>
      rw [hds] at hdigits
      exact readSign_digit (hdigits c (by simp)) _
  | plus zeros n =>
    exact ⟨1, _, rfl, hne zeros n, all_isDigit_zeros zeros n, by rw [hvalue, one_mul]⟩
  | minus zeros n =>
    exact ⟨-1, _, rfl, hne zeros n, all_isDigit_zeros zeros n, by rw [hvalue, neg_one_mul]⟩

lemma dropWhile_head {p : Byte → Bool} {bs : List Byte} (h : ∀ c ∈ bs.head?, p c = false) :
    bs.dropWhile p = bs ∧ bs.takeWhile p = [] := by
  cases bs with
  | nil => simp
  | cons c bs => simp [h c rfl]

/-- Blanks, a number and a byte that does not go on with it. -/
lemma readIntInput_numeral {ws text : List Byte} {v : ℤ} (rest : List Byte)
    (hws : ws.all isBlank) (hv : Numeral v text) (hrest : ∀ c ∈ rest.head?, isDigit c = false) :
    readIntInput (ws ++ (text ++ rest)) = (some v, rest.tail) := by
  obtain ⟨sign, ds, hsign, hne, hds, rfl⟩ := hv.readSign rest
  have hhead : ∀ c ∈ (text ++ rest).head?, isBlank c = false := by
    rw [List.head?_append_of_ne_nil _ hv.ne_nil]
    exact hv.head
  have hblanks : (ws ++ (text ++ rest)).dropWhile isBlank = text ++ rest := by
    rw [List.dropWhile_append_of_pos (List.all_eq_true.mp hws), (dropWhile_head hhead).1]
  have htake : (ds ++ rest).takeWhile isDigit = ds := by
    rw [List.takeWhile_append_of_pos hds, (dropWhile_head hrest).2, List.append_nil]
  have hdrop : (ds ++ rest).dropWhile isDigit = rest := by
    rw [List.dropWhile_append_of_pos hds, (dropWhile_head hrest).1]
  simp only [readIntInput, hblanks, hsign, htake, hdrop, if_neg hne]
  rfl

lemma readIntInput_blank {ws : List Byte} (hws : ws.all isBlank) :
    readIntInput ws = (none, []) := by
  have hblanks : ws.dropWhile isBlank = [] := by
    rw [List.dropWhile_eq_nil_iff]
    exact List.all_eq_true.mp hws
  simp only [readIntInput, hblanks]
  rfl

lemma readSign_length (input : List Byte) : (readSign input).2.length ≤ input.length := by
  unfold readSign
  split <;> simp

/-- A number that is returned was read. -/
lemma readIntInput_length {input : List Byte} (h : (readIntInput input).1.isSome) :
    (readIntInput input).2.length < input.length := by
  unfold readIntInput at h ⊢
  have hsign := readSign_length (input.dropWhile isBlank)
  have hblanks := (List.dropWhile_suffix isBlank : input.dropWhile isBlank <:+ input).length_le
  generalize readSign (input.dropWhile isBlank) = r at h hsign ⊢
  obtain ⟨sign, bs⟩ := r
  by_cases hdigits : bs.takeWhile isDigit = []
  · simp [hdigits] at h
  · have hpos := List.length_pos_iff.mpr hdigits
    have hsplit := congrArg List.length (List.takeWhile_append_dropWhile (p := isDigit) (l := bs))
    rw [List.length_append] at hsplit
    simp only [List.length_tail]
    dsimp only at hsign
    omega

/-! Calls of the service. -/

section

variable (env : Env)

/-- The machine after read_int. -/
def Machine.afterReadInt (m : Machine) : Machine :=
  (({ m with consoleIn := (readIntInput m.consoleIn).2 }.setGpr regRes
    (BitVec.ofInt 32 ((readIntInput m.consoleIn).1.getD 0))).setGpr regA3
    (if (readIntInput m.consoleIn).1.isSome then 0 else 1))

lemma doSyscall_readInt {m : Machine} (h : serviceOf (m.gpr regV0) = some .readInt) :
    (doSyscall env).run m = .ok true m.afterReadInt := by
  rw [doSyscall_run env h (by decide) (by decide)]
  rfl

/-- Calls of read_int one after another, with what each leaves in $v0 and $a3. Between two calls
the program may do anything but read from the console. -/
inductive ReadInts : Machine → List (Word × Word) → Machine → Prop
  | nil (m : Machine) : ReadInts m [] m
  | cons {m n t m' : Machine} {rs : List (Word × Word)} : n.consoleIn = m.consoleIn →
      serviceOf (n.gpr regV0) = some .readInt → (doSyscall env).run n = .ok true t →
      ReadInts t rs m' → ReadInts m ((t.gpr regRes, t.gpr regA3) :: rs) m'

variable {env}

namespace ReadInts

/-- The first call, by what it reads. -/
lemma first {m m' : Machine} {r : Word × Word} {rs : List (Word × Word)}
    (h : ReadInts env m (r :: rs) m') :
    ∃ t, t.consoleIn = (readIntInput m.consoleIn).2 ∧ ReadInts env t rs m'
      ∧ r = (BitVec.ofInt 32 ((readIntInput m.consoleIn).1.getD 0),
        if (readIntInput m.consoleIn).1.isSome then 0 else 1) := by
  cases h with
  | @cons _ n t _ _ hin hs ht hrest =>
    rw [doSyscall_readInt env hs] at ht
    obtain rfl : n.afterReadInt = t := by injection ht
    refine ⟨_, ?_, hrest, ?_⟩
    · change (readIntInput n.consoleIn).2 = _
      rw [hin]
    · rw [← hin]
      rfl

lemma printed {vs : List ℤ} {input : List Byte} (hp : Printed vs input) {m m' : Machine}
    {rs : List (Word × Word)} (hin : m.consoleIn = input) (h : ReadInts env m rs m')
    (hlen : rs.length = vs.length + 1) :
    rs = vs.map (fun v => (BitVec.ofInt 32 v, 0)) ++ [(0, 1)] := by
  induction hp generalizing m rs with
  | nil hws =>
    obtain ⟨r, rfl⟩ := List.length_eq_one_iff.mp hlen
    obtain ⟨t, -, -, rfl⟩ := h.first
    rw [hin, readIntInput_blank hws]
    rfl
  | @last ws text v hws hv =>
    obtain ⟨r, r', rfl⟩ := List.length_eq_two.mp hlen
    obtain ⟨t, ht, hrest, rfl⟩ := h.first
    obtain ⟨t', -, -, rfl⟩ := hrest.first
    have hread := readIntInput_numeral [] hws hv (by simp)
    rw [List.append_nil] at hread
    rw [hin, hread] at ht
    rw [hin, hread, ht]
    rfl
  | @cons ws text rest b v vs hws hv hb _ ih =>
    obtain ⟨r, rs, rfl⟩ := List.exists_cons_of_length_eq_add_one hlen
    obtain ⟨t, ht, hrest, rfl⟩ := h.first
    have hread := readIntInput_numeral (b :: rest) hws hv
      (by simpa using not_isDigit_of_isBlank hb)
    rw [hin, hread] at ht
    rw [ih ht hrest (by simpa using hlen), hin, hread]
    rfl

/-- So many calls can be made. -/
lemma exists_length (m : Machine) (k : ℕ) : ∃ rs m', ReadInts env m rs m' ∧ rs.length = k := by
  induction k generalizing m with
  | zero => exact ⟨[], m, .nil m, rfl⟩
  | succ k ih =>
    obtain ⟨rs, m', h, hlen⟩ := ih (m.setGpr regV0 5).afterReadInt
    exact ⟨_, m', .cons (n := m.setGpr regV0 5) rfl rfl (doSyscall_readInt env rfl) h,
      congrArg (· + 1) hlen⟩

/-- Every number that is returned costs a byte. -/
lemma length_le {m m' : Machine} {rs : List (Word × Word)} (h : ReadInts env m rs m')
    (hok : ∀ r ∈ rs, r.2 = 0) : rs.length ≤ m.consoleIn.length := by
  induction rs generalizing m with
  | nil => exact Nat.zero_le _
  | cons r rs ih =>
    obtain ⟨t, ht, hrest, rfl⟩ := h.first
    have hflag := hok _ (List.mem_cons_self)
    have hsome : (readIntInput m.consoleIn).1.isSome := by
      by_contra hnone
      simp [hnone] at hflag
    have hread := readIntInput_length hsome
    have := ih hrest fun r hr => hok r (List.mem_cons_of_mem _ hr)
    rw [List.length_cons]
    rw [ht] at this
    omega

end ReadInts

variable (env)

/-- A row of 32-bit numbers is read back, and the call after the last one fails; whatever the input,
each call returns and either fails or uses up input, so that calls cannot succeed forever. -/
theorem readInt_all :
    (∀ (vs : List ℤ) (m m' : Machine) (rs : List (Word × Word)), Printed vs m.consoleIn →
      (∀ v ∈ vs, -2^31 ≤ v ∧ v < 2^31) → ReadInts env m rs m' → rs.length = vs.length + 1 →
      rs.map (fun r => (r.1.toInt, r.2)) = vs.map (fun v => (v, 0)) ++ [(0, 1)])
    ∧ (∀ m, serviceOf (m.gpr regV0) = some .readInt →
      ∃ t, (doSyscall env).run m = .ok true t
        ∧ (t.gpr regA3 = 1 ∨ t.gpr regA3 = 0 ∧ t.consoleIn.length < m.consoleIn.length))
    ∧ ∀ (m m' : Machine) (rs : List (Word × Word)), ReadInts env m rs m' →
      (∀ r ∈ rs, r.2 = 0) → rs.length ≤ m.consoleIn.length := by
  refine ⟨fun vs m m' rs hp hvs h hlen => ?_, fun m hs => ⟨_, doSyscall_readInt env hs, ?_⟩,
    fun m m' rs h => h.length_le⟩
  · rw [h.printed hp rfl hlen]
    simp only [List.map_append, List.map_map, List.map_cons, List.map_nil]
    congr 1
    apply List.map_congr_left
    intro v hv
    obtain ⟨hlow, hhigh⟩ := hvs v hv
    simp only [Function.comp_apply]
    rw [BitVec.toInt_ofInt_eq_self (by norm_num) hlow hhigh]
  · change (if (readIntInput m.consoleIn).1.isSome then (0 : Word) else 1) = 1
      ∨ (if (readIntInput m.consoleIn).1.isSome then (0 : Word) else 1) = 0
        ∧ (readIntInput m.consoleIn).2.length < m.consoleIn.length
    by_cases hsome : (readIntInput m.consoleIn).1.isSome
    · rw [if_pos hsome]
      exact Or.inr ⟨rfl, readIntInput_length hsome⟩
    · rw [if_neg hsome]
      exact Or.inl rfl

/-- A number after the other, with a tab between them. -/
theorem readInt_two :
    ∃ (rs : List (Word × Word)) (m' : Machine),
      ReadInts .quiet { consoleIn := [52, 51, 9, 45, 51, 10] } rs m'
        ∧ rs.map (fun r => (r.1.toInt, r.2)) = [(43, 0), (-3, 0), (0, 1)] := by
  obtain ⟨rs, m', h, hlen⟩ : ∃ rs m', ReadInts .quiet { consoleIn := [52, 51, 9, 45, 51, 10] } rs m'
      ∧ rs.length = 3 := ReadInts.exists_length _ 3
  have hp : Printed [43, -3] [52, 51, 9, 45, 51, 10] := by
    have h := @Printed.cons [] _ _ 9 _ _ rfl (.bare 0 43) rfl
      (@Printed.cons [] _ _ 10 _ _ rfl (.minus 0 3) rfl (@Printed.nil [] rfl))
    simpa [decimal] using h
  refine ⟨rs, m', h, (readInt_all .quiet).1 [43, -3] _ m' rs hp ?_ h hlen⟩
  intro v hv
  fin_cases hv <;> norm_num

end

end Spimulator
