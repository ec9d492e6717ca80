import Mathlib.Logic.Function.Basic
import Mathlib.Data.List.Induction
import Mathlib.Data.List.Nodup
import Mathlib.Tactic.SplitIfs

/-! Singly linked chains of nodes, and the loops that walk along them. The bound of a loop is the
number of nodes that it may visit. -/
namespace LinkedChain

variable {A : Type}

/-- The nodes from a link on up to the null link, in order. -/
def Links (next : A → Option A) : Option A → List A → Prop
  | l, [] => l = none
  | l, a :: as => l = some a ∧ Links next (next a) as

section

variable {next next' : A → Option A} {l : Option A} {a : A} {as bs : List A}

@[simp] theorem links_nil : Links next l [] ↔ l = none := Iff.rfl

@[simp] theorem links_cons : Links next l (a :: as) ↔ l = some a ∧ Links next (next a) as := Iff.rfl

theorem Links.unique (h : Links next l as) (h' : Links next l bs) : as = bs := by
  induction as generalizing l bs with
  | nil =>
    cases bs with
    | nil => rfl
    | cons b bs => simp [links_nil.mp h] at h'
  | cons a as ih =>
    cases bs with
    | nil => simp [links_nil.mp h'] at h
    | cons b bs =>
      obtain ⟨rfl, h⟩ := h
      obtain ⟨hab, h'⟩ := h'
      cases hab
      rw [ih h h']

theorem Links.after (h : Links next l (as ++ a :: bs)) : Links next (next a) bs := by
  induction as generalizing l with
  | nil => exact h.2
  | cons c as ih => exact ih h.2

/-- A chain that ends visits no node twice. -/
theorem Links.nodup (h : Links next l as) : as.Nodup := by
  induction as generalizing l with
  | nil => simp
  | cons a as ih =>
    refine List.nodup_cons.mpr ⟨fun ha => ?_, ih h.2⟩
    obtain ⟨ps, qs, rfl⟩ := List.append_of_mem ha
    have hlen := congrArg List.length (h.2.unique h.2.after)
    simp only [List.length_append, List.length_cons] at hlen
    omega

theorem Links.congr (h : Links next l as) (heq : ∀ a ∈ as, next' a = next a) :
    Links next' l as := by
  induction as generalizing l with
  | nil => exact h
  | cons a as ih =>
    rw [List.forall_mem_cons] at heq
    refine ⟨h.1, ?_⟩
    rw [heq.1]
    exact ih h.2 heq.2

/-- A node is put in front of a chain. -/
theorem Links.push [DecidableEq A] (h : Links next l as) (ha : a ∉ as) :
    Links (Function.update next a l) (some a) (a :: as) := by
  refine ⟨rfl, ?_⟩
  rw [Function.update_self]
  exact h.congr fun b hb => Function.update_of_ne (ne_of_mem_of_not_mem hb ha) ..

/-- The chain from a node on is replaced. -/
theorem Links.relink [DecidableEq A] {l' : Option A} {cs : List A} (h : Links next l (as ++ a :: bs))
    (hcs : Links next l' cs) (ha : a ∉ as) (hac : a ∉ cs) :
    Links (Function.update next a l') l (as ++ a :: cs) := by
  induction as generalizing l with
  | nil =>
    refine ⟨h.1, ?_⟩
    rw [Function.update_self]
    exact hcs.congr fun b hb => Function.update_of_ne (ne_of_mem_of_not_mem hb hac) ..
  | cons c as ih =>
    rw [List.mem_cons, not_or] at ha
    refine ⟨h.1, ?_⟩
    rw [Function.update_of_ne (Ne.symm ha.1)]
    exact ih h.2 ha.2

lemma Links.through {cs : List A} (h : Links next l (as ++ a :: bs))
    (heq : ∀ b ∈ as, next' b = next b) (hcs : Links next' l cs) :
    ∃ ds, cs = as ++ ds ∧ Links next' (some a) ds := by
  induction as generalizing l cs with
  | nil =>
    rw [h.1] at hcs
    exact ⟨cs, rfl, hcs⟩
  | cons c as ih =>
    rw [List.forall_mem_cons] at heq
    obtain ⟨rfl, h⟩ := h
    cases cs with
    | nil => simp at hcs
    | cons d cs =>
      obtain ⟨hcd, hcs⟩ := hcs
      cases hcd
      rw [heq.1] at hcs
      obtain ⟨ds, rfl, hds⟩ := ih h heq.2 hcs
      exact ⟨ds, rfl, hds⟩

/-- A node that is put in front of a chain it is already in makes the chain endless. -/
theorem Links.push_mem [DecidableEq A] (h : Links next l as) (ha : a ∈ as) (bs : List A) :
    ¬ Links (Function.update next a l) (some a) bs := by
  intro hbs
  obtain ⟨ps, qs, rfl⟩ := List.append_of_mem ha
  have hps : a ∉ ps := fun hp => (List.nodup_append.mp h.nodup).2.2 a hp a (by simp) rfl
  cases bs with
  | nil => simp at hbs
  | cons b cs =>
    obtain ⟨hab, hcs⟩ := hbs
    cases hab
    have hrest := hcs
    rw [Function.update_self] at hrest
    obtain ⟨ds, rfl, hds⟩ := h.through
      (fun b hb => Function.update_of_ne (ne_of_mem_of_not_mem hb hps) ..) hrest
    have hlen := congrArg List.length
      (hds.unique (show Links _ (some a) (a :: (ps ++ ds)) from ⟨rfl, hcs⟩))
    simp only [List.length_cons, List.length_append] at hlen
    omega

end

/-! Searching a chain. -/

def find (p : A → Bool) (next : A → Option A) : ℕ → Option A → Option (Option A)
  | _, none => some none
  | 0, some _ => none
  | n + 1, some c => if p c then some (some c) else find p next n (next c)

section

variable {p : A → Bool} {next : A → Option A} {l : Option A} {as : List A}

theorem Links.find_eq (h : Links next l as) {n : ℕ} (hn : as.length ≤ n) :
    find p next n l = some (as.find? p) := by
  induction as generalizing l n with
  | nil =>
    rw [links_nil.mp h]
    cases n <;> rfl
  | cons a as ih =>
    obtain ⟨rfl, h⟩ := h
    obtain ⟨n, rfl⟩ : ∃ m, n = m + 1 := ⟨n - 1, by simp only [List.length_cons] at hn; omega⟩
    rw [find, List.find?_cons]
    cases hp : p a with
    | true => rfl
    | false => exact ih h (by simpa using hn)

theorem find_mono {n m : ℕ} {r : Option A} (h : find p next n l = some r) (hnm : n ≤ m) :
    find p next m l = some r := by
  induction n generalizing l m with
  | zero =>
    cases l with
    | none => cases m <;> exact h
    | some c => simp [find] at h
  | succ n ih =>
    obtain ⟨m, rfl⟩ : ∃ k, m = k + 1 := ⟨m - 1, by omega⟩
    cases l with
    | none => exact h
    | some c =>
      rw [find] at h ⊢
      split_ifs at h ⊢ with hp
      · exact h
      · exact ih h (by omega)

end

/-! Taking a node out of a chain. -/

section

variable [DecidableEq A]

/-- The link to a node is made to skip it: that of the node before it, or the head. -/
def skip (head : Option A) (next : A → Option A) (c : A) :
    Option A → Option A × (A → Option A)
  | none => (next c, next)
  | some p => (head, Function.update next p (next c))

/-- The loop keeps the node before the cursor. -/
def unlink (head : Option A) (next : A → Option A) (entry : Option A) :
    ℕ → Option A → Option A → Option (Option A × (A → Option A))
  | _, _, none => some (head, next)
  | 0, _, some _ => none
  | n + 1, prev, some c =>
    if entry = some c then some (skip head next c prev)
    else unlink head next entry n (some c) (next c)

variable {head l prev entry : Option A} {next : A → Option A} {a : A} {as ps : List A}

theorem unlink_some (n : ℕ) (c : A) :
    unlink head next entry (n + 1) prev (some c) =
      if entry = some c then some (skip head next c prev)
      else unlink head next entry n (some c) (next c) := rfl

theorem unlink_mono {n m : ℕ} {r : Option A × (A → Option A)}
    (h : unlink head next entry n prev l = some r) (hnm : n ≤ m) :
    unlink head next entry m prev l = some r := by
  induction n generalizing l m prev with
  | zero =>
    cases l with
    | none => cases m <;> exact h
    | some c => simp [unlink] at h
  | succ n ih =>
    obtain ⟨m, rfl⟩ : ∃ k, m = k + 1 := ⟨m - 1, by omega⟩
    cases l with
    | none => exact h
    | some c =>
      rw [unlink_some] at h ⊢
      split_ifs at h ⊢ with hc
      · exact h
      · exact ih h (by omega)

/-- Without a node to look for, nothing is taken out. -/
theorem Links.unlink_none (h : Links next l as) {n : ℕ} (hn : as.length ≤ n) :
    unlink head next none n prev l = some (head, next) := by
  induction as generalizing l n prev with
  | nil =>
    rw [links_nil.mp h]
    cases n <;> rfl
  | cons a as ih =>
    obtain ⟨rfl, h⟩ := h
    obtain ⟨n, rfl⟩ : ∃ m, n = m + 1 := ⟨n - 1, by simp only [List.length_cons] at hn; omega⟩
    rw [unlink_some, if_neg (by simp)]
    exact ih h (by simpa using hn)

lemma Links.unlink_from (h : Links next head (ps ++ as)) (hl : Links next l as) (ha : a ∈ as)
    {n : ℕ} (hn : as.length ≤ n) :
    ∃ head' next', unlink head next (some a) n ps.getLast? l = some (head', next') ∧
      Links next' head' ((ps ++ as).erase a) ∧ ∀ b, b ∉ ps ++ as → next' b = next b := by
  induction as generalizing ps l n with
  | nil => simp at ha
  | cons c cs ih =>
    obtain ⟨rfl, hl⟩ := hl
    obtain ⟨n, rfl⟩ : ∃ m, n = m + 1 := ⟨n - 1, by simp only [List.length_cons] at hn; omega⟩
    rw [unlink_some]
    by_cases hac : a = c
    · subst hac
      have hnd := List.nodup_append.mp h.nodup
      have hps : a ∉ ps := fun hp => hnd.2.2 a hp a (by simp) rfl
      rw [if_pos rfl, List.erase_append_right _ hps, List.erase_cons_head]
      cases ps using List.reverseRecOn with
      | nil => exact ⟨_, _, rfl, hl, fun _ _ => rfl⟩
      | append_singleton qs q =>
        rw [List.getLast?_concat]
        refine ⟨_, _, rfl, ?_, fun b hb => Function.update_of_ne ?_ ..⟩
        · rw [List.append_assoc] at h ⊢
          refine h.relink hl (fun hq => ?_) fun hq => ?_
          · exact (List.nodup_append.mp hnd.1).2.2 q hq q (by simp) rfl
          · exact hnd.2.2 q (by simp) q (List.mem_cons_of_mem _ hq) rfl
        · rintro rfl
          simp at hb
    · rw [if_neg (by simpa using hac)]
      have hcs : a ∈ cs := (List.mem_cons.mp ha).resolve_left hac
      have h' : Links next head ((ps ++ [c]) ++ cs) := by simpa using h
      have := ih h' hl hcs (n := n) (by simpa using hn)
      simpa using this

/-- A node of the chain is taken out of it. -/
theorem Links.unlink_mem (h : Links next head as) (ha : a ∈ as) {n : ℕ} (hn : as.length ≤ n) :
    ∃ head' next', unlink head next (some a) n none head = some (head', next') ∧
      Links next' head' (as.erase a) ∧ ∀ b, b ∉ as → next' b = next b :=
  Links.unlink_from (show Links next head ([] ++ as) from h) h ha hn

end

end LinkedChain
