import Mathlib.Logic.Function.Basic

/-! Cells of which some hold a mark, and a table of what each mark replaced. -/
namespace PatchTable

variable {A V : Type} [DecidableEq A]

structure Patched (A V : Type) where
  cells : A → V
  table : List (A × V)

/-- The cells that the entries of a list are written back to. -/
def writeBack (cells : A → V) : List (A × V) → A → V
  | [] => cells
  | b :: bs => writeBack (Function.update cells b.1 b.2) bs

namespace Patched

def patch (s : Patched A V) (mark : V) (a : A) : Patched A V :=
  ⟨Function.update s.cells a mark, (a, s.cells a) :: s.table⟩

def restore (s : Patched A V) (a : A) : Patched A V :=
  ⟨writeBack s.cells (s.table.filter (fun b => b.1 = a)), s.table.filter (fun b => b.1 ≠ a)⟩

/-- The marked cells are those in the table, and what it has for them is what they held. -/
structure Ok (mark : V) (original : A → V) (s : Patched A V) : Prop where
  unmarked : ∀ a, original a ≠ mark
  entries : ∀ b ∈ s.table, b.2 = original b.1 ∧ s.cells b.1 = mark
  others : ∀ a, (∀ b ∈ s.table, b.1 ≠ a) → s.cells a = original a

variable {mark : V} {original : A → V} {s : Patched A V}

omit [DecidableEq A] in
theorem Ok.start {cells : A → V} (h : ∀ a, cells a ≠ mark) : Ok mark cells ⟨cells, []⟩ where
  unmarked := h
  entries := by simp
  others := by simp

omit [DecidableEq A] in
/-- The table is faithful. -/
theorem Ok.marked_iff (h : s.Ok mark original) (a : A) :
    s.cells a = mark ↔ ∃ v, (a, v) ∈ s.table := by
  constructor
  · intro ha
    by_contra hno
    refine h.unmarked a ((h.others a ?_).symm.trans ha)
    rintro ⟨b, v⟩ hb rfl
    exact hno ⟨v, hb⟩
  · rintro ⟨v, hv⟩
    exact (h.entries _ hv).2

theorem Ok.patch (h : s.Ok mark original) {a : A} (ha : s.cells a ≠ mark) :
    (s.patch mark a).Ok mark original where
  unmarked := h.unmarked
  entries := by
    intro b hb
    rcases List.mem_cons.mp hb with rfl | hb
    · refine ⟨h.others a fun c hc hca => ?_, Function.update_self ..⟩
      rw [← hca] at ha
      exact ha (h.entries c hc).2
    · have hne : b.1 ≠ a := by
        intro hba
        rw [← hba] at ha
        exact ha (h.entries b hb).2
      exact ⟨(h.entries b hb).1, (Function.update_of_ne hne ..).trans (h.entries b hb).2⟩
  others := by
    intro c hc
    have hca : c ≠ a := fun e => hc (a, s.cells a) List.mem_cons_self e.symm
    refine (Function.update_of_ne hca ..).trans (h.others c fun b hb => ?_)
    exact hc b (List.mem_cons_of_mem _ hb)

lemma writeBack_of_ne (cells : A → V) {bs : List (A × V)} {a : A} (h : ∀ b ∈ bs, b.1 ≠ a) :
    writeBack cells bs a = cells a := by
  induction bs generalizing cells with
  | nil => rfl
  | cons b bs ih =>
    rw [List.forall_mem_cons] at h
    exact (ih _ h.2).trans (Function.update_of_ne h.1.symm ..)

lemma writeBack_of_entries (cells : A → V) {bs : List (A × V)} {a : A}
    (h : ∀ b ∈ bs, b.2 = original b.1) (ha : (∃ b ∈ bs, b.1 = a) ∨ cells a = original a) :
    writeBack cells bs a = original a := by
  induction bs generalizing cells with
  | nil => exact ha.resolve_left (by simp)
  | cons b bs ih =>
    rw [List.forall_mem_cons] at h
    refine ih _ h.2 ?_
    by_cases hb : b.1 = a
    · refine .inr ?_
      rw [← hb, Function.update_self, h.1]
    · rw [Function.update_of_ne (Ne.symm hb)]
      refine ha.imp_left ?_
      rintro ⟨c, hc, hca⟩
      rcases List.mem_cons.mp hc with rfl | hc
      · exact absurd hca hb
      · exact ⟨c, hc, hca⟩

/-- Restoring gives back what the cell held. -/
theorem Ok.restored (h : s.Ok mark original) (a : A) : (s.restore a).cells a = original a := by
  refine writeBack_of_entries _ (fun b hb => (h.entries b (List.mem_filter.mp hb).1).1) ?_
  by_cases ha : ∃ b ∈ s.table, b.1 = a
  · obtain ⟨b, hb, rfl⟩ := ha
    exact .inl ⟨b, by simp [hb], rfl⟩
  · exact .inr (h.others a fun b hb hba => ha ⟨b, hb, hba⟩)

theorem restore_of_ne {a c : A} (hc : c ≠ a) : (s.restore a).cells c = s.cells c := by
  refine writeBack_of_ne _ fun b hb => ?_
  have hba : b.1 = a := by simpa using (List.mem_filter.mp hb).2
  rw [hba]
  exact hc.symm

theorem Ok.restore (h : s.Ok mark original) (a : A) : (s.restore a).Ok mark original where
  unmarked := h.unmarked
  entries := by
    intro b hb
    obtain ⟨hmem, hne⟩ := List.mem_filter.mp hb
    have hba : b.1 ≠ a := by simpa using hne
    exact ⟨(h.entries b hmem).1, (restore_of_ne hba).trans (h.entries b hmem).2⟩
  others := by
    intro c hc
    by_cases hca : c = a
    · rw [hca]
      exact h.restored a
    · refine (restore_of_ne hca).trans (h.others c fun b hb hbc => ?_)
      exact hc b (List.mem_filter.mpr ⟨hb, by simp [hbc, hca]⟩) hbc

/-- Nothing is restored where nothing was patched. -/
theorem restore_of_absent {a : A} (h : ∀ b ∈ s.table, b.1 ≠ a) : s.restore a = s := by
  have hno : s.table.filter (fun b => b.1 = a) = [] := by simpa [List.filter_eq_nil_iff] using h
  have hall : s.table.filter (fun b => b.1 ≠ a) = s.table := by
    simpa [List.filter_eq_self] using h
  rw [Patched.restore, hno, hall]
  rfl

end Patched
end PatchTable
