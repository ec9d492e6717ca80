import Spimulator.Library.Frame

/-! Labelled steps between states, and the sequences of steps that they make up. -/
namespace Frame

variable {ι σ : Type} {step : ι → σ → σ → Prop}

/-- A sequence of steps, by its labels. -/
inductive Path (step : ι → σ → σ → Prop) : σ → List ι → σ → Prop
  | nil (s : σ) : Path step s [] s
  | cons {s t u : σ} {i : ι} {is : List ι} (first : step i s t) (rest : Path step t is u) :
      Path step s (i :: is) u

namespace Path

variable {s t u : σ} {i : ι} {is js : List ι}

theorem single (h : step i s t) : Path step s [i] t := .cons h (.nil t)

theorem append (h : Path step s is t) (h' : Path step t js u) : Path step s (is ++ js) u := by
  induction h with
  | nil => exact h'
  | cons first _ ih => exact .cons first (ih h')

/-- What every step keeps, a path keeps. -/
theorem invariant {P : σ → Prop} (h : Path step s is t)
    (hstep : ∀ i s t, step i s t → P s → P t) (hs : P s) : P t := by
  induction h with
  | nil => exact hs
  | cons first _ ih => exact ih (hstep _ _ _ first hs)

/-- What every step adds to a list, newest first, by its label. -/
theorem collects {α : Type} {f : σ → List α} {g : ι → Option α} (h : Path step s is t)
    (hstep : ∀ i s t, step i s t → f t = (g i).toList ++ f s) :
    f t = (is.filterMap g).reverse ++ f s := by
  induction h with
  | nil => rfl
  | @cons s t u i is first _ ih =>
    rw [ih, hstep i s t first, List.filterMap_cons]
    cases hi : g i with
    | none => rfl
    | some a => simp

end Path

/-- The states before and after are joined by a path. -/
def Rel.path (step : ι → σ → σ → Prop) : Rel σ where
  rel s t := ∃ is, Path step s is t
  refl s := ⟨[], .nil s⟩
  trans := by
    rintro s t u ⟨is, h⟩ ⟨js, h'⟩
    exact ⟨is ++ js, h.append h'⟩

end Frame
