import Mathlib.Logic.Relation
import Mathlib.Order.Basic

namespace Ubi2.Lib.Run

variable {σ : Type*} {step : σ → σ → Prop} {s s' : σ}

-- What every step preserves, a run preserves.
theorem invariant {P : σ → Prop} (hstep : ∀ s s', step s s' → P s → P s')
    (h : Relation.ReflTransGen step s s') (hs : P s) : P s' := by
  induction h with
  | refl => exact hs
  | tail _ hlast ih => exact hstep _ _ hlast ih

-- A relation to the start that every step extends holds between the ends of a run.
theorem relates {R : σ → σ → Prop} (hrefl : R s s)
    (htrans : ∀ s₁ s₂, R s s₁ → step s₁ s₂ → R s s₂)
    (h : Relation.ReflTransGen step s s') : R s s' := by
  induction h with
  | refl => exact hrefl
  | tail _ hlast ih => exact htrans _ _ ih hlast

-- A measure that no step raises, given an invariant, is not raised by a run.
theorem antitone {α : Type*} [Preorder α] {f : σ → α} {P : σ → Prop}
    (hP : ∀ s s', step s s' → P s → P s') (hstep : ∀ s s', step s s' → P s → f s' ≤ f s)
    (h : Relation.ReflTransGen step s s') (hs : P s) : f s' ≤ f s := by
  have hboth : P s' ∧ f s' ≤ f s := by
    induction h with
    | refl => exact ⟨hs, le_refl _⟩
    | tail _ hlast ih => exact ⟨hP _ _ hlast ih.1, (hstep _ _ hlast ih.1).trans ih.2⟩
  exact hboth.2

-- What every step of a fold keeps, the fold keeps.
theorem foldl_keeps {α β : Type*} {f : σ → α → σ} (g : σ → β) (hf : ∀ s x, g (f s x) = g s)
    (xs : List α) (s : σ) : g (xs.foldl f s) = g s := by
  induction xs generalizing s with
  | nil => rfl
  | cons x xs ih => exact (ih _).trans (hf s x)

theorem foldl_invariant {α : Type*} {f : σ → α → σ} {P : σ → Prop}
    (hf : ∀ s x, P s → P (f s x)) (xs : List α) (hs : P s) : P (xs.foldl f s) := by
  induction xs generalizing s with
  | nil => exact hs
  | cons x xs ih => exact ih (hf s x hs)

end Ubi2.Lib.Run
