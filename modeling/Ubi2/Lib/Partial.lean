import Mathlib.Init

namespace Ubi2.Lib

-- Where a computation that may fail is defined, when each of its parts is defined or not
-- whatever the parts before it gave.
section
variable {α β σ : Type} {x : Option α} {p q : Prop}

theorem isSome_bind_iff {f : α → Option β} (hx : x.isSome ↔ p) (hf : ∀ a, (f a).isSome ↔ q) :
    (x >>= f).isSome ↔ p ∧ q := by
  rw [← hx]
  cases x with
  | none => simp
  | some a => simpa using hf a

theorem isSome_bind_pure_iff {g : α → β} (hx : x.isSome ↔ p) :
    (x >>= fun a => pure (g a)).isSome ↔ p := by
  rw [← hx]
  cases x <;> rfl

theorem isSome_map_iff {g : α → β} (hx : x.isSome ↔ p) : (x.map g).isSome ↔ p := by
  rw [Option.isSome_map, hx]

theorem isSome_mapM_iff {f : α → Option β} {P : α → Prop} {l : List α}
    (hf : ∀ a ∈ l, (f a).isSome ↔ P a) : (l.mapM f).isSome ↔ ∀ a ∈ l, P a := by
  induction l with
  | nil => simp
  | cons a l ih =>
    have hl := ih fun b hb => hf b (List.mem_cons_of_mem _ hb)
    rw [List.mapM_cons, List.forall_mem_cons]
    exact isSome_bind_iff (hf a List.mem_cons_self) fun b => isSome_bind_pure_iff hl

theorem isSome_foldlM_iff {f : σ → α → Option σ} {P : α → Prop} {l : List α} (s : σ)
    (hf : ∀ s, ∀ a ∈ l, (f s a).isSome ↔ P a) : (l.foldlM f s).isSome ↔ ∀ a ∈ l, P a := by
  induction l generalizing s with
  | nil => simp
  | cons a l ih =>
    rw [List.foldlM_cons, List.forall_mem_cons]
    exact isSome_bind_iff (hf s a List.mem_cons_self) fun s =>
      ih s fun s b hb => hf s b (List.mem_cons_of_mem _ hb)

-- A list that was encoded part by part is decoded part by part.
theorem mapM_map_of_inverse {f : β → Option α} {g : α → β} (h : ∀ a, f (g a) = some a)
    (l : List α) : (l.map g).mapM f = some l := by
  induction l with
  | nil => rfl
  | cons a l ih => simp [List.mapM_cons, h, ih]

end

end Ubi2.Lib
