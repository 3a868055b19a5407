import Ubi2.Lib.Table
import Mathlib.Data.List.Sort
import Mathlib.Data.Prod.Lex

namespace Ubi2.Lib

variable {κ : Type*} [LinearOrder κ]

-- A relation kept as one list of successors for each key.
abbrev Buckets (κ : Type*) := κ → List κ

namespace Buckets

variable (b : Buckets κ)

-- Append a successor, unless the list has it.
def add (k x : κ) : Buckets κ :=
  fun j => if j = k then (if x ∈ b k then b k else b k ++ [x]) else b j

-- Drop the list of a key, and the key from every other list.
def clear (a : κ) : Buckets κ :=
  fun j => if j = a then [] else (b j).filter (fun x => x ≠ a)

def sorted (k : κ) : List κ := (b k).insertionSort (· ≤ ·)

-- The lists hold the pairs of a set, each once.
def Refines (t : Table (toLex : κ × κ → Lex (κ × κ))) : Prop :=
  ∀ k, (b k).Nodup ∧ ∀ x, x ∈ b k ↔ (k, x) ∈ t.rows

-- The successors of a key in a set of pairs, in order.
def successors (t : Table (toLex : κ × κ → Lex (κ × κ))) (k : κ) : List κ :=
  (t.rows.filter (fun e => e.1 = k)).map (fun e => e.2)

theorem mem_successors {t : Table (toLex : κ × κ → Lex (κ × κ))} {k x : κ} :
    x ∈ successors t k ↔ (k, x) ∈ t.rows := by
  simp only [successors, List.mem_map, List.mem_filter, decide_eq_true_eq]
  constructor
  · rintro ⟨⟨k', x'⟩, ⟨hmem, rfl⟩, rfl⟩
    exact hmem
  · intro hmem
    exact ⟨(k, x), ⟨hmem, rfl⟩, rfl⟩

theorem sorted_successors (t : Table (toLex : κ × κ → Lex (κ × κ))) (k : κ) :
    (successors t k).Pairwise (· < ·) := by
  rw [successors, List.pairwise_map]
  refine (t.sorted.filter _).imp_of_mem ?_
  intro e e' he he' hlt
  simp only [List.mem_filter, decide_eq_true_eq] at he he'
  rcases Prod.Lex.lt_iff.mp hlt with hfst | ⟨-, hsnd⟩
  · have heq : e.1 = e'.1 := he.2.trans he'.2.symm
    exact absurd hfst (by simp [heq])
  · exact hsnd

theorem nodup_successors (t : Table (toLex : κ × κ → Lex (κ × κ))) (k : κ) :
    (successors t k).Nodup :=
  (sorted_successors t k).imp (fun h => ne_of_lt h)

variable {b} {t : Table (toLex : κ × κ → Lex (κ × κ))}

theorem refines_empty : Refines (fun _ : κ => []) ∅ := by
  intro k
  exact ⟨List.nodup_nil, fun x => by simp⟩

theorem Refines.add (h : b.Refines t) (k x : κ) : (b.add k x).Refines (t.put (k, x)) := by
  intro j
  have hpair : ∀ y, (j, y) ∈ (t.put (k, x)).rows ↔ (j = k ∧ y = x) ∨ (j, y) ∈ t.rows := by
    intro y
    rw [Table.mem_put]
    constructor
    · rintro (heq | ⟨hmem, -⟩)
      · exact Or.inl (Prod.mk.inj heq)
      · exact Or.inr hmem
    · rintro (⟨rfl, rfl⟩ | hmem)
      · exact Or.inl rfl
      · by_cases heq : (j, y) = (k, x)
        · exact Or.inl heq
        · exact Or.inr ⟨hmem, fun hlex => heq (toLex.injective hlex)⟩
  unfold Buckets.add
  by_cases hj : j = k
  · rw [if_pos hj]
    by_cases hx : x ∈ b k
    · rw [if_pos hx]
      refine ⟨(h k).1, fun y => ?_⟩
      rw [hpair, hj, (h k).2 y]
      constructor
      · exact Or.inr
      · rintro (⟨-, rfl⟩ | hmem)
        · exact ((h k).2 y).mp hx
        · exact hmem
    · rw [if_neg hx]
      refine ⟨?_, fun y => ?_⟩
      · exact List.nodup_append.mpr ⟨(h k).1, List.nodup_singleton x, fun y hy z hz hyz => by
          rw [List.mem_singleton.mp hz] at hyz
          exact hx (hyz ▸ hy)⟩
      · rw [hpair, hj, List.mem_append, List.mem_singleton, (h k).2 y]
        simp [or_comm]
  · rw [if_neg hj]
    refine ⟨(h j).1, fun y => ?_⟩
    rw [hpair, (h j).2 y]
    simp [hj]

theorem Refines.clear (h : b.Refines t) (a : κ) :
    (b.clear a).Refines (t.filter fun e => e.1 ≠ a ∧ e.2 ≠ a) := by
  intro j
  unfold Buckets.clear
  by_cases hj : j = a
  · rw [if_pos hj]
    refine ⟨List.nodup_nil, fun y => ?_⟩
    simp [Table.mem_filter, hj]
  · rw [if_neg hj]
    refine ⟨(h j).1.filter _, fun y => ?_⟩
    rw [List.mem_filter, Table.mem_filter, (h j).2 y]
    simp [hj]

-- Read in order, the list of a key is its successors in the set.
theorem Refines.sorted_eq (h : b.Refines t) (k : κ) : b.sorted k = successors t k := by
  have hperm : (b.sorted k).Perm (successors t k) := by
    refine (List.perm_insertionSort _ _).trans ?_
    rw [List.perm_ext_iff_of_nodup (h k).1 (nodup_successors t k)]
    intro x
    rw [(h k).2, mem_successors]
  have hsorted : (b.sorted k).Pairwise (· ≤ ·) := List.pairwise_insertionSort _ _
  exact hperm.eq_of_pairwise (fun x y _ _ hxy hyx => le_antisymm hxy hyx) hsorted
    ((sorted_successors t k).imp le_of_lt)

end Buckets

end Ubi2.Lib
