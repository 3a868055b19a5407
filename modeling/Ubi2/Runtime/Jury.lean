import Ubi2.Runtime.Quorum
import Mathlib.Data.List.Perm.Basic

namespace Ubi2.Runtime

open Lib

theorem swapAt_perm (l : List Address) (i j : Nat) : (swapAt l i j).Perm l := by
  unfold swapAt
  split
  · rename_i a b ha hb
    obtain ⟨hi, rfl⟩ := List.getElem?_eq_some_iff.mp ha
    obtain ⟨hj, rfl⟩ := List.getElem?_eq_some_iff.mp hb
    exact List.set_set_perm hi hj
  · exact List.Perm.refl l

theorem drawJury_perm (usizeBits : Nat) (rng : U64) (candidates : List Address) (i steps : Nat) :
    (drawJury usizeBits rng candidates i steps).Perm candidates := by
  induction steps generalizing rng candidates i with
  | zero => exact List.Perm.refl _
  | succ steps ih =>
    unfold drawJury
    generalize nextU64 rng = word
    exact (ih word.1 _ (i + 1)).trans (swapAt_perm _ _ _)

theorem mem_sortDedup {l : List Address} {a : Address} : a ∈ sortDedup l ↔ a ∈ l :=
  Table.mem_ofList_id

theorem nodup_sortDedup (l : List Address) : (sortDedup l).Nodup := Table.nodup_rows _

theorem sortDedup_congr {l l' : List Address} (h : l'.Perm l) : sortDedup l' = sortDedup l := by
  refine congrArg Table.rows (Table.ext_mem fun a => ?_)
  exact mem_sortDedup.trans (h.mem_iff.trans mem_sortDedup.symm)

theorem sortDedup_perm {l : List Address} (h : l.Nodup) : (sortDedup l).Perm l :=
  (List.perm_ext_iff_of_nodup (nodup_sortDedup l) h).mpr fun _ => mem_sortDedup

-- A draw stays inside the candidates that are left.
theorem draw_lt {n i : Nat} (h : i < n) (word : Nat) : i + word % (n - i) < n := by
  have hmod := Nat.mod_lt word (Nat.sub_pos_of_lt h)
  omega

-- A jury is seated from the candidates without repetition, and is not empty.
theorem nodup_selectJury (usizeBits : Nat) (candidates : List Address) (size : Nat)
    (seed : U64) : (selectJury usizeBits candidates size seed).Nodup := by
  unfold selectJury
  dsimp only
  split_ifs
  · exact nodup_sortDedup candidates
  · have hperm := drawJury_perm usizeBits seed (sortDedup candidates) 0 size
    exact (hperm.nodup_iff.mpr (nodup_sortDedup candidates)).sublist (List.take_sublist _ _)

theorem mem_of_mem_selectJury {usizeBits : Nat} {candidates : List Address} {size : Nat}
    {seed : U64} {a : Address} (h : a ∈ selectJury usizeBits candidates size seed) :
    a ∈ candidates := by
  unfold selectJury at h
  dsimp only at h
  split_ifs at h
  · exact mem_sortDedup.mp h
  · have hperm := drawJury_perm usizeBits seed (sortDedup candidates) 0 size
    exact mem_sortDedup.mp (hperm.mem_iff.mp (List.mem_of_mem_take h))

theorem length_selectJury_le (usizeBits : Nat) (candidates : List Address) (size : Nat)
    (seed : U64) : (selectJury usizeBits candidates size seed).length ≤ size := by
  unfold selectJury
  dsimp only
  split_ifs with hle
  · exact hle
  · exact List.length_take_le _ _

theorem length_selectJury (usizeBits : Nat) {candidates : List Address} (h : candidates.Nodup)
    (size : Nat) (seed : U64) :
    (selectJury usizeBits candidates size seed).length = min size candidates.length := by
  have hlength := (sortDedup_perm h).length_eq
  unfold selectJury
  dsimp only
  split_ifs with hle
  · omega
  · rw [List.length_take, (drawJury_perm usizeBits seed _ 0 size).length_eq, hlength]

-- As many distinct candidates as the size allows are seated, and which ones does not depend
-- on the order they are listed in. No draw falls outside the list.
theorem jury_selected (usizeBits : Nat) {candidates : List Address} (h : candidates.Nodup)
    (size : Nat) (seed : U64) :
    (selectJury usizeBits candidates size seed).Nodup ∧
      (∀ a ∈ selectJury usizeBits candidates size seed, a ∈ candidates) ∧
      (selectJury usizeBits candidates size seed).length = min size candidates.length ∧
      (∀ candidates', candidates'.Perm candidates →
        selectJury usizeBits candidates' size seed = selectJury usizeBits candidates size seed) ∧
      (size < candidates.length → ∀ i < size, ∀ word,
        i + castUsize usizeBits word % (candidates.length - i) < candidates.length) := by
  refine ⟨nodup_selectJury usizeBits candidates size seed, fun a ha => mem_of_mem_selectJury ha,
    length_selectJury usizeBits h size seed, ?_, ?_⟩
  · intro candidates' hperm
    rw [selectJury, selectJury, sortDedup_congr hperm]
  · intro hsize i hi word
    exact draw_lt (hi.trans hsize) _

-- Two of three candidates, listed in either order.
theorem jury_selected_sample :
    (selectJury 64 [3#160, 1#160, 2#160] 2 7#64).Nodup ∧
      (∀ a ∈ selectJury 64 [3#160, 1#160, 2#160] 2 7#64, a ∈ [3#160, 1#160, 2#160]) ∧
      (selectJury 64 [3#160, 1#160, 2#160] 2 7#64).length = 2 ∧
      (∀ candidates', candidates'.Perm [3#160, 1#160, 2#160] →
        selectJury 64 candidates' 2 7#64 = selectJury 64 [3#160, 1#160, 2#160] 2 7#64) ∧
      (2 < 3 → ∀ i < 2, ∀ word : U64, i + castUsize 64 word % (3 - i) < 3) :=
  jury_selected 64 (by decide) 2 7#64

theorem selectJury_ne_nil {usizeBits : Nat} {candidates : List Address} {size : Nat}
    {seed : U64} (hsome : candidates ≠ []) (hsize : 0 < size) :
    selectJury usizeBits candidates size seed ≠ [] := by
  obtain ⟨a, ha⟩ := List.exists_mem_of_ne_nil _ hsome
  have hmem : a ∈ sortDedup candidates := mem_sortDedup.mpr ha
  unfold selectJury
  dsimp only
  split_ifs with hle
  · exact List.ne_nil_of_mem hmem
  · have hlen := (drawJury_perm usizeBits seed (sortDedup candidates) 0 size).length_eq
    intro hnil
    have htake := congrArg List.length hnil
    rw [List.length_take, List.length_nil] at htake
    omega

-- The case still has a juror to hear.
def Case.Awaits (c : Case) : Prop := ∃ juror ∈ c.jury, c.voteOf juror = none

theorem Case.awaits_of_length_lt {c : Case} (hnodup : c.jury.Nodup)
    (hlt : c.votes.length < c.jury.length) : c.Awaits := by
  by_contra hall
  have hsubset : c.jury ⊆ c.votes.map Prod.fst := by
    intro juror hjuror
    by_contra hnot
    refine hall ⟨juror, hjuror, ?_⟩
    rw [voteOf, Option.map_eq_none_iff, List.find?_eq_none]
    intro e he
    have hne : e.1 ≠ juror := fun heq => hnot (List.mem_map.mpr ⟨e, he, heq⟩)
    simpa using hne
  have hle := hnodup.length_le_of_subset hsubset
  rw [List.length_map] at hle
  omega

end Ubi2.Runtime
