import Mathlib.Data.List.Induction
import Mathlib.Data.List.Nodup
import Mathlib.Data.List.Perm.Basic

namespace Ubi2.Lib.Keyed

variable {α κ : Type} [DecidableEq κ] (key : α → κ)

-- The last entry under a key.
def last (l : List α) (k : κ) : Option α := l.reverse.find? fun a => key a = k

-- Another entry under a key, behind those that it has. A new key comes last.
def push (k : κ) (a : α) : List (κ × List α) → List (κ × List α)
  | [] => [(k, [a])]
  | (k', group) :: rest => if k' = k then (k', group ++ [a]) :: rest else (k', group) :: push k a rest

-- The entries under each key.
def group (l : List α) : List (κ × List α) := l.foldl (fun groups a => push (key a) a groups) []

variable {key} {l l' : List α} {k : κ} {a : α}

theorem last_mem (h : last key l k = some a) : a ∈ l ∧ key a = k := by
  rw [last] at h
  have hkey := List.find?_some h
  exact ⟨List.mem_reverse.mp (List.mem_of_find?_eq_some h), of_decide_eq_true hkey⟩

theorem last_eq_some (hnodup : (l.map key).Nodup) : last key l k = some a ↔ a ∈ l ∧ key a = k := by
  refine ⟨last_mem, fun ⟨hmem, hkey⟩ => ?_⟩
  cases hlast : last key l k with
  | none =>
    rw [last, List.find?_eq_none] at hlast
    exact absurd (decide_eq_true hkey) (hlast a (List.mem_reverse.mpr hmem))
  | some b =>
    obtain ⟨hb, hkey'⟩ := last_mem hlast
    rw [List.inj_on_of_nodup_map hnodup hb hmem (hkey'.trans hkey.symm)]

-- Where no key has two entries their order does not matter.
theorem last_perm (hperm : l.Perm l') (hnodup : (l.map key).Nodup) :
    last key l k = last key l' k := by
  have hnodup' : (l'.map key).Nodup := (hperm.map key).nodup_iff.mp hnodup
  apply Option.ext
  intro a
  rw [last_eq_some hnodup, last_eq_some hnodup', hperm.mem_iff]

section

variable {groups : List (κ × List α)} {g : List α} {k' : κ}

theorem mem_keys_push : k' ∈ (push k a groups).map Prod.fst ↔ k' = k ∨ k' ∈ groups.map Prod.fst := by
  induction groups with
  | nil => simp [push]
  | cons entry rest ih =>
    rw [push]
    split
    · rename_i heq
      simp [heq]
    · rw [List.map_cons, List.mem_cons, ih, List.map_cons, List.mem_cons]
      exact or_left_comm

theorem nodup_push (h : (groups.map Prod.fst).Nodup) : ((push k a groups).map Prod.fst).Nodup := by
  induction groups with
  | nil => simp [push]
  | cons entry rest ih =>
    rw [List.map_cons, List.nodup_cons] at h
    rw [push]
    split
    · rw [List.map_cons, List.nodup_cons]
      exact h
    · rename_i hne
      rw [List.map_cons, List.nodup_cons, mem_keys_push]
      refine ⟨?_, ih h.2⟩
      rintro (heq | hmem)
      · exact hne heq
      · exact h.1 hmem

theorem lookup_cons_if {k₁ : κ} {g₁ : List α} :
    ((k₁, g₁) :: groups).lookup k' = if k' = k₁ then some g₁ else groups.lookup k' := by
  rw [List.lookup_cons]
  by_cases h : k' = k₁
  · rw [if_pos h, beq_iff_eq.mpr h]
  · rw [if_neg h, beq_eq_false_iff_ne.mpr h]

theorem lookup_push : (push k a groups).lookup k' =
    if k' = k then some ((groups.lookup k).getD [] ++ [a]) else groups.lookup k' := by
  induction groups with
  | nil => rw [push, lookup_cons_if, List.lookup_nil, List.lookup_nil, Option.getD_none, List.nil_append]
  | cons entry rest ih =>
    obtain ⟨k₁, g₁⟩ := entry
    rw [push, lookup_cons_if, lookup_cons_if]
    by_cases heq : k₁ = k
    · subst heq
      rw [if_pos rfl, lookup_cons_if, if_pos rfl, Option.getD_some]
      split <;> rfl
    · rw [if_neg heq, lookup_cons_if, ih, if_neg (Ne.symm heq)]
      by_cases hk : k' = k₁
      · rw [if_pos hk, if_pos hk, if_neg (hk ▸ heq)]
      · rw [if_neg hk, if_neg hk]

theorem mem_iff_lookup (h : (groups.map Prod.fst).Nodup) :
    (k, g) ∈ groups ↔ groups.lookup k = some g := by
  induction groups with
  | nil => simp
  | cons entry rest ih =>
    obtain ⟨k₁, g₁⟩ := entry
    rw [List.map_cons, List.nodup_cons] at h
    rw [List.mem_cons, Prod.mk.injEq, ih h.2, lookup_cons_if]
    by_cases heq : k = k₁
    · have hnone : rest.lookup k ≠ some g := by
        intro hlookup
        have hmem := List.mem_map_of_mem (f := Prod.fst) ((ih h.2).mpr hlookup)
        exact h.1 (heq ▸ hmem)
      rw [if_pos heq, Option.some.injEq, eq_comm (a := g₁)]
      exact ⟨fun hor => (hor.resolve_right hnone).2, fun hg => .inl ⟨heq, hg⟩⟩
    · rw [if_neg heq]
      exact ⟨fun hor => hor.resolve_left fun hand => heq hand.1, .inr⟩

end

theorem group_append (l : List α) (a : α) : group key (l ++ [a]) = push (key a) a (group key l) := by
  rw [group, List.foldl_append]
  rfl

theorem nodup_group (l : List α) : ((group key l).map Prod.fst).Nodup := by
  induction l using List.reverseRecOn with
  | nil => exact List.nodup_nil
  | append_singleton l a ih =>
    rw [group_append]
    exact nodup_push ih

theorem getD_lookup_group (l : List α) :
    ((group key l).lookup k).getD [] = l.filter fun a => key a = k := by
  induction l using List.reverseRecOn generalizing k with
  | nil => rfl
  | append_singleton l a ih =>
    rw [group_append, lookup_push, List.filter_append]
    split
    · rename_i heq
      subst heq
      rw [ih, Option.getD_some]
      simp
    · rename_i hne
      rw [ih]
      simp [Ne.symm hne]

theorem ne_nil_of_lookup {l g : List α} (h : (group key l).lookup k = some g) : g ≠ [] := by
  induction l using List.reverseRecOn generalizing k g with
  | nil => cases h
  | append_singleton l a ih =>
    rw [group_append, lookup_push] at h
    split at h
    · rw [Option.some.injEq] at h
      rw [← h]
      exact List.append_ne_nil_of_right_ne_nil _ (List.cons_ne_nil _ _)
    · exact ih h

-- A group is made of all the entries under its key, and there is one for each key.
theorem mem_group {l g : List α} :
    (k, g) ∈ group key l ↔ g = l.filter (fun a => key a = k) ∧ g ≠ [] := by
  rw [mem_iff_lookup (nodup_group l)]
  constructor
  · intro h
    refine ⟨?_, ne_nil_of_lookup h⟩
    rw [← getD_lookup_group, h, Option.getD_some]
  · rintro ⟨rfl, hne⟩
    cases h : (group key l).lookup k with
    | none =>
      rw [← getD_lookup_group, h] at hne
      exact absurd rfl hne
    | some g => rw [← getD_lookup_group, h, Option.getD_some]

end Ubi2.Lib.Keyed
