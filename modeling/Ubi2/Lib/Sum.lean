import Mathlib.Algebra.BigOperators.Group.Finset.Piecewise
import Mathlib.Algebra.BigOperators.Group.List.Basic
import Mathlib.Algebra.BigOperators.Ring.List
import Mathlib.Algebra.Order.BigOperators.Group.List
import Mathlib.Algebra.Order.Ring.Nat
import Ubi2.Lib.Table

namespace Ubi2.Lib

-- A list is summed key by key when every record has one of the keys.
theorem sum_groups {α κ : Type*} [DecidableEq κ] {key : α → κ} {ks : List κ} (hnodup : ks.Nodup)
    (f : α → Nat) {xs : List α} (h : ∀ x ∈ xs, key x ∈ ks) :
    (ks.map fun k => ((xs.filter (fun x => key x = k)).map f).sum).sum = (xs.map f).sum := by
  induction xs with
  | nil => simp
  | cons x xs ih =>
    obtain ⟨hx, hxs⟩ := List.forall_mem_cons.mp h
    have hcons (k : κ) : (((x :: xs).filter (fun x => key x = k)).map f).sum =
        (if key x = k then f x else 0) + ((xs.filter (fun x => key x = k)).map f).sum := by
      by_cases hk : key x = k
      · simp [hk]
      · simp [hk]
    have hone : (ks.map fun k => if key x = k then f x else 0).sum = f x := by
      rw [← List.sum_toFinset _ hnodup, Finset.sum_ite_eq, if_pos (List.mem_toFinset.mpr hx)]
    simp only [hcons]
    rw [List.sum_map_add, hone, ih hxs, List.map_cons, List.sum_cons]

namespace Table

variable {α κ : Type*} [LinearOrder κ] {key : α → κ}

def sum (t : Table key) (f : α → Nat) : Nat := (t.rows.map f).sum

@[simp] theorem sum_empty (f : α → Nat) : (∅ : Table key).sum f = 0 := rfl

theorem sum_le_sum {t : Table key} {f g : α → Nat} (h : ∀ a, f a ≤ g a) : t.sum f ≤ t.sum g :=
  List.sum_le_sum fun a _ => h a

theorem sum_congr {t : Table key} {f g : α → Nat} (h : ∀ a ∈ t.rows, f a = g a) :
    t.sum f = t.sum g :=
  congrArg List.sum (List.map_congr_left h)

theorem sum_add (t : Table key) (f g : α → Nat) :
    t.sum (fun a => f a + g a) = t.sum f + t.sum g :=
  List.sum_map_add

theorem sum_mul (t : Table key) (c : Nat) (f : α → Nat) :
    t.sum (fun a => c * f a) = c * t.sum f :=
  List.sum_map_mul_left t.rows f c

theorem sum_filter (t : Table key) (p : α → Bool) (f : α → Nat) :
    ((t.rows.filter p).map f).sum = t.sum fun a => if p a then f a else 0 := by
  unfold sum
  induction t.rows with
  | nil => rfl
  | cons a as ih =>
    by_cases hp : p a
    · simp [hp, ih]
    · simp [hp, ih]

-- A write replaces the weight of the record under its key.
theorem sum_put (t : Table key) (a : α) (f : α → Nat) :
    (t.put a).sum f + ((t.get (key a)).map f).getD 0 = t.sum f + f a := by
  obtain ⟨l, hl⟩ := t
  simp only [sum, get, put]
  induction l with
  | nil => simp [insertRow]
  | cons b bs ih =>
    obtain ⟨hb, hbs⟩ := List.pairwise_cons.mp hl
    rw [insertRow]
    by_cases hlt : key a < key b
    · -- no later key is the one that is written either
      have hnone : (b :: bs).find? (fun x => key x = key a) = none := by
        rw [List.find?_eq_none]
        intro x hx heq
        rw [decide_eq_true_eq] at heq
        rcases List.mem_cons.mp hx with rfl | hmem
        · exact absurd heq hlt.ne'
        · exact absurd heq (hlt.trans (hb x hmem)).ne'
      rw [if_pos hlt, hnone]
      simp only [List.map_cons, List.sum_cons, Option.map_none, Option.getD_none]
      omega
    · rw [if_neg hlt]
      by_cases heq : key a = key b
      · rw [if_pos heq, List.find?_cons_of_pos (by simp [heq])]
        simp only [List.map_cons, List.sum_cons, Option.map_some, Option.getD_some]
        omega
      · have hrest := ih hbs
        rw [if_neg heq, List.find?_cons_of_neg (by simpa using fun h => heq h.symm)]
        simp only [List.map_cons, List.sum_cons]
        omega

theorem filter_key (t : Table key) (k : κ) :
    t.rows.filter (fun a => key a = k) = (t.get k).toList := by
  cases hget : t.get k with
  | none =>
    rw [get_eq_none_iff] at hget
    rw [Option.toList_none, List.filter_eq_nil_iff]
    intro a ha heq
    exact hget a ha (decide_eq_true_eq.mp heq)
  | some a =>
    have hone : ∀ b, b ∈ t.rows.filter (fun a => key a = k) ↔ b ∈ [a] := by
      intro b
      have hb := @get_eq_some_iff _ _ _ key t k b
      rw [hget, Option.some.injEq] at hb
      rw [List.mem_filter, decide_eq_true_eq, ← hb, List.mem_singleton, eq_comm]
    have hperm := (List.perm_ext_iff_of_nodup (t.nodup_rows.filter _) (List.nodup_singleton a)).mpr
      hone
    exact List.perm_singleton.mp hperm

-- Looking every key up sums the table, when the list has all of its keys.
theorem sum_get {t : Table key} {ks : List κ} (hnodup : ks.Nodup) (f : α → Nat)
    (h : ∀ a ∈ t.rows, key a ∈ ks) :
    (ks.map fun k => ((t.get k).map f).getD 0).sum = t.sum f := by
  have hone (k : κ) : ((t.get k).map f).getD 0 =
      ((t.rows.filter (fun a => key a = k)).map f).sum := by
    rw [filter_key]
    cases t.get k with
    | none => rfl
    | some a => simp
  simp only [hone]
  exact sum_groups hnodup f h

end Table

end Ubi2.Lib
