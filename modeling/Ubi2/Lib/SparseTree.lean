import Ubi2.Lib.Table
import Mathlib.Data.Nat.Bitwise
import Mathlib.Logic.Function.Basic

namespace Ubi2.Lib.SparseTree

variable {F : Type*} (join : F → F → F)

-- The node of a complete binary tree at a level above its leaves.
def dense (leaf : Nat → F) : Nat → Nat → F
  | 0, i => leaf i
  | l + 1, i => join (dense leaf l (2 * i)) (dense leaf l (2 * i + 1))

-- The node of each level when all leaves are alike.
def uniform (d : F) : Nat → F
  | 0 => d
  | l + 1 => join (uniform d l) (uniform d l)

-- A node from one child at an index and the other child.
def parent (index : Nat) (current sibling : F) : F :=
  if index &&& 1 = 0 then join current sibling else join sibling current

theorem dense_const (d : F) (l i : Nat) : dense join (fun _ => d) l i = uniform join d l := by
  induction l generalizing i with
  | zero => rfl
  | succ l ih => rw [dense, uniform, ih, ih]

private theorem xor_one_of_even {i : Nat} (h : i % 2 = 0) : i ^^^ 1 = i + 1 := by
  have hdiv : (i ^^^ 1) / 2 = i / 2 ^^^ 0 := Nat.xor_div_two
  have hmod : (i ^^^ 1) % 2 = (i + 1) % 2 := Nat.xor_mod_two_eq
  rw [Nat.xor_zero] at hdiv
  omega

private theorem xor_one_of_odd {i : Nat} (h : i % 2 = 1) : i ^^^ 1 = i - 1 := by
  have hdiv : (i ^^^ 1) / 2 = i / 2 ^^^ 0 := Nat.xor_div_two
  have hmod : (i ^^^ 1) % 2 = (i + 1) % 2 := Nat.xor_mod_two_eq
  rw [Nat.xor_zero] at hdiv
  omega

-- Either child determines the parent together with the other child.
theorem dense_parent (leaf : Nat → F) (l i : Nat) :
    dense join leaf (l + 1) (i >>> 1) =
      parent join i (dense join leaf l i) (dense join leaf l (i ^^^ 1)) := by
  rw [dense, parent, Nat.and_one_is_mod, Nat.shiftRight_one]
  by_cases h : i % 2 = 0
  · rw [if_pos h, xor_one_of_even h, show 2 * (i / 2) = i by omega]
  · rw [if_neg h, xor_one_of_odd (by omega), show 2 * (i / 2) + 1 = i by omega,
      show 2 * (i / 2) = i - 1 by omega]

-- A leaf reaches one node of each level.
theorem dense_update_ne (leaf : Nat → F) (k : Nat) (v : F) {l i : Nat} (h : i ≠ k >>> l) :
    dense join (Function.update leaf k v) l i = dense join leaf l i := by
  induction l generalizing i with
  | zero => exact Function.update_of_ne h v leaf
  | succ l ih =>
    rw [Nat.shiftRight_succ] at h
    rw [dense, dense, ih (by omega), ih (by omega)]

-- The nodes beside the path of a leaf lead from the leaf to the top.
theorem foldl_siblings (leaf : Nat → F) (k n : Nat) :
    ((List.range n).map fun l => dense join leaf l ((k >>> l) ^^^ 1)).zipIdx.foldl
      (fun current (sibling, level) =>
        if k &&& (1 <<< level) = 0 then join current sibling else join sibling current)
      (leaf k) = dense join leaf n (k >>> n) := by
  induction n with
  | zero => rfl
  | succ n ih =>
    have hbit : k &&& (1 <<< n) = 0 ↔ (k >>> n) &&& 1 = 0 := by
      have htest := Nat.toNat_testBit k n
      have hpos := Nat.two_pow_pos n
      rw [Nat.one_shiftLeft, Nat.and_two_pow, Nat.and_one_is_mod, Nat.shiftRight_eq_div_pow,
        ← htest, Nat.mul_eq_zero]
      omega
    rw [List.range_succ, List.map_append, List.zipIdx_append, List.foldl_append, ih]
    simp only [List.map_cons, List.map_nil, List.length_map, List.length_range, Nat.zero_add,
      List.zipIdx_singleton, List.foldl_cons, List.foldl_nil]
    rw [Nat.shiftRight_succ, ← Nat.shiftRight_one, dense_parent, parent]
    by_cases h : k &&& (1 <<< n) = 0
    · rw [if_pos h, if_pos (hbit.mp h)]
    · rw [if_neg h, if_neg (fun hc => h (hbit.mpr hc))]

-- Two paths are siblings at one level, that of the highest bit in which they differ.
theorem sibling_iff {i j : Nat} (h : i ≠ j) (l : Nat) :
    (i >>> l) ^^^ 1 = j >>> l ↔ l = Nat.log2 (i ^^^ j) := by
  have hne : i ^^^ j ≠ 0 := fun hzero => h (Nat.xor_eq_zero_iff.mp hzero)
  have hxor : (i >>> l) ^^^ 1 = j >>> l ↔ (i ^^^ j) >>> l = 1 := by
    rw [Nat.shiftRight_xor_distrib]
    constructor
    · intro heq
      rw [← heq, ← Nat.xor_assoc, Nat.xor_self, Nat.zero_xor]
    · intro heq
      rw [← heq, ← Nat.xor_assoc, Nat.xor_self, Nat.zero_xor]
  rw [hxor, eq_comm (a := l), Nat.log2_eq_iff hne, Nat.shiftRight_eq_div_pow, Nat.pow_succ]
  have hpos := Nat.two_pow_pos l
  rw [Nat.div_eq_iff hpos]
  omega

theorem xor_one_ne (i : Nat) : i ^^^ 1 ≠ i := by
  intro h
  have hmod : (i ^^^ 1) % 2 = (i + 1) % 2 := Nat.xor_mod_two_eq
  omega

-- A leaf that changes reaches one of the nodes beside the path of another leaf.
theorem sibling_update (leaf : Nat → F) {i j : Nat} (h : i ≠ j) (v : F) (l : Nat) :
    dense join (Function.update leaf j v) l ((i >>> l) ^^^ 1) =
      if l = Nat.log2 (i ^^^ j) then dense join (Function.update leaf j v) l (j >>> l)
      else dense join leaf l ((i >>> l) ^^^ 1) := by
  by_cases hl : l = Nat.log2 (i ^^^ j)
  · rw [if_pos hl, (sibling_iff h l).mpr hl]
  · rw [if_neg hl, dense_update_ne]
    exact fun hc => hl ((sibling_iff h l).mp hc)

-- The nodes beside the path of a leaf do not depend on it.
theorem own_siblings_update (leaf : Nat → F) (k : Nat) (v : F) (l : Nat) :
    dense join (Function.update leaf k v) l ((k >>> l) ^^^ 1) =
      dense join leaf l ((k >>> l) ^^^ 1) :=
  dense_update_ne join leaf k v (xor_one_ne _)

-- The nodes of a tree that differ from the tree of default leaves.
abbrev Store (F : Type*) := Table (Prod.fst : (Nat ×ₗ Nat) × F → Nat ×ₗ Nat)

variable (fallback : Nat → F)

def node (s : Store F) (level index : Nat) : F :=
  ((s.get (toLex (level, index))).map Prod.snd).getD (fallback level)

variable [DecidableEq F]

def setNode (s : Store F) (level index : Nat) (value : F) : Store F :=
  if value = fallback level then s.erase (toLex (level, index))
  else s.put (toLex (level, index), value)

-- Recomputes the nodes above a node, one for each level that remains.
def climb : Nat → Nat → Nat → F → Store F → Store F
  | 0, _, _, _, s => s
  | n + 1, level, index, current, s =>
    let sibling := node fallback s level (index ^^^ 1)
    let above := parent join index current sibling
    climb n (level + 1) (index >>> 1) above (setNode fallback s (level + 1) (index >>> 1) above)

def update (depth : Nat) (s : Store F) (index : Nat) (leaf : F) : Store F :=
  climb join fallback depth 0 index leaf (setNode fallback s 0 index leaf)

-- The store holds just the nodes, up to a depth, that are not the default of their level.
def Holds (depth : Nat) (s : Store F) (val : Nat → Nat → F) : Prop :=
  ∀ level index, s.get (toLex (level, index)) =
    if level ≤ depth ∧ val level index ≠ fallback level
    then some (toLex (level, index), val level index) else none

variable {join fallback} {depth : Nat} {s t : Store F} {val val' : Nat → Nat → F}

theorem Holds.congr (h : Holds fallback depth s val)
    (heq : ∀ level ≤ depth, ∀ index, val level index = val' level index) :
    Holds fallback depth s val' := by
  intro level index
  rw [h level index]
  by_cases hl : level ≤ depth
  · rw [heq level hl index]
  · rw [if_neg (fun hc => hl hc.1), if_neg (fun hc => hl hc.1)]

theorem Holds.node_eq (h : Holds fallback depth s val) {level : Nat} (hl : level ≤ depth)
    (index : Nat) : node fallback s level index = val level index := by
  rw [node, h level index]
  by_cases hv : val level index = fallback level
  · rw [if_neg (fun hc => hc.2 hv), hv]
    rfl
  · rw [if_pos ⟨hl, hv⟩]
    rfl

-- What a tree holds determines the store.
theorem Holds.unique (hs : Holds fallback depth s val) (ht : Holds fallback depth t val) :
    s = t := by
  apply Table.ext_get
  intro k
  exact (hs k.1 k.2).trans (ht k.1 k.2).symm

theorem Holds.ne_fallback (h : Holds fallback depth s val) {row : (Nat ×ₗ Nat) × F}
    (hrow : row ∈ s.rows) : row.2 ≠ fallback row.1.1 := by
  have hget : s.get (toLex (row.1.1, row.1.2)) = some row := Table.get_of_mem hrow
  rw [h row.1.1 row.1.2] at hget
  by_cases hc : row.1.1 ≤ depth ∧ val row.1.1 row.1.2 ≠ fallback row.1.1
  · rw [if_pos hc] at hget
    rw [← congrArg Prod.snd (Option.some.inj hget)]
    exact hc.2
  · rw [if_neg hc] at hget
    cases hget

theorem Holds.empty (h : ∀ level index, val level index = fallback level) :
    Holds fallback depth ∅ val := by
  intro level index
  rw [Table.get_empty, if_neg (fun hc => hc.2 (h level index))]

theorem Holds.setNode (h : Holds fallback depth s val) {level : Nat} (hl : level ≤ depth)
    (index : Nat) (v : F) :
    Holds fallback depth (setNode fallback s level index v)
      (fun l i => if l = level ∧ i = index then v else val l i) := by
  intro l i
  have hkey : toLex (level, index) = toLex (l, i) ↔ l = level ∧ i = index := by
    rw [toLex_inj, Prod.mk.injEq, eq_comm, eq_comm (a := index)]
  rw [SparseTree.setNode]
  by_cases hat : l = level ∧ i = index
  · obtain ⟨rfl, rfl⟩ := hat
    by_cases hv : v = fallback l
    · rw [if_pos hv, Table.get_erase, if_pos rfl, if_neg]
      simp [hv]
    · rw [if_neg hv, Table.get_put, if_pos rfl, if_pos]
      · simp
      · simpa [hl] using hv
  · simp only [if_neg hat]
    by_cases hv : v = fallback level
    · rw [if_pos hv, Table.get_erase, if_neg (fun hk => hat (hkey.mp hk.symm)), h l i]
    · rw [if_neg hv]
      have hput : (Table.put s (toLex (level, index), v)).get (toLex (l, i)) =
          s.get (toLex (l, i)) := Table.get_put_ne fun hk => hat (hkey.mp hk)
      rw [hput, h l i]

-- While the path of a changed leaf is climbed, the levels below are those of the new tree.
theorem Holds.climb {leaf : Nat → F} {k : Nat} {v : F} (n : Nat) {l : Nat}
    (hn : l + n = depth)
    (h : Holds fallback depth s fun level index =>
      if level ≤ l then dense join (Function.update leaf k v) level index
      else dense join leaf level index) :
    Holds fallback depth
      (climb join fallback n l (k >>> l)
        (dense join (Function.update leaf k v) l (k >>> l)) s)
      (dense join (Function.update leaf k v)) := by
  induction n generalizing l s with
  | zero =>
    refine h.congr ?_
    intro level hlevel index
    rw [if_pos (by omega)]
  | succ n ih =>
    have hsibling : node fallback s l ((k >>> l) ^^^ 1) =
        dense join (Function.update leaf k v) l ((k >>> l) ^^^ 1) := by
      rw [h.node_eq (by omega), if_pos (Nat.le_refl l)]
    have habove : parent join (k >>> l) (dense join (Function.update leaf k v) l (k >>> l))
        (node fallback s l ((k >>> l) ^^^ 1)) =
        dense join (Function.update leaf k v) (l + 1) (k >>> (l + 1)) := by
      rw [hsibling, ← dense_parent, ← Nat.shiftRight_add]
    rw [SparseTree.climb]
    simp only [habove, ← Nat.shiftRight_add]
    apply ih (by omega)
    have hl : l + 1 ≤ depth := by omega
    refine (h.setNode hl _ _).congr ?_
    intro level hlevel index
    by_cases hat : level = l + 1 ∧ index = k >>> (l + 1)
    · rw [if_pos hat, if_pos (by omega), hat.1, hat.2]
    · rw [if_neg hat]
      by_cases hle : level ≤ l
      · rw [if_pos hle, if_pos (by omega)]
      · rw [if_neg hle]
        by_cases heq : level = l + 1
        · rw [if_pos (by omega), dense_update_ne]
          exact fun hi => hat ⟨heq, heq ▸ hi⟩
        · rw [if_neg (by omega)]

theorem Holds.update {leaf : Nat → F} (h : Holds fallback depth s (dense join leaf))
    (k : Nat) (v : F) :
    Holds fallback depth (update join fallback depth s k v)
      (dense join (Function.update leaf k v)) := by
  have hleaf : dense join (Function.update leaf k v) 0 (k >>> 0) = v := by
    rw [dense, Nat.shiftRight_zero, Function.update_self]
  have hstart : Holds fallback depth (SparseTree.setNode fallback s 0 k v) fun level index =>
      if level ≤ 0 then dense join (Function.update leaf k v) level index
      else dense join leaf level index := by
    refine (h.setNode (Nat.zero_le depth) k v).congr ?_
    intro level _ index
    by_cases hat : level = 0 ∧ index = k
    · obtain ⟨rfl, rfl⟩ := hat
      rw [if_pos ⟨rfl, rfl⟩, if_pos (Nat.le_refl 0), dense, Function.update_self]
    · rw [if_neg hat]
      by_cases hlevel : level = 0
      · rw [if_pos (by omega), dense_update_ne]
        rw [hlevel]
        exact fun hi => hat ⟨hlevel, hi⟩
      · rw [if_neg (by omega)]
  have hclimb := hstart.climb depth (Nat.zero_add depth)
  rwa [hleaf] at hclimb

end Ubi2.Lib.SparseTree
