import Ubi2.StatusDelta.Registry

namespace Ubi2.StatusDelta

open Ubi2.Lib Ubi2.StatusSnapshot

variable {poseidon : Poseidon} {leaf : Nat → StatusField}

-- The tree of all leaves, level by level.
abbrev tree (poseidon : Poseidon) (leaf : Nat → StatusField) : Nat → Nat → StatusField :=
  SparseTree.dense (registryNode poseidon) leaf

def siblingsOf (poseidon : Poseidon) (leaf : Nat → StatusField) (index : BitVec 32) :
    Vector StatusField REGISTRY_DEPTH :=
  Vector.ofFn fun level => tree poseidon leaf level ((index.toNat >>> level.val) ^^^ 1)

-- The delta of a change of one leaf, and the witness of one, as the whole tree gives them.
def deltaOf (poseidon : Poseidon) (epoch : Nat) (leaf : Nat → StatusField) (index : BitVec 32)
    (value : StatusField) : StatusRegistryDelta where
  schema := STATUS_REGISTRY_DELTA_SCHEMA
  fromCheckpoint := ⟨epoch, tree poseidon leaf REGISTRY_DEPTH 0⟩
  toCheckpoint :=
    ⟨epoch + 1, tree poseidon (Function.update leaf index.toNat value) REGISTRY_DEPTH 0⟩
  changedIndex := index
  oldLeaf := leaf index.toNat
  newLeaf := value
  siblings := siblingsOf poseidon leaf index

def witnessOf (poseidon : Poseidon) (epoch : Nat) (leaf : Nat → StatusField)
    (index : BitVec 32) : StatusWitness where
  epoch := epoch
  root := tree poseidon leaf REGISTRY_DEPTH 0
  leafIndex := index
  activeLeaf := leaf index.toNat
  siblings := siblingsOf poseidon leaf index

-- A run of leaf changes, with the leaves that it ends in and the deltas that it emits.
abbrev Change := BitVec 32 × StatusField

def leavesAfter (leaf : Nat → StatusField) (changes : List Change) : Nat → StatusField :=
  changes.foldl (fun leaf c => Function.update leaf c.1.toNat c.2) leaf

def deltasOf (poseidon : Poseidon) : Nat → (Nat → StatusField) → List Change →
    List StatusRegistryDelta
  | _, _, [] => []
  | epoch, leaf, c :: changes =>
    deltaOf poseidon epoch leaf c.1 c.2 ::
      deltasOf poseidon (epoch + 1) (Function.update leaf c.1.toNat c.2) changes

theorem index_lt (index : BitVec 32) : index.toNat < 2 ^ REGISTRY_DEPTH := index.isLt

theorem top_index (index : BitVec 32) : index.toNat >>> REGISTRY_DEPTH = 0 := by
  rw [Nat.shiftRight_eq_div_pow]
  exact Nat.div_eq_of_lt (index_lt index)

theorem toList_siblingsOf (index : BitVec 32) :
    (siblingsOf poseidon leaf index).toList = (List.range REGISTRY_DEPTH).map fun level =>
      tree poseidon leaf level ((index.toNat >>> level) ^^^ 1) := by
  apply List.ext_getElem
  · simp
  · intro k hk _
    simp [siblingsOf]

-- The lowest siblings of a path lead to the node of their level.
theorem subtreeFromPath_siblingsOf (index : BitVec 32) (value : StatusField) {levels : Nat}
    (h : levels ≤ REGISTRY_DEPTH) :
    subtreeFromPath poseidon value index (siblingsOf poseidon leaf index) levels =
      tree poseidon (Function.update leaf index.toNat value) levels
        (index.toNat >>> levels) := by
  rw [subtreeFromPath, toList_siblingsOf, ← List.map_take, List.take_range, Nat.min_eq_left h]
  have hsame : (List.range levels).map (fun level =>
      tree poseidon leaf level ((index.toNat >>> level) ^^^ 1)) =
      (List.range levels).map fun level =>
        tree poseidon (Function.update leaf index.toNat value) level
          ((index.toNat >>> level) ^^^ 1) := by
    refine List.map_congr_left fun level _ => ?_
    exact (SparseTree.own_siblings_update _ leaf index.toNat value level).symm
  have hfold := SparseTree.foldl_siblings (registryNode poseidon)
    (Function.update leaf index.toNat value) index.toNat levels
  rw [Function.update_self] at hfold
  rw [hsame]
  exact hfold

theorem rootFromPath_siblingsOf (index : BitVec 32) (value : StatusField) :
    rootFromPath poseidon value index (siblingsOf poseidon leaf index) =
      tree poseidon (Function.update leaf index.toNat value) REGISTRY_DEPTH 0 := by
  rw [rootFromPath, subtreeFromPath_siblingsOf _ _ le_rfl, top_index]

theorem rootFromPath_own (index : BitVec 32) :
    rootFromPath poseidon (leaf index.toNat) index (siblingsOf poseidon leaf index) =
      tree poseidon leaf REGISTRY_DEPTH 0 := by
  rw [rootFromPath_siblingsOf, Function.update_eq_self]

theorem rootFromWitness_eq (w : StatusWitness) :
    rootFromWitness poseidon w =
      rootFromPath poseidon w.activeLeaf w.leafIndex w.siblings := by
  rw [rootFromWitness, rootFromPath, subtreeFromPath, List.take_of_length_le]
  simp

-- The highest bit in which two indices differ.
theorem divergence_eq {i j : BitVec 32} (h : i ≠ j) :
    checkedSub 31 (leadingZeros (i ^^^ j)) = some (Nat.log2 (i.toNat ^^^ j.toNat)) ∧
      Nat.log2 (i.toNat ^^^ j.toNat) < REGISTRY_DEPTH := by
  have hne : i ^^^ j ≠ 0 := fun hzero => h (BitVec.xor_eq_zero_iff.mp hzero)
  have hvalue : (i ^^^ j).toNat = i.toNat ^^^ j.toNat := BitVec.toNat_xor i j
  have hpos : i.toNat ^^^ j.toNat ≠ 0 := by
    intro hzero
    exact hne (BitVec.eq_of_toNat_eq (hvalue.trans hzero))
  have hlt : Nat.log2 (i.toNat ^^^ j.toNat) < 32 := by
    rw [Nat.log2_lt hpos, ← hvalue]
    exact (i ^^^ j).isLt
  refine ⟨?_, hlt⟩
  rw [leadingZeros, if_neg hne, hvalue, checkedSub, if_pos (by omega)]
  congr 1
  omega

-- One node beside a path changes with another leaf.
theorem siblingsOf_update {i j : BitVec 32} (h : i ≠ j) (value : StatusField)
    (hlt : Nat.log2 (j.toNat ^^^ i.toNat) < REGISTRY_DEPTH) :
    (siblingsOf poseidon leaf i).set (Nat.log2 (j.toNat ^^^ i.toNat))
        (tree poseidon (Function.update leaf j.toNat value) (Nat.log2 (j.toNat ^^^ i.toNat))
          (j.toNat >>> Nat.log2 (j.toNat ^^^ i.toNat))) hlt =
      siblingsOf poseidon (Function.update leaf j.toNat value) i := by
  have hne : i.toNat ≠ j.toNat := fun heq => h (BitVec.eq_of_toNat_eq heq)
  apply Vector.ext
  intro level hlevel
  have hsibling := SparseTree.sibling_update (registryNode poseidon) leaf hne value level
  rw [Vector.getElem_set]
  simp only [siblingsOf, Vector.getElem_ofFn]
  refine Eq.trans ?_ hsibling.symm
  rw [Nat.xor_comm i.toNat j.toNat]
  by_cases heq : Nat.log2 (j.toNat ^^^ i.toNat) = level
  · rw [if_pos heq, if_pos heq.symm, heq]
  · rw [if_neg heq, if_neg fun hc => heq hc.symm]

-- A delta of another leaf carries the witness over to the changed tree.
theorem applyDelta_other {epoch : Nat} {i j : BitVec 32} {value : StatusField} (h : i ≠ j)
    (hepoch : epoch + 1 ≤ U32_MAX) :
    applyDelta poseidon (witnessOf poseidon epoch leaf i) (deltaOf poseidon epoch leaf j value) =
      some (.ok (witnessOf poseidon (epoch + 1) (Function.update leaf j.toNat value) i)) := by
  obtain ⟨hdivergence, hlt⟩ := divergence_eq h.symm
  have hne : i.toNat ≠ j.toNat := fun heq => h (BitVec.eq_of_toNat_eq heq)
  have hsiblings : (siblingsOf poseidon leaf i).set _ _ hlt = _ := siblingsOf_update h value hlt
  have hown : Function.update leaf j.toNat value i.toNat = leaf i.toNat :=
    Function.update_of_ne hne value leaf
  have hnext : ¬U32_MAX < epoch + 1 := by omega
  simp only [applyDelta, deltaOf, witnessOf, rootFromPath_own, rootFromPath_siblingsOf,
    if_neg hnext, ne_eq, not_true_eq_false, or_self, if_false, if_neg h.symm, hdivergence]
  simp only [Option.bind_eq_bind, Option.bind_some, writeAt, dif_pos hlt,
    subtreeFromPath_siblingsOf j value (Nat.le_of_lt hlt), hsiblings, rootFromWitness_eq]
  rw [← hown, rootFromPath_own, if_neg (by simp)]

-- A delta of the own leaf stops the batch.
theorem applyDelta_own {epoch : Nat} {i : BitVec 32} {value : StatusField}
    (hepoch : epoch + 1 ≤ U32_MAX) :
    applyDelta poseidon (witnessOf poseidon epoch leaf i) (deltaOf poseidon epoch leaf i value) =
      some (.error (if value = 0 then .CredentialRevoked else .CredentialStatusChanged)) := by
  have hnext : ¬U32_MAX < epoch + 1 := by omega
  simp only [applyDelta, deltaOf, witnessOf, rootFromPath_own, rootFromPath_siblingsOf,
    if_neg hnext, ne_eq, not_true_eq_false, or_self, if_false, if_true]
  congr

theorem length_deltasOf (epoch : Nat) (changes : List Change) :
    (deltasOf poseidon epoch leaf changes).length = changes.length := by
  induction changes generalizing epoch leaf with
  | nil => rfl
  | cons c changes ih => rw [deltasOf, List.length_cons, ih, List.length_cons]

theorem deltasOf_append (epoch : Nat) (changes more : List Change) :
    deltasOf poseidon epoch leaf (changes ++ more) =
      deltasOf poseidon epoch leaf changes ++
        deltasOf poseidon (epoch + changes.length) (leavesAfter leaf changes) more := by
  induction changes generalizing epoch leaf with
  | nil => rfl
  | cons c changes ih =>
    rw [List.cons_append, deltasOf, deltasOf, ih, List.cons_append, List.length_cons,
      Nat.add_right_comm, ← Nat.add_assoc]
    rfl

-- A batch carries a witness through all changes of other leaves.
theorem applyDeltas_other {epoch : Nat} {i : BitVec 32} {changes : List Change}
    (hepoch : epoch + changes.length ≤ U32_MAX) (hother : ∀ c ∈ changes, c.1 ≠ i) :
    applyDeltas poseidon (witnessOf poseidon epoch leaf i)
        (deltasOf poseidon epoch leaf changes) =
      some (.ok (witnessOf poseidon (epoch + changes.length) (leavesAfter leaf changes) i)) := by
  induction changes generalizing epoch leaf with
  | nil => rfl
  | cons c changes ih =>
    rw [List.length_cons] at hepoch
    have hc : i ≠ c.1 := (hother c List.mem_cons_self).symm
    rw [deltasOf, applyDeltas, applyDelta_other hc (by omega)]
    simp only
    rw [ih (by omega) fun d hd => hother d (List.mem_cons_of_mem _ hd), List.length_cons,
      Nat.add_right_comm, ← Nat.add_assoc]
    rfl

-- The first change of the own leaf decides when it clears the leaf.
theorem applyDeltas_own {epoch : Nat} {i : BitVec 32} {changes : List Change}
    (hepoch : epoch + changes.length ≤ U32_MAX) (hown : ∃ c ∈ changes, c.1 = i)
    (hzero : ∀ c ∈ changes, c.1 = i → c.2 = 0) :
    applyDeltas poseidon (witnessOf poseidon epoch leaf i)
        (deltasOf poseidon epoch leaf changes) = some (.error .CredentialRevoked) := by
  induction changes generalizing epoch leaf with
  | nil =>
    obtain ⟨c, hc, -⟩ := hown
    cases hc
  | cons c changes ih =>
    rw [List.length_cons] at hepoch
    rw [deltasOf, applyDeltas]
    by_cases hc : c.1 = i
    · rw [hzero c List.mem_cons_self hc, hc, applyDelta_own (by omega), if_pos rfl]
    · rw [applyDelta_other (Ne.symm hc) (by omega)]
      simp only
      refine ih (by omega) ?_ fun d hd => hzero d (List.mem_cons_of_mem _ hd)
      obtain ⟨d, hd, hdi⟩ := hown
      rcases List.mem_cons.mp hd with rfl | hd
      · exact absurd hdi hc
      · exact ⟨d, hd, hdi⟩

end Ubi2.StatusDelta
