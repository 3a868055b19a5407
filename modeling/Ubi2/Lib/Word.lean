import Mathlib.Data.BitVec
import Mathlib.Order.Basic
import Mathlib.Tactic.Common

namespace Ubi2.Lib

variable {w : Nat}

-- Machine words are ordered by their value, so a byte string held big-endian in a
-- word is ordered lexicographically.
instance instLinearOrderWord : LinearOrder (BitVec w) where
  le_refl := BitVec.le_refl
  le_trans _ _ _ := BitVec.le_trans
  le_antisymm _ _ := BitVec.le_antisymm
  le_total _ _ := BitVec.le_total _ _
  lt_iff_le_not_ge x y := by
    simp only [BitVec.lt_def, BitVec.le_def]
    omega
  toDecidableLE := inferInstance
  toDecidableEq := inferInstance
  toDecidableLT := inferInstance

namespace Word

-- The largest word.
def max : BitVec w := BitVec.allOnes w

-- Addition, subtraction and multiplication that stop at the ends of the range.
def satAdd (x y : BitVec w) : BitVec w :=
  BitVec.ofNat w (min (x.toNat + y.toNat) (2 ^ w - 1))

def satSub (x y : BitVec w) : BitVec w :=
  BitVec.ofNat w (x.toNat - y.toNat)

def satMul (x y : BitVec w) : BitVec w :=
  BitVec.ofNat w (min (x.toNat * y.toNat) (2 ^ w - 1))

-- A number into a word, stopping at the largest word.
def satOfNat (w n : Nat) : BitVec w :=
  BitVec.ofNat w (min n (2 ^ w - 1))

theorem toNat_max : (max : BitVec w).toNat = 2 ^ w - 1 := by
  simp [max]

theorem toNat_satOfNat (n : Nat) : (satOfNat w n).toNat = min n (2 ^ w - 1) := by
  have hpos : 0 < 2 ^ w := Nat.two_pow_pos w
  rw [satOfNat, BitVec.toNat_ofNat]
  exact Nat.mod_eq_of_lt (by omega)

@[simp] theorem toNat_satAdd (x y : BitVec w) :
    (satAdd x y).toNat = min (x.toNat + y.toNat) (2 ^ w - 1) :=
  toNat_satOfNat _

@[simp] theorem toNat_satMul (x y : BitVec w) :
    (satMul x y).toNat = min (x.toNat * y.toNat) (2 ^ w - 1) :=
  toNat_satOfNat _

@[simp] theorem toNat_satSub (x y : BitVec w) :
    (satSub x y).toNat = x.toNat - y.toNat := by
  have hx := x.isLt
  rw [satSub, BitVec.toNat_ofNat]
  exact Nat.mod_eq_of_lt (by omega)

@[simp] theorem satAdd_zero (x : BitVec w) : satAdd x 0#w = x := by
  apply BitVec.eq_of_toNat_eq
  have hx := x.isLt
  rw [toNat_satAdd]
  simp only [BitVec.toNat_ofNat, Nat.zero_mod, Nat.add_zero]
  omega

@[simp] theorem satSub_self (x : BitVec w) : satSub x x = 0#w := by
  apply BitVec.eq_of_toNat_eq
  simp

theorem satSub_eq_zero_iff (x y : BitVec w) : satSub x y = 0#w ↔ x ≤ y := by
  rw [BitVec.toNat_eq, toNat_satSub, BitVec.le_def]
  simp only [BitVec.toNat_ofNat, Nat.zero_mod]
  omega

-- The order of words is that of their values.
theorem toNat_sup (x y : BitVec w) : (Max.max x y).toNat = Max.max x.toNat y.toNat := by
  have hmono : Monotone (BitVec.toNat : BitVec w → Nat) := fun _ _ h => BitVec.le_def.mp h
  exact hmono.map_max

-- A plain subtraction that a guard keeps from wrapping.
theorem toNat_sub_of_le {x y : BitVec w} (h : y ≤ x) :
    (x - y).toNat = x.toNat - y.toNat :=
  BitVec.toNat_sub_of_le h

-- The counter step `x + 1`, which wraps at the largest word only.
theorem toNat_succ_of_ne_max {x : BitVec w} (h : x.toNat + 1 < 2 ^ w) :
    (x + 1#w).toNat = x.toNat + 1 := by
  have h1 : (1#w).toNat = 1 := by
    rw [BitVec.toNat_ofNat]
    exact Nat.mod_eq_of_lt (by omega)
  rw [BitVec.toNat_add, h1]
  exact Nat.mod_eq_of_lt h

end Word

end Ubi2.Lib
