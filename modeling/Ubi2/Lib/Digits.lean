import Mathlib.Data.List.Basic
import Mathlib.Data.List.Induction
import Mathlib.Tactic.Common
import Mathlib.Tactic.IntervalCases

namespace Ubi2.Lib.Hex

-- The digits to base 16, the capital ones last.
def lowerDigits : List Char :=
  ['0', '1', '2', '3', '4', '5', '6', '7', '8', '9', 'a', 'b', 'c', 'd', 'e', 'f']

def allDigits : List Char := lowerDigits ++ ['A', 'B', 'C', 'D', 'E', 'F']

def digitValue (c : Char) : Nat := lowerDigits.idxOf c.toLower

-- The number whose digits these are, the most significant first.
def value (ds : List Char) : Nat := ds.foldl (fun acc c => acc * 16 + digitValue c) 0

-- The last `n` digits of a number.
def fixed : Nat → Nat → List Char
  | 0, _ => []
  | n + 1, v => fixed n (v / 16) ++ [Nat.digitChar (v % 16)]

theorem lower_of_all : ∀ c ∈ allDigits, c.toLower ∈ lowerDigits ∧
    digitValue c.toLower = digitValue c :=
  List.forall_iff_forall_mem.mp (by decide)

theorem toLower_of_lower : ∀ c ∈ lowerDigits, c.toLower = c :=
  List.forall_iff_forall_mem.mp (by decide)

theorem digitChar_digitValue : ∀ c ∈ lowerDigits,
    Nat.digitChar (digitValue c) = c ∧ digitValue c < 16 :=
  List.forall_iff_forall_mem.mp (by decide)

theorem digitValue_digitChar : ∀ n < 16,
    digitValue (Nat.digitChar n) = n ∧ Nat.digitChar n ∈ lowerDigits := by
  decide

theorem all_of_lower {c : Char} (h : c ∈ lowerDigits) : c ∈ allDigits :=
  List.mem_append_left _ h

theorem value_concat (ds : List Char) (c : Char) :
    value (ds ++ [c]) = value ds * 16 + digitValue c := by
  simp [value, List.foldl_append]

theorem value_map_toLower {ds : List Char} (h : ∀ c ∈ ds, c ∈ allDigits) :
    value (ds.map Char.toLower) = value ds := by
  induction ds using List.reverseRecOn with
  | nil => rfl
  | append_singleton ds c ih =>
    rw [List.map_append, List.map_singleton, value_concat, value_concat,
      ih fun d hd => h d (List.mem_append_left _ hd),
      (lower_of_all c (h c (by simp))).2]

theorem length_fixed (n v : Nat) : (fixed n v).length = n := by
  induction n generalizing v with
  | zero => rfl
  | succ n ih => rw [fixed, List.length_append, ih, List.length_singleton]

theorem mem_fixed {n v : Nat} {c : Char} (h : c ∈ fixed n v) : c ∈ lowerDigits := by
  induction n generalizing v with
  | zero => cases h
  | succ n ih =>
    rcases List.mem_append.mp h with h | h
    · exact ih h
    · rw [List.mem_singleton.mp h]
      exact (digitValue_digitChar _ (Nat.mod_lt _ (by decide))).2

-- A text of small digits is told by its length and its value.
theorem fixed_value {ds : List Char} (h : ∀ c ∈ ds, c ∈ lowerDigits) :
    fixed ds.length (value ds) = ds := by
  induction ds using List.reverseRecOn with
  | nil => rfl
  | append_singleton ds c ih =>
    obtain ⟨hchar, hlt⟩ := digitChar_digitValue c (h c (by simp))
    have hdiv : (value ds * 16 + digitValue c) / 16 = value ds := by omega
    have hmod : (value ds * 16 + digitValue c) % 16 = digitValue c := by omega
    rw [value_concat, List.length_append, List.length_singleton, fixed, hdiv, hmod, hchar,
      ih fun d hd => h d (List.mem_append_left _ hd)]

theorem value_lt {ds : List Char} (h : ∀ c ∈ ds, c ∈ lowerDigits) : value ds < 16 ^ ds.length := by
  induction ds using List.reverseRecOn with
  | nil => decide
  | append_singleton ds c ih =>
    have hlt := (digitChar_digitValue c (h c (by simp))).2
    have hds := ih fun d hd => h d (List.mem_append_left _ hd)
    rw [value_concat, List.length_append, List.length_singleton, Nat.pow_succ]
    omega

theorem value_fixed {n v : Nat} (h : v < 16 ^ n) : value (fixed n v) = v := by
  induction n generalizing v with
  | zero =>
    rw [Nat.pow_zero] at h
    obtain rfl : v = 0 := by omega
    rfl
  | succ n ih =>
    rw [Nat.pow_succ] at h
    rw [fixed, value_concat, ih (by omega),
      (digitValue_digitChar _ (Nat.mod_lt _ (by decide))).1]
    omega

theorem eq_of_value {ds ds' : List Char} (h : ∀ c ∈ ds, c ∈ lowerDigits)
    (h' : ∀ c ∈ ds', c ∈ lowerDigits) (hlength : ds.length = ds'.length)
    (hvalue : value ds = value ds') : ds = ds' := by
  rw [← fixed_value h, ← fixed_value h', hlength, hvalue]

end Ubi2.Lib.Hex

namespace Ubi2.Lib.Decimal

-- A decimal text without leading zeros is the one its number is written as.
theorem toDigits_ofDigitChars {digits : List Char} (hdigit : ∀ c ∈ digits, c.isDigit = true)
    (hne : digits ≠ []) (hhead : digits.head? ≠ some '0') :
    Nat.toDigits 10 (Nat.ofDigitChars 10 digits 0) = digits ∧ 0 < Nat.ofDigitChars 10 digits 0 := by
  have hone : ∀ c : Char, c.isDigit = true →
      c.toNat - '0'.toNat < 10 ∧ Nat.digitChar (c.toNat - '0'.toNat) = c := by
    intro c hc
    have hrange : 48 ≤ c.toNat ∧ c.toNat ≤ 57 := by
      exact Char.isDigit_iff_toNat.mp hc
    have hback : c = Char.ofNat c.toNat := (Char.ofNat_toNat c).symm
    obtain ⟨hlow, hhigh⟩ := hrange
    generalize c.toNat = n at hlow hhigh hback
    subst hback
    interval_cases n <;> decide
  induction digits using List.reverseRecOn with
  | nil => exact absurd rfl hne
  | append_singleton digits c ih =>
    obtain ⟨hlt, hchar⟩ := hone c (hdigit c (by simp))
    rw [Nat.ofDigitChars_append, Nat.ofDigitChars_cons, Nat.ofDigitChars_nil]
    by_cases hnil : digits = []
    · subst hnil
      rw [Nat.ofDigitChars_nil, Nat.mul_zero, Nat.zero_add, Nat.toDigits_of_lt_base hlt, hchar]
      refine ⟨rfl, Nat.pos_of_ne_zero ?_⟩
      intro hzero
      rw [hzero] at hchar
      exact hhead (congrArg some hchar.symm)
    · have hfirst : digits.head? ≠ some '0' := by
        rwa [List.head?_append_of_ne_nil _ hnil] at hhead
      obtain ⟨hdigits, hpos⟩ := ih (fun d hd => hdigit d (List.mem_append_left _ hd)) hnil hfirst
      refine ⟨?_, by omega⟩
      rw [← Nat.toDigits_append_toDigits (by decide) hpos hlt, hdigits, Nat.toDigits_of_lt_base hlt,
        hchar]

theorem head_toDigits {n : Nat} (hn : 0 < n) : (Nat.toDigits 10 n).head? ≠ some '0' := by
  induction n using Nat.strongRecOn with
  | ind n ih =>
    rw [Nat.toDigits_eq_if (by decide)]
    split
    · rename_i hlt
      interval_cases n <;> decide
    · rw [List.head?_append_of_ne_nil _ Nat.toDigits_ne_nil]
      exact ih _ (by omega) (by omega)

end Ubi2.Lib.Decimal
