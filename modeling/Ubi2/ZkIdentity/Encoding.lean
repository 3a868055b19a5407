import Ubi2.Contracts.ZkIdentityEncoding
import Ubi2.StatusOperator.Artifact

namespace Ubi2.ZkIdentity

open Ubi2.Runtime Ubi2.Lib Ubi2.Lib.Except Ubi2.StatusSnapshot Ubi2.StatusSnapshot.Sdk
open StatusOperator (isHex_of_isAddressText)

-- A number of JavaScript. One that is not whole is only ever refused.
inductive JsNumber where
  | integer (value : Int)
  | fraction
deriving DecidableEq

-- `Number.isSafeInteger`, with the number.
def JsNumber.safeInteger : JsNumber → Option Int
  | .integer n => if -MAX_SAFE_INTEGER ≤ n ∧ n ≤ MAX_SAFE_INTEGER then some n else none
  | .fraction => none

def UINT128_MAX : Nat := 2 ^ 128 - 1
def UINT160_MAX : Nat := 2 ^ 160 - 1

-- The number that passes the check.
def assertInteger (value : JsNumber) (label : String) (minimum maximum : Int) :
    Except String Int :=
  match value.safeInteger with
  | some n =>
    if n < minimum ∨ n > maximum then
      .error s!"{label} must be an integer between {minimum} and {maximum}"
    else .ok n
  | none => .error s!"{label} must be an integer between {minimum} and {maximum}"

def bytes32 (viem : Viem) (value label : String) : Except String String :=
  if ¬ viem.isHex value ∨ viem.size value ≠ 32 then .error s!"{label} must be bytes32"
  else .ok (toLowerCase value)

def nonZeroBytes32 (viem : Viem) (value label : String) : Except String String := do
  let normalized ← bytes32 viem value label
  if bigIntOfHex normalized = 0 then .error s!"{label} must not be zero" else .ok normalized

def fieldElement (value : Int) (label : String) (allowZero : Bool) : Except String Int :=
  if value < 0 ∨ value ≥ BN254_SCALAR_FIELD ∨ (¬ allowZero ∧ value = 0) then
    .error (label ++ " must be " ++ (if allowZero then "a" else "a non-zero") ++
      " canonical BN254 field element")
  else .ok value

def normalizeAddress (viem : Viem) (value label : String) : Except String String :=
  if ¬ viem.isAddress value then .error s!"{label} must be an EVM address"
  else if bigIntOfHex (viem.getAddress value) = 0 then
    .error s!"{label} must not be the zero address"
  else .ok (viem.getAddress value)

-- The limbs of a word, the high one first.
def splitBytes32 (viem : Viem) (value : String) : Except String (Int × Int) := do
  let normalized ← bytes32 viem value "bytes32 value"
  pure ((bigIntOfHex normalized >>> 128 : Nat), (bigIntOfHex normalized &&& UINT128_MAX : Nat))

def joinBytes32 (viem : Viem) (high low : Int) : Except String String :=
  if high < 0 ∨ high > UINT128_MAX ∨ low < 0 ∨ low > UINT128_MAX then
    .error "bytes32 limbs must be unsigned 128-bit integers"
  else viem.toHex (high.toNat <<< 128 ||| low.toNat : Nat) 32

theorem JsNumber.safeInteger_eq_some {value : JsNumber} {n : Int} :
    value.safeInteger = some n ↔
      value = .integer n ∧ -MAX_SAFE_INTEGER ≤ n ∧ n ≤ MAX_SAFE_INTEGER := by
  cases value with
  | fraction => simp [safeInteger]
  | integer m =>
    rw [safeInteger, JsNumber.integer.injEq]
    constructor
    · intro h
      split_ifs at h with hsafe
      cases h
      exact ⟨rfl, hsafe⟩
    · rintro ⟨rfl, hsafe⟩
      rw [if_pos hsafe]

theorem assertInteger_eq_ok {value : JsNumber} {label : String} {minimum maximum n : Int} :
    assertInteger value label minimum maximum = .ok n ↔
      value = .integer n ∧ (-MAX_SAFE_INTEGER ≤ n ∧ n ≤ MAX_SAFE_INTEGER) ∧
        minimum ≤ n ∧ n ≤ maximum := by
  rw [assertInteger]
  cases hsafe : value.safeInteger with
  | none =>
    constructor
    · intro h
      cases h
    · rintro ⟨hvalue, hrange, -⟩
      rw [JsNumber.safeInteger_eq_some.mpr ⟨hvalue, hrange⟩] at hsafe
      cases hsafe
  | some m =>
    obtain ⟨rfl, hrange⟩ := JsNumber.safeInteger_eq_some.mp hsafe
    simp only [check_eq_ok, Except.ok.injEq, JsNumber.integer.injEq]
    constructor
    · rintro ⟨hbounds, rfl⟩
      exact ⟨rfl, hrange, by omega⟩
    · rintro ⟨rfl, -, hlow, hhigh⟩
      exact ⟨by omega, rfl⟩

theorem bytes32_eq_ok {viem : Viem} {s t label : String} :
    bytes32 viem s label = .ok t ↔ (isHexText s = true ∧ byteCount s = 32) ∧ t = toLowerCase s := by
  rw [bytes32, check_eq_ok, viem.notBytes_iff, not_or, not_not, not_not, Except.ok.injEq,
    eq_comm (a := t)]

theorem nonZeroBytes32_eq_ok {viem : Viem} {s t label : String} :
    nonZeroBytes32 viem s label = .ok t ↔
      (isHexText s = true ∧ byteCount s = 32) ∧ bigIntOfHex s ≠ 0 ∧ t = toLowerCase s := by
  simp only [nonZeroBytes32, bind_eq_ok, bytes32_eq_ok, check_eq_ok, Except.ok.injEq]
  constructor
  · rintro ⟨-, ⟨hhex, rfl⟩, hzero, rfl⟩
    rw [bigIntOfHex_toLowerCase hhex.1] at hzero
    exact ⟨hhex, hzero, rfl⟩
  · rintro ⟨hhex, hzero, rfl⟩
    refine ⟨_, ⟨hhex, rfl⟩, ?_, rfl⟩
    rwa [bigIntOfHex_toLowerCase hhex.1]

theorem fieldElement_eq_ok {x y : Int} {label : String} {allowZero : Bool} :
    fieldElement x label allowZero = .ok y ↔
      (0 ≤ x ∧ x < BN254_SCALAR_FIELD) ∧ (allowZero = false → x ≠ 0) ∧ y = x := by
  rw [fieldElement, check_eq_ok, Except.ok.injEq]
  cases allowZero with
  | false =>
    simp only [Bool.false_eq_true, not_false_eq_true, true_and, forall_const]
    constructor
    · rintro ⟨hrange, rfl⟩
      exact ⟨by omega, by omega, rfl⟩
    · rintro ⟨hrange, hzero, rfl⟩
      exact ⟨by omega, rfl⟩
  | true =>
    simp only [not_true_eq_false, false_and, or_false, Bool.true_eq_false, false_implies,
      true_and]
    constructor
    · rintro ⟨hrange, rfl⟩
      exact ⟨by omega, rfl⟩
    · rintro ⟨hrange, rfl⟩
      exact ⟨by omega, rfl⟩

theorem normalizeAddress_eq_ok {viem : Viem} {s t label : String} :
    normalizeAddress viem s label = .ok t ↔
      viem.isAddress s = true ∧ bigIntOfHex (viem.getAddress s) ≠ 0 ∧ t = viem.getAddress s := by
  rw [normalizeAddress, check_eq_ok, check_eq_ok, not_not, Except.ok.injEq, eq_comm (a := t)]

-- A text of 32 bytes has 63 digits or 64.
theorem length_of_bytes32 {s : String} (hsize : byteCount s = 32) :
    (s.toList.drop 2).length = 63 ∨ (s.toList.drop 2).length = 64 := by
  rw [byteCount] at hsize
  rw [List.length_drop]
  omega

theorem bigIntOfHex_lt {s : String} (hhex : isHexText s = true) (hsize : byteCount s = 32) :
    bigIntOfHex s < 2 ^ 256 := by
  have htext := hexText_toLowerCase hhex
  have hlt := Hex.value_lt htext.lower
  rw [← htext.bigInt, bigIntOfHex_toLowerCase hhex, List.length_map] at hlt
  rcases length_of_bytes32 hsize with hlength | hlength
  · rw [hlength] at hlt
    exact hlt.trans (by decide)
  · rw [hlength] at hlt
    exact hlt

theorem shiftRight_128 (n : Nat) : n >>> 128 = n / 2 ^ 128 := Nat.shiftRight_eq_div_pow n 128

theorem and_UINT128_MAX (n : Nat) : n &&& UINT128_MAX = n % 2 ^ 128 :=
  Nat.and_two_pow_sub_one_eq_mod n 128

theorem join_limbs {high low : Nat} (hlow : low ≤ UINT128_MAX) :
    high <<< 128 ||| low = high * 2 ^ 128 + low := by
  have hlt : low < 2 ^ 128 := Nat.lt_of_le_sub_one (by decide) hlow
  rw [← Nat.shiftLeft_add_eq_or_of_lt hlt, Nat.shiftLeft_eq]

theorem join_split (n : Nat) : (n >>> 128) <<< 128 ||| (n &&& UINT128_MAX) = n := by
  have hlow : n &&& UINT128_MAX ≤ UINT128_MAX := Nat.and_le_right
  rw [join_limbs hlow, shiftRight_128, and_UINT128_MAX]
  exact Nat.div_add_mod' n (2 ^ 128)

theorem split_join {high low : Nat} (hlow : low ≤ UINT128_MAX) :
    (high <<< 128 ||| low) >>> 128 = high ∧ (high <<< 128 ||| low) &&& UINT128_MAX = low := by
  have hlt : low < 2 ^ 128 := Nat.lt_of_le_sub_one (by decide) hlow
  rw [join_limbs hlow, shiftRight_128, and_UINT128_MAX]
  constructor
  · omega
  · omega

theorem join_lt {high low : Nat} (hhigh : high ≤ UINT128_MAX) (hlow : low ≤ UINT128_MAX) :
    high <<< 128 ||| low < 2 ^ 256 := by
  rw [join_limbs hlow]
  rw [UINT128_MAX] at hhigh hlow
  omega

theorem splitBytes32_eq_ok {viem : Viem} {s : String} {limbs : Int × Int} :
    splitBytes32 viem s = .ok limbs ↔ (isHexText s = true ∧ byteCount s = 32) ∧
      limbs =
        (((bigIntOfHex s >>> 128 : Nat) : Int), ((bigIntOfHex s &&& UINT128_MAX : Nat) : Int)) := by
  simp only [splitBytes32, bind_eq_ok, bytes32_eq_ok, pure_eq_ok]
  constructor
  · rintro ⟨-, ⟨hhex, rfl⟩, rfl⟩
    rw [bigIntOfHex_toLowerCase hhex.1]
    exact ⟨hhex, rfl⟩
  · rintro ⟨hhex, rfl⟩
    refine ⟨_, ⟨hhex, rfl⟩, ?_⟩
    rw [bigIntOfHex_toLowerCase hhex.1]

theorem joinBytes32_eq_ok {viem : Viem} {high low : Int} {t : String} :
    joinBytes32 viem high low = .ok t ↔
      ((0 ≤ high ∧ high ≤ UINT128_MAX) ∧ 0 ≤ low ∧ low ≤ UINT128_MAX) ∧
        t = bytesToHex (BitVec.ofNat 256 (high.toNat <<< 128 ||| low.toNat)) := by
  rw [joinBytes32, check_eq_ok, viem.digits _ _ _ (by decide)]
  constructor
  · rintro ⟨hlimbs, -, ht⟩
    exact ⟨by omega, ht⟩
  · rintro ⟨hlimbs, ht⟩
    refine ⟨by omega, ⟨by omega, ?_⟩, ht⟩
    have hlt := @join_lt high.toNat low.toNat (by omega) (by omega)
    exact_mod_cast hlt

theorem isAddressText_bytesToHex (x : Address) : isAddressText (bytesToHex x) = true := by
  have htext := hexText_bytesToHex x
  rw [isAddressText, decide_eq_true_iff]
  exact ⟨htext.isHexText, by rw [htext.length, Hex.length_fixed]⟩

-- An address is the text of its number.
theorem toLowerCase_of_isAddressText {s : String} (h : isAddressText s = true) :
    toLowerCase s = bytesToHex (BitVec.ofNat 160 (bigIntOfHex s)) ∧ bigIntOfHex s < 2 ^ 160 := by
  rw [isAddressText, decide_eq_true_iff] at h
  obtain ⟨hhex, hlength⟩ := h
  have htext := hexText_toLowerCase hhex
  have hdigits : ((s.toList.drop 2).map Char.toLower).length = 160 / 8 * 2 := by
    rw [List.length_map, List.length_drop, hlength]
  have hlt := Hex.value_lt htext.lower
  rw [← htext.bigInt, bigIntOfHex_toLowerCase hhex, hdigits] at hlt
  have hword := htext.eq_bytesToHex (w := 160) (by decide) hdigits
  rw [bigIntOfHex_toLowerCase hhex] at hword
  exact ⟨hword, hlt⟩

end Ubi2.ZkIdentity
