import Ubi2.Lib.Decode
import Ubi2.StatusSnapshot.Restore

namespace Ubi2.StatusSnapshot

open Ubi2.Runtime Ubi2.Lib Ubi2.Lib.Encode

def stripPlus : List Char → List Char
  | '+' :: digits => digits
  | digits => digits

-- `str::parse` to `u64`: decimal digits behind an optional plus sign, without overflow.
def parseU64 (value : String) : Option Nat :=
  let digits := stripPlus value.toList
  if digits = [] ∨ ¬digits.all Char.isDigit ∨ Nat.ofDigitChars 10 digits 0 > U64_MAX then none
  else some (Nat.ofDigitChars 10 digits 0)

def parseCanonicalU64 (value : String) : Except PackedStatusSnapshotError Nat :=
  match parseU64 value with
  | none => .error .InvalidSourceEncoding
  | some parsed => if parsed.repr ≠ value then .error .InvalidSourceEncoding else .ok parsed

theorem parseU64_repr {n : Nat} (hn : n ≤ U64_MAX) : parseU64 n.repr = some n := by
  have hdigit : ∀ c ∈ Nat.toDigits 10 n, c.isDigit = true := fun c hc =>
    Nat.isDigit_of_mem_toDigits (by decide) (by decide) hc
  have hstrip : stripPlus (Nat.toDigits 10 n) = Nat.toDigits 10 n := by
    rw [stripPlus.eq_def]
    split
    · rename_i digits heq
      have hplus := hdigit '+' (by rw [heq]; exact List.mem_cons_self)
      exact absurd hplus (by decide)
    · rfl
  rw [parseU64, Nat.toList_repr, hstrip, Nat.ofDigitChars_ten_toDigits]
  rw [if_neg]
  simp only [not_or, not_not, not_lt]
  exact ⟨Nat.toDigits_ne_nil, List.all_eq_true.mpr hdigit, hn⟩

-- A number has one spelling.
theorem parseCanonicalU64_iff {value : String} {n : Nat} :
    parseCanonicalU64 value = .ok n ↔ n ≤ U64_MAX ∧ value = n.repr := by
  rw [parseCanonicalU64]
  constructor
  · intro h
    cases hparse : parseU64 value with
    | none =>
      rw [hparse] at h
      cases h
    | some parsed =>
      rw [hparse] at h
      simp only at h
      split at h
      · cases h
      rename_i hspelled
      cases h
      refine ⟨?_, (not_not.mp hspelled).symm⟩
      rw [parseU64] at hparse
      simp only [Option.ite_none_left_eq_some, not_or, not_lt, Option.some.injEq] at hparse
      omega
  · rintro ⟨hn, rfl⟩
    rw [parseU64_repr hn]
    exact if_neg (not_not.mpr rfl)

-- The two digits of a byte.
def byteToHex (byte : Byte) : List Char :=
  [Nat.digitChar (byte >>> 4).toNat, Nat.digitChar (byte &&& 0x0f#8).toNat]

def hexDigits {w : Nat} (x : BitVec w) : List Char := (beBytes x).flatMap byteToHex

def bytesToHex {w : Nat} (x : BitVec w) : String := String.ofList ('0' :: 'x' :: hexDigits x)

def hexNibble (value : Char) : Option Byte :=
  if '0' ≤ value ∧ value ≤ '9' then some (BitVec.ofNat 8 (value.toNat - 48))
  else if 'a' ≤ value ∧ value ≤ 'f' then some (BitVec.ofNat 8 (value.toNat - 97 + 10))
  else none

-- Two digits for each byte.
def hexBytes : List Char → Option Bytes
  | high :: low :: rest => do
    let high ← hexNibble high
    let low ← hexNibble low
    let bytes ← hexBytes rest
    pure ((high <<< 4 ||| low) :: bytes)
  | _ => some []

-- A character beyond one byte is no digit, however long its encoding.
def bytesFromHex (w : Nat) (encoded : String) : Except PackedStatusSnapshotError (BitVec w) :=
  if encoded.toList.length ≠ 2 + w / 8 * 2 ∨ encoded.toList.take 2 ≠ ['0', 'x'] then
    .error .InvalidSourceEncoding
  else
    match hexBytes (encoded.toList.drop 2) with
    | none => .error .InvalidSourceEncoding
    | some bytes =>
      let value := BitVec.ofNat w (Decode.ofBytes bytes)
      if bytesToHex value ≠ encoded then .error .InvalidSourceEncoding else .ok value

private theorem hexNibble_byteToHex : ∀ byte : BitVec 8,
    hexNibble (Nat.digitChar (byte >>> 4).toNat) = some (byte >>> 4) ∧
    hexNibble (Nat.digitChar (byte &&& 0x0f#8).toNat) = some (byte &&& 0x0f#8) ∧
    (byte >>> 4) <<< 4 ||| (byte &&& 0x0f#8) = byte := by
  decide +kernel

theorem hexBytes_flatMap (bytes : Bytes) : hexBytes (bytes.flatMap byteToHex) = some bytes := by
  induction bytes with
  | nil => rfl
  | cons byte bytes ih =>
    obtain ⟨hhigh, hlow, hback⟩ := hexNibble_byteToHex byte
    rw [List.flatMap_cons, byteToHex, List.cons_append, List.cons_append, List.nil_append,
      hexBytes, hhigh, hlow, ih]
    simp only [Option.bind_eq_bind, Option.bind_some, hback]
    rfl

theorem length_hexDigits {w : Nat} (x : BitVec w) : (hexDigits x).length = w / 8 * 2 := by
  rw [hexDigits, List.length_flatMap]
  simp [byteToHex, beBytes]

theorem ofBytes_beBytes {w : Nat} (hw : 8 ∣ w) (x : BitVec w) :
    Decode.ofBytes (beBytes x) = x.toNat := by
  have hpow : 256 ^ (w / 8) = 2 ^ w := by
    obtain ⟨n, rfl⟩ := hw
    rw [Nat.mul_div_cancel_left n (by decide), Nat.pow_mul]
  exact Decode.ofBytes_natBytes (hpow ▸ x.isLt)

-- A byte string has one spelling.
theorem bytesFromHex_iff {w : Nat} (hw : 8 ∣ w) {encoded : String} {x : BitVec w} :
    bytesFromHex w encoded = .ok x ↔ encoded = bytesToHex x := by
  rw [bytesFromHex]
  constructor
  · intro h
    split at h
    · cases h
    cases hbytes : hexBytes (encoded.toList.drop 2) with
    | none =>
      rw [hbytes] at h
      cases h
    | some bytes =>
      rw [hbytes] at h
      simp only at h
      split at h
      · cases h
      rename_i hspelled
      cases h
      exact (not_not.mp hspelled).symm
  · rintro rfl
    have hlist : (bytesToHex x).toList = '0' :: 'x' :: hexDigits x := String.toList_ofList
    have hdigits : hexBytes (hexDigits x) = some (beBytes x) := hexBytes_flatMap _
    rw [hlist, if_neg]
    · simp only [List.drop_succ_cons, List.drop_zero, hdigits, ofBytes_beBytes hw,
        BitVec.ofNat_toNat, BitVec.setWidth_eq, ne_eq, not_true_eq_false, if_false]
    · simp only [List.length_cons, length_hexDigits, List.take_succ_cons, List.take_zero, ne_eq,
        not_true_eq_false, or_false, not_not]
      omega

def fieldToHex (value : StatusField) : String := bytesToHex (BitVec.ofNat 256 value.val)

-- What an encoding error of a source field is in a snapshot.
def asSnapshot {α : Type} (r : Except PackedStatusSnapshotError α) :
    Except PackedStatusSnapshotError α :=
  r.mapError fun _ => .InvalidSnapshotEncoding

theorem asSnapshot_eq_ok {α : Type} {r : Except PackedStatusSnapshotError α} {a : α} :
    asSnapshot r = .ok a ↔ r = .ok a := by
  cases r with
  | error error => simp [asSnapshot, Except.mapError]
  | ok b => simp [asSnapshot, Except.mapError]

def fieldFromHex (encoded : String) : Except PackedStatusSnapshotError StatusField :=
  match asSnapshot (bytesFromHex 256 encoded) with
  | .error error => .error error
  | .ok bytes =>
    let field := Fin.ofNat BN254_FR bytes.toNat
    if fieldToHex field ≠ encoded then .error .InvalidSnapshotEncoding else .ok field

theorem fieldFromHex_iff {encoded : String} {value : StatusField} :
    fieldFromHex encoded = .ok value ↔ encoded = fieldToHex value := by
  rw [fieldFromHex]
  constructor
  · intro h
    cases hbytes : asSnapshot (bytesFromHex 256 encoded) with
    | error error =>
      rw [hbytes] at h
      cases h
    | ok bytes =>
      rw [hbytes] at h
      simp only at h
      split at h
      · cases h
      rename_i hspelled
      cases h
      exact (not_not.mp hspelled).symm
  · rintro rfl
    have hlt : value.val < 2 ^ 256 := Nat.lt_trans value.isLt (by decide)
    have hbytes : asSnapshot (bytesFromHex 256 (fieldToHex value)) =
        .ok (BitVec.ofNat 256 value.val) :=
      asSnapshot_eq_ok.mpr ((bytesFromHex_iff (by decide)).mpr rfl)
    have hfield : Fin.ofNat BN254_FR (BitVec.ofNat 256 value.val).toNat = value := by
      rw [BitVec.toNat_ofNat, Nat.mod_eq_of_lt hlt]
      exact Fin.ofNat_val_eq_self value
    rw [hbytes]
    simp only [hfield, ne_eq, not_true_eq_false, if_false]

def chunkToHex (chunk : PackedStatusChunk) : String :=
  String.ofList ('0' :: 'x' :: (hexDigits chunk.high ++ hexDigits chunk.low))

def chunkFromHex (encoded : String) : Except PackedStatusSnapshotError PackedStatusChunk :=
  match asSnapshot (bytesFromHex 256 encoded) with
  | .error error => .error error
  | .ok bytes => .ok { low := bytes.setWidth 128, high := bytes.extractLsb' 128 128 }

-- The high half stands first.
theorem chunkToHex_eq (chunk : PackedStatusChunk) :
    chunkToHex chunk = bytesToHex (chunk.high ++ chunk.low) := by
  have hbytes : beBytes (chunk.high ++ chunk.low) = beBytes chunk.high ++ beBytes chunk.low :=
    beBytes_append (by decide) (by decide) chunk.high chunk.low
  rw [chunkToHex, bytesToHex, hexDigits, hexDigits, hexDigits, hbytes, List.flatMap_append]

theorem chunkFromHex_iff {encoded : String} {chunk : PackedStatusChunk} :
    chunkFromHex encoded = .ok chunk ↔ encoded = chunkToHex chunk := by
  rw [chunkFromHex, chunkToHex_eq]
  constructor
  · intro h
    cases hbytes : asSnapshot (bytesFromHex 256 encoded) with
    | error error =>
      rw [hbytes] at h
      cases h
    | ok bytes =>
      rw [hbytes] at h
      cases h
      have hhalves : bytes.extractLsb' 128 128 ++ bytes.setWidth 128 = bytes := by
        apply BitVec.eq_of_getLsbD_eq
        intro i hi
        rw [BitVec.getLsbD_append, BitVec.getLsbD_setWidth, BitVec.getLsbD_extractLsb']
        by_cases hlow : i < 128
        · simp [hlow]
        · simp [hlow, show i - 128 < 128 by omega, show 128 + (i - 128) = i by omega]
      rw [(bytesFromHex_iff (by decide)).mp (asSnapshot_eq_ok.mp hbytes), hhalves]
  · rintro rfl
    have hbytes : asSnapshot (bytesFromHex 256 (bytesToHex (chunk.high ++ chunk.low))) =
        .ok (chunk.high ++ chunk.low) :=
      asSnapshot_eq_ok.mpr ((bytesFromHex_iff (by decide)).mpr rfl)
    rw [hbytes]
    simp only [BitVec.setWidth_append_eq_right, BitVec.extractLsb'_append_eq_left]

end Ubi2.StatusSnapshot
