import Ubi2.ZkIdentity.Encoding

namespace Ubi2.ZkIdentity

open Ubi2.Runtime Ubi2.Lib Ubi2.Lib.Abi Ubi2.Lib.Encode Ubi2.Lib.Except Ubi2.StatusSnapshot
  Ubi2.StatusSnapshot.Sdk Contracts.ZkIdentityEncoding

-- The hash, as a text.
def keccakHex (keccak256 : Keccak256) (bytes : List Byte) : String := bytesToHex (keccak256 bytes)

-- The bytes of `stringToBytes`.
def stringToBytes (text : String) : List Byte := text.toUTF8.data.toList.map UInt8.toBitVec

-- Two texts that only the padding makes one: one lacks the final zero of the other.
def Folded (s t : String) : Prop := t = s ++ "0" ∨ s = t ++ "0"

section
variable {viem : Viem} {s t : String} {digits digits' : List Char}

theorem isBytes32_of_bytes32 {label : String} (h : bytes32 viem s label = .ok t) : IsBytes32 t := by
  obtain ⟨⟨hhex, hsize⟩, rfl⟩ := bytes32_eq_ok.mp h
  have hlength := length_of_bytes32 hsize
  exact ⟨_, hexText_toLowerCase hhex, by rw [List.length_map]; exact hlength⟩

theorem size_of_isBytes32 (h : IsBytes32 s) : byteCount s = 32 := by
  obtain ⟨digits, htext, hlength⟩ := h
  rw [byteCount, htext.length]
  omega

-- A text of 32 bytes in small digits passes the check as it is.
theorem bytes32_of_isBytes32 (h : IsBytes32 s) (label : String) : bytes32 viem s label = .ok s := by
  have hsize := size_of_isBytes32 h
  obtain ⟨digits, htext, -⟩ := h
  exact bytes32_eq_ok.mpr ⟨⟨htext.isHexText, hsize⟩, htext.toLowerCase.symm⟩

theorem padRight_eq (h : HexText s digits) :
    padRight s = BitVec.ofNat 256 (Hex.value (digits.rightpad 64 '0')) := by
  rw [padRight, h.toList]
  rfl

theorem mem_rightpad (h : ∀ c ∈ digits, c ∈ Hex.lowerDigits) :
    ∀ c ∈ digits.rightpad 64 '0', c ∈ Hex.lowerDigits := by
  intro c hc
  rw [List.rightpad, List.mem_append] at hc
  rcases hc with hc | hc
  · exact h c hc
  · rw [List.eq_of_mem_replicate hc]
    decide

theorem length_rightpad (h : digits.length ≤ 64) : (digits.rightpad 64 '0').length = 64 := by
  rw [List.rightpad, List.length_append, List.length_replicate]
  omega

-- Texts of one word have the same digits once they are padded.
theorem rightpad_of_padRight (h : HexText s digits) (h' : HexText t digits')
    (hlength : digits.length ≤ 64) (hlength' : digits'.length ≤ 64) :
    padRight s = padRight t ↔ digits.rightpad 64 '0' = digits'.rightpad 64 '0' := by
  rw [padRight_eq h, padRight_eq h']
  constructor
  · intro hword
    have hpad := mem_rightpad h.lower
    have hpad' := mem_rightpad h'.lower
    have hlen := length_rightpad hlength
    have hlen' := length_rightpad hlength'
    have hlt := Hex.value_lt hpad
    have hlt' := Hex.value_lt hpad'
    have hpow : 16 ^ 64 = 2 ^ 256 := by decide
    rw [hlen, hpow] at hlt
    rw [hlen', hpow] at hlt'
    have hvalue := congrArg BitVec.toNat hword
    rw [BitVec.toNat_ofNat, BitVec.toNat_ofNat, Nat.mod_eq_of_lt hlt, Nat.mod_eq_of_lt hlt']
      at hvalue
    exact Hex.eq_of_value hpad hpad' (hlen.trans hlen'.symm) hvalue
  · intro hpad
    rw [hpad]

theorem rightpad_of_64 (h : digits.length = 64) : digits.rightpad 64 '0' = digits := by
  rw [List.rightpad, h, Nat.sub_self, List.replicate_zero, List.append_nil]

theorem rightpad_of_63 (h : digits.length = 63) : digits.rightpad 64 '0' = digits ++ ['0'] := by
  rw [List.rightpad, h]
  rfl

theorem append_zero_iff (h : HexText s digits) (h' : HexText t digits') :
    t = s ++ "0" ↔ digits' = digits ++ ['0'] := by
  have hzero : "0".toList = ['0'] := rfl
  rw [← String.toList_inj, String.toList_append, h.toList, h'.toList, hzero]
  simp only [List.cons_append, List.cons.injEq, true_and]

theorem eq_iff_digits (h : HexText s digits) (h' : HexText t digits') :
    s = t ↔ digits = digits' := by
  rw [← String.toList_inj, h.toList, h'.toList]
  simp only [List.cons.injEq, true_and]

-- The padding folds two texts of 32 bytes onto one word only where one lacks the final zero.
theorem padRight_eq_iff (hs : IsBytes32 s) (ht : IsBytes32 t) :
    padRight s = padRight t ↔ s = t ∨ Folded s t := by
  obtain ⟨digits, h, hlength⟩ := hs
  obtain ⟨digits', h', hlength'⟩ := ht
  rw [rightpad_of_padRight h h' (by omega) (by omega), eq_iff_digits h h', Folded,
    append_zero_iff h h', append_zero_iff h' h]
  have hne : ∀ {a b : List Char}, b.length ≠ a.length + 1 → b ≠ a ++ ['0'] := by
    rintro a b hlen rfl
    exact hlen (by rw [List.length_append, List.length_singleton])
  rcases hlength with hlength | hlength <;> rcases hlength' with hlength' | hlength'
  · rw [rightpad_of_63 hlength, rightpad_of_63 hlength', List.append_cancel_right_eq]
    refine ⟨Or.inl, ?_⟩
    rintro (heq | heq | heq)
    · exact heq
    · exact absurd heq (hne (by omega))
    · exact absurd heq (hne (by omega))
  · rw [rightpad_of_63 hlength, rightpad_of_64 hlength']
    refine ⟨fun heq => Or.inr (Or.inl heq.symm), ?_⟩
    rintro (rfl | heq | heq)
    · omega
    · exact heq.symm
    · exact absurd heq (hne (by omega))
  · rw [rightpad_of_64 hlength, rightpad_of_63 hlength']
    refine ⟨fun heq => Or.inr (Or.inr heq), ?_⟩
    rintro (rfl | heq | heq)
    · omega
    · exact absurd heq (hne (by omega))
    · exact heq
  · rw [rightpad_of_64 hlength, rightpad_of_64 hlength']
    refine ⟨Or.inl, ?_⟩
    rintro (heq | heq | heq)
    · exact heq
    · exact absurd heq (hne (by omega))
    · exact absurd heq (hne (by omega))

end

section
variable {viem : Viem} {s : String}

theorem word_bytes32 (h : IsBytes32 s) :
    (AbiParameter.bytes32 s).word viem.getAddress = some (padRight s) := by
  have hsize := size_of_isBytes32 h
  obtain ⟨digits, htext, -⟩ := h
  exact if_pos ⟨htext.isHexText, hsize⟩

-- A hash is encoded as it is.
theorem word_hash (word : Hash) :
    (AbiParameter.bytes32 (bytesToHex word)).word viem.getAddress = some word := by
  have htext := hexText_bytesToHex word
  have hlength : (Hex.fixed (256 / 8 * 2) word.toNat).length = 64 := Hex.length_fixed _ _
  have hvalue := bigInt_bytesToHex (by decide) word
  rw [htext.bigInt] at hvalue
  rw [word_bytes32 (isBytes32_bytesToHex word), padRight_eq htext,
    rightpad_of_64 hlength, hvalue, BitVec.ofNat_toNat, BitVec.setWidth_eq]

theorem word_uint {bits : Nat} {value : Int} (h : 0 ≤ value ∧ value < 2 ^ bits) :
    (AbiParameter.uint bits value).word viem.getAddress = some (BitVec.ofInt 256 value) :=
  if_pos h

-- Numbers of 53 bits and less are told by their words.
theorem ofInt_inj {a b : Int} (ha : 0 ≤ a ∧ a ≤ MAX_SAFE_INTEGER)
    (hb : 0 ≤ b ∧ b ≤ MAX_SAFE_INTEGER) (h : BitVec.ofInt 256 a = BitVec.ofInt 256 b) : a = b := by
  have hvalue := congrArg BitVec.toNat h
  rw [MAX_SAFE_INTEGER] at ha hb
  rw [BitVec.toNat_ofInt, BitVec.toNat_ofInt] at hvalue
  omega

end

end Ubi2.ZkIdentity
