import Ubi2.StatusSnapshot.Sdk
import Ubi2.StatusSnapshot.Transparency

namespace Ubi2.StatusSnapshot

open Ubi2.Runtime Ubi2.Lib Ubi2.Lib.Encode Ubi2.Lib.Except Sdk

-- The digits of a byte string are those of its number.
theorem flatMap_byteToHex (n v : Nat) : (natBytes n v).flatMap byteToHex = Hex.fixed (n * 2) v := by
  have hbyte : ∀ byte : BitVec 8, byteToHex byte =
      [Nat.digitChar (byte.toNat / 16), Nat.digitChar (byte.toNat % 16)] := by
    decide +kernel
  induction n generalizing v with
  | zero => rfl
  | succ n ih =>
    have hdiv : v / 256 = v / 16 / 16 := by omega
    have hhigh : v % 2 ^ 8 / 16 = v / 16 % 16 := by omega
    have hlow : v % 2 ^ 8 % 16 = v % 16 := by omega
    have hlength : (n + 1) * 2 = n * 2 + 1 + 1 := by omega
    rw [natBytes, List.flatMap_append, ih, List.flatMap_singleton, hbyte, BitVec.toNat_ofNat, hhigh,
      hlow, hlength, Hex.fixed, Hex.fixed, hdiv, List.append_assoc]
    rfl

theorem hexDigits_eq_fixed {w : Nat} (x : BitVec w) : hexDigits x = Hex.fixed (w / 8 * 2) x.toNat :=
  flatMap_byteToHex _ _

-- A text of small digits behind the prefix.
structure HexText (s : String) (digits : List Char) : Prop where
  text : s = String.ofList ('0' :: 'x' :: digits)
  lower : ∀ c ∈ digits, c ∈ Hex.lowerDigits

theorem hexText_bytesToHex {w : Nat} (x : BitVec w) :
    HexText (bytesToHex x) (Hex.fixed (w / 8 * 2) x.toNat) :=
  ⟨by rw [bytesToHex, hexDigits_eq_fixed], fun _ hc => Hex.mem_fixed hc⟩

namespace HexText

variable {s t : String} {digits digits' : List Char}

theorem toList (h : HexText s digits) : s.toList = '0' :: 'x' :: digits := by
  rw [h.text, String.toList_ofList]

theorem bigInt (h : HexText s digits) : bigIntOfHex s = Hex.value digits := by
  rw [bigIntOfHex, h.toList]
  rfl

theorem length (h : HexText s digits) : s.toList.length = digits.length + 2 := by
  rw [h.toList]
  rfl

theorem isHexText (h : HexText s digits) : isHexText s = true := by
  rw [Sdk.isHexText, h.toList, decide_eq_true_iff]
  refine ⟨rfl, List.all_eq_true.mpr ?_⟩
  intro c hc
  exact decide_eq_true (Hex.all_of_lower (h.lower c hc))

theorem toLowerCase (h : HexText s digits) : toLowerCase s = s := by
  have hmap : digits.map Char.toLower = digits := by
    conv_rhs => rw [← List.map_id digits]
    exact List.map_congr_left fun c hc => Hex.toLower_of_lower c (h.lower c hc)
  rw [Sdk.toLowerCase, h.toList, List.map_cons, List.map_cons, hmap, h.text]
  rfl

theorem eq_of_bigInt (h : HexText s digits) (h' : HexText t digits')
    (hlength : s.toList.length = t.toList.length) (hvalue : bigIntOfHex s = bigIntOfHex t) :
    s = t := by
  rw [h.bigInt, h'.bigInt] at hvalue
  rw [h.length, h'.length] at hlength
  rw [h.text, h'.text, Hex.eq_of_value h.lower h'.lower (by omega) hvalue]

-- With all its digits it is the text of a word.
theorem eq_bytesToHex {w : Nat} (hw : 8 ∣ w) (h : HexText s digits)
    (hlength : digits.length = w / 8 * 2) : s = bytesToHex (BitVec.ofNat w (bigIntOfHex s)) := by
  have hpow : 16 ^ (w / 8 * 2) = 2 ^ w := by
    obtain ⟨n, rfl⟩ := hw
    rw [Nat.mul_div_cancel_left n (by decide), Nat.mul_comm n 2, Nat.pow_mul, Nat.pow_mul]
  have hlt := Hex.value_lt h.lower
  rw [hlength, hpow] at hlt
  rw [bytesToHex, hexDigits_eq_fixed, BitVec.toNat_ofNat, h.bigInt, Nat.mod_eq_of_lt hlt, ← hlength,
    Hex.fixed_value h.lower]
  exact h.text

end HexText

-- What the SDK takes for 32 bytes: 64 digits, or 63.
def IsBytes32 (s : String) : Prop :=
  ∃ digits, HexText s digits ∧ (digits.length = 63 ∨ digits.length = 64)

theorem hexText_toLowerCase {s : String} (h : isHexText s = true) :
    HexText (toLowerCase s) ((s.toList.drop 2).map Char.toLower) := by
  rw [Sdk.isHexText, decide_eq_true_iff] at h
  obtain ⟨hpre, hdigits⟩ := h
  refine ⟨?_, ?_⟩
  · rw [toLowerCase]
    conv_lhs => rw [← List.take_append_drop 2 s.toList]
    rw [hpre, List.map_append]
    rfl
  · intro c hc
    obtain ⟨d, hd, rfl⟩ := List.mem_map.mp hc
    exact (Hex.lower_of_all d (of_decide_eq_true (List.all_eq_true.mp hdigits d hd))).1

-- The case of the digits is no part of the number.
theorem bigIntOfHex_toLowerCase {s : String} (h : isHexText s = true) :
    bigIntOfHex (toLowerCase s) = bigIntOfHex s := by
  rw [(hexText_toLowerCase h).bigInt, Hex.value_map_toLower, bigIntOfHex]
  intro c hc
  rw [Sdk.isHexText, decide_eq_true_iff] at h
  exact of_decide_eq_true (List.all_eq_true.mp h.2 c hc)

theorem canonicalBytes32_ok {viem : Viem} {v : JsValue} {label t : String} {nonZero : Bool}
    (h : canonicalBytes32 viem v label nonZero = .ok t) :
    IsBytes32 t ∧ (nonZero = true → bigIntOfHex t ≠ 0) := by
  rw [canonicalBytes32.eq_def] at h
  split at h
  · rename_i s
    simp only [viem.notBytes_iff, check_eq_ok, not_or, not_and, not_not, Except.ok.injEq] at h
    obtain ⟨⟨hhex, hsize⟩, hzero, rfl⟩ := h
    have htext := hexText_toLowerCase hhex
    refine ⟨⟨_, htext, ?_⟩, hzero⟩
    have hpre : s.toList.length ≥ 2 := by
      rw [Sdk.isHexText, decide_eq_true_iff] at hhex
      have hlength := congrArg List.length hhex.1
      rw [List.length_take] at hlength
      simp only [List.length_cons, List.length_nil] at hlength
      omega
    rw [byteCount] at hsize
    rw [List.length_map, List.length_drop]
    omega
  · cases h

theorem canonicalBytes32_str {viem : Viem} {t label : String} {nonZero : Bool} (h : IsBytes32 t)
    (hzero : nonZero = true → bigIntOfHex t ≠ 0) :
    canonicalBytes32 viem (.str t) label nonZero = .ok t := by
  obtain ⟨digits, htext, hlength⟩ := h
  have hsize : byteCount t = 32 := by
    rw [byteCount, htext.length]
    omega
  rw [canonicalBytes32, if_neg, if_neg, htext.toLowerCase]
  · rintro ⟨hnon, hvalue⟩
    rw [htext.toLowerCase] at hvalue
    exact hzero hnon hvalue
  · rw [viem.notBytes_iff]
    simp [htext.isHexText, hsize]

theorem bigInt_bytesToHex {w : Nat} (hw : 8 ∣ w) (x : BitVec w) :
    bigIntOfHex (bytesToHex x) = x.toNat := by
  have hpow : 16 ^ (w / 8 * 2) = 2 ^ w := by
    obtain ⟨n, rfl⟩ := hw
    rw [Nat.mul_div_cancel_left n (by decide), Nat.mul_comm n 2, Nat.pow_mul, Nat.pow_mul]
  rw [(hexText_bytesToHex x).bigInt, Hex.value_fixed (hpow ▸ x.isLt)]

theorem bytesToHex_injective {w : Nat} (hw : 8 ∣ w) :
    Function.Injective (bytesToHex : BitVec w → String) := by
  intro x y h
  have hvalue := congrArg bigIntOfHex h
  rw [bigInt_bytesToHex hw, bigInt_bytesToHex hw] at hvalue
  exact BitVec.eq_of_toNat_eq hvalue

theorem isBytes32_bytesToHex (x : Hash) : IsBytes32 (bytesToHex x) :=
  ⟨_, hexText_bytesToHex x, Or.inr (Hex.length_fixed _ _)⟩

theorem isBytes_bytesToHex (viem : Viem) (x : Hash) :
    viem.isHex (bytesToHex x) = true ∧ viem.size (bytesToHex x) = 32 := by
  have htext := hexText_bytesToHex x
  rw [viem.isBytes_iff, byteCount, htext.length, Hex.length_fixed]
  exact ⟨htext.isHexText, rfl⟩

theorem canonicalAddress_ok {viem : Viem} {v : JsValue} {label t : String}
    (h : canonicalAddress viem v label = .ok t) :
    ∃ x : Address, x ≠ ZERO_ADDRESS ∧ t = bytesToHex x := by
  rw [canonicalAddress.eq_def] at h
  split at h
  · rename_i s
    simp only [check_eq_ok, not_or, not_not, Except.ok.injEq] at h
    obtain ⟨⟨haddress, hzero⟩, rfl⟩ := h
    rw [Viem.isAddress, decide_eq_true_iff] at haddress
    have hshape := haddress.1
    rw [isAddressText, decide_eq_true_iff] at hshape
    have htext := hexText_toLowerCase hshape.1
    have hlength : ((s.toList.drop 2).map Char.toLower).length = 160 / 8 * 2 := by
      rw [List.length_map, List.length_drop, hshape.2]
    have hvalue := bigIntOfHex_toLowerCase hshape.1
    have heq := htext.eq_bytesToHex (w := 160) (by decide) hlength
    rw [viem.lower s haddress.1]
    refine ⟨_, ?_, heq⟩
    intro hx
    have hnumber := bigInt_bytesToHex (w := 160) (by decide)
      (BitVec.ofNat 160 (bigIntOfHex (toLowerCase s)))
    rw [← heq, hx, hvalue] at hnumber
    exact hzero hnumber
  · cases h

theorem canonicalAddress_str (viem : Viem) (label : String) {x : Address} (hx : x ≠ ZERO_ADDRESS) :
    canonicalAddress viem (.str (bytesToHex x)) label = .ok (bytesToHex x) := by
  have htext := hexText_bytesToHex x
  have hshape : isAddressText (bytesToHex x) = true := by
    rw [isAddressText, decide_eq_true_iff]
    exact ⟨htext.isHexText, by rw [htext.length, Hex.length_fixed]⟩
  have haddress : viem.isAddress (bytesToHex x) = true := by
    rw [Viem.isAddress, decide_eq_true_iff]
    exact ⟨hshape, Or.inl htext.toLowerCase⟩
  rw [canonicalAddress, if_neg, viem.lower _ hshape, htext.toLowerCase]
  rw [bigInt_bytesToHex (by decide)]
  rintro (hno | hzero)
  · exact hno haddress
  · exact hx (BitVec.eq_of_toNat_eq hzero)

theorem isDecimal_iff {digits : List Char} :
    isDecimal digits = true ↔ digits = Nat.toDigits 10 (Nat.ofDigitChars 10 digits 0) := by
  rw [isDecimal.eq_def]
  constructor
  · intro h
    split at h
    · cases h
    · rfl
    · rename_i c cs hne
      obtain ⟨hc, hall⟩ := of_decide_eq_true h
      exact (Decimal.toDigits_ofDigitChars (List.all_eq_true.mp hall) (List.cons_ne_nil _ _)
        fun hhead => hc (Option.some.inj hhead)).1.symm
  · intro h
    split
    · exact absurd h.symm Nat.toDigits_ne_nil
    · rfl
    · rename_i c cs hne
      have hpos : 0 < Nat.ofDigitChars 10 (c :: cs) 0 := by
        refine Nat.pos_of_ne_zero fun hzero => ?_
        rw [hzero] at h
        exact hne (List.cons.inj h).1 (List.cons.inj h).2
      have hhead := Decimal.head_toDigits hpos
      rw [← h] at hhead
      refine decide_eq_true ⟨fun hc => hhead (congrArg some hc), ?_⟩
      rw [h]
      exact List.all_eq_true.mpr fun d hd =>
        Nat.isDigit_of_mem_toDigits (by decide) (by decide) hd

theorem canonicalDecimal_ok {v : JsValue} {label t : String}
    (h : canonicalDecimal v label = .ok t) : ∃ n ≤ U64_MAX, t = n.repr := by
  rw [canonicalDecimal.eq_def] at h
  split at h
  · rename_i s
    simp only [check_eq_ok, not_not, not_lt, Except.ok.injEq] at h
    obtain ⟨hdecimal, hbound, rfl⟩ := h
    refine ⟨bigIntOfDecimal s, hbound, ?_⟩
    rw [← String.toList_inj, Nat.toList_repr]
    exact isDecimal_iff.mp hdecimal
  · cases h

theorem bigInt_repr (n : Nat) : bigIntOfDecimal n.repr = n := by
  rw [bigIntOfDecimal, Nat.toList_repr, Nat.ofDigitChars_ten_toDigits]

theorem canonicalDecimal_str {n : Nat} (label : String) (hn : n ≤ U64_MAX) :
    canonicalDecimal (.str n.repr) label = .ok n.repr := by
  have hdecimal : isDecimal n.repr.toList = true := by
    rw [isDecimal_iff, Nat.toList_repr, Nat.ofDigitChars_ten_toDigits]
  have hbound : ¬ n > 0xffffffffffffffff := Nat.not_lt.mpr hn
  rw [canonicalDecimal, if_neg (not_not.mpr hdecimal), bigInt_repr, if_neg hbound]

end Ubi2.StatusSnapshot
