import Mathlib.Tactic.Ring
import Ubi2.Lib.Encode

namespace Ubi2.Lib.Abi

open Encode

-- The encoding of a tuple of static values, one word each.
def encodeWords (ws : List (BitVec 256)) : List Byte :=
  ws.flatMap beBytes

@[simp] theorem length_encodeWords (ws : List (BitVec 256)) :
    (encodeWords ws).length = 32 * ws.length := by
  induction ws with
  | nil => rfl
  | cons w ws ih =>
    have hword : (beBytes w).length = 32 := length_natBytes _ _
    rw [encodeWords, List.flatMap_cons, List.length_append, hword, ← encodeWords, ih,
      List.length_cons]
    omega

theorem encodeWords_append (ws vs : List (BitVec 256)) :
    encodeWords (ws ++ vs) = encodeWords ws ++ encodeWords vs :=
  List.flatMap_append

theorem encodeWords_cons (w : BitVec 256) (ws : List (BitVec 256)) :
    encodeWords (w :: ws) = beBytes w ++ encodeWords ws :=
  List.flatMap_cons

theorem encodeWords_injective : Function.Injective encodeWords := by
  intro ws vs h
  have hlen : ws.length = vs.length := by
    have := congrArg List.length h
    simpa using this
  induction ws generalizing vs with
  | nil => exact (List.length_eq_zero_iff.mp hlen.symm).symm
  | cons w ws ih =>
    cases vs with
    | nil => cases hlen
    | cons v vs =>
      obtain ⟨rfl, hrest⟩ := Delimits.beBytes (by decide) trivial trivial h
      rw [ih hrest (by simpa using hlen)]

-- Byte strings of a call. Their lengths fit in 64 bits, or the call is not decoded.
abbrev Calldata := { b : List Byte // b.length < 2 ^ 64 }

def pad (b : List Byte) : List Byte :=
  b ++ List.replicate ((32 - b.length % 32) % 32) 0

-- The encoding of a static value and a byte string: the string lies behind the two head
-- words, its length first.
def encodeWordBytes (x : BitVec 256) (b : List Byte) : List Byte :=
  encodeWords [x, 64, BitVec.ofNat 256 b.length] ++ pad b

-- The number that bytes stand for, the most significant first.
def ofBytes (b : List Byte) : Nat :=
  b.foldl (fun n x => 256 * n + x.toNat) 0

-- The word at a byte offset.
def wordAt (b : List Byte) (offset : Nat) : Option (BitVec 256) :=
  if offset + 32 ≤ b.length then
    some (BitVec.ofNat 256 (ofBytes ((b.drop offset).take 32)))
  else none

-- Decoding a value of `w` bits: the bits above it have to be zero.
def narrow (w : Nat) (x : BitVec 256) : Option (BitVec w) :=
  if x.toNat < 2 ^ w then some (x.setWidth w) else none

-- Decoding a byte string behind an offset.
def bytesAt (b : List Byte) (offset : BitVec 256) : Option (List Byte) := do
  let start ← narrow 64 offset
  let length ← wordAt b start.toNat
  let length ← narrow 64 length
  if start.toNat + 32 + length.toNat ≤ b.length then
    some ((b.drop (start.toNat + 32)).take length.toNat)
  else none

theorem ofBytes_append (b c : List Byte) :
    ofBytes (b ++ c) = 256 ^ c.length * ofBytes b + ofBytes c := by
  induction c using List.reverseRecOn with
  | nil => simp [ofBytes]
  | append_singleton c x ih =>
    have hlast : ∀ l : List Byte, ofBytes (l ++ [x]) = 256 * ofBytes l + x.toNat := by
      intro l
      simp [ofBytes]
    rw [← List.append_assoc, hlast, ih, hlast, List.length_append, List.length_singleton,
      Nat.pow_succ]
    ring

theorem ofBytes_natBytes (n v : Nat) : ofBytes (natBytes n v) = v % 256 ^ n := by
  induction n generalizing v with
  | zero => simp [natBytes, ofBytes, Nat.mod_one]
  | succ n ih =>
    rw [natBytes, ofBytes_append, ih, Nat.pow_succ, Nat.mul_comm (256 ^ n) 256, Nat.mod_mul]
    simp [ofBytes]
    ring

theorem ofBytes_word (x : BitVec 256) : BitVec.ofNat 256 (ofBytes (beBytes x)) = x := by
  rw [beBytes, ofBytes_natBytes, Nat.mod_eq_of_lt (by simpa using x.isLt)]
  simp

theorem natBytes_ofBytes (b : List Byte) : natBytes b.length (ofBytes b) = b := by
  induction b using List.reverseRecOn with
  | nil => rfl
  | append_singleton b x ih =>
    have hx : x.toNat < 256 := x.isLt
    have hvalue : ofBytes (b ++ [x]) = 256 * ofBytes b + x.toNat := by
      simp [ofBytes]
    have hdiv : (256 * ofBytes b + x.toNat) / 256 = ofBytes b := by omega
    have hlow : BitVec.ofNat 8 (256 * ofBytes b + x.toNat) = x := by
      apply BitVec.eq_of_toNat_eq
      rw [BitVec.toNat_ofNat]
      omega
    rw [hvalue, List.length_append, List.length_singleton, natBytes, hdiv, hlow, ih]

theorem ofBytes_lt (b : List Byte) : ofBytes b < 256 ^ b.length := by
  induction b using List.reverseRecOn with
  | nil => simp [ofBytes]
  | append_singleton b x ih =>
    have hx : x.toNat < 256 := x.isLt
    have hvalue : ofBytes (b ++ [x]) = 256 * ofBytes b + x.toNat := by
      simp [ofBytes]
    rw [hvalue, List.length_append, List.length_singleton, Nat.pow_succ]
    omega

-- A word that is read is what stands there.
theorem wordAt_eq_some {b : List Byte} {offset : Nat} {x : BitVec 256}
    (h : wordAt b offset = some x) : (b.drop offset).take 32 = beBytes x := by
  rw [wordAt] at h
  split at h
  · next hle =>
    cases h
    have hlen : ((b.drop offset).take 32).length = 32 := by
      rw [List.length_take, List.length_drop]
      omega
    have hlt := ofBytes_lt ((b.drop offset).take 32)
    rw [hlen] at hlt
    have hback := natBytes_ofBytes ((b.drop offset).take 32)
    rw [hlen] at hback
    rw [beBytes, BitVec.toNat_ofNat, Nat.mod_eq_of_lt (by simpa using hlt)]
    exact hback.symm
  · cases h

-- A narrower value in a word keeps its number, and is told by the word.
theorem toNat_widen {w : Nat} (hw : w ≤ 256) (y : BitVec w) :
    (y.setWidth 256).toNat = y.toNat := by
  have hpow : 2 ^ w ≤ 2 ^ 256 := Nat.pow_le_pow_right (by decide) hw
  rw [BitVec.toNat_setWidth]
  exact Nat.mod_eq_of_lt (lt_of_lt_of_le y.isLt hpow)

theorem widen_inj {w : Nat} (hw : w ≤ 256) {a b : BitVec w}
    (h : a.setWidth 256 = b.setWidth 256) : a = b := by
  have hback := congrArg (BitVec.setWidth w) h
  rwa [BitVec.setWidth_setWidth_of_le _ hw, BitVec.setWidth_setWidth_of_le _ hw,
    BitVec.setWidth_eq, BitVec.setWidth_eq] at hback

theorem narrow_eq_some {w : Nat} {x : BitVec 256} {y : BitVec w} (hw : w ≤ 256)
    (h : narrow w x = some y) : x = y.setWidth 256 := by
  rw [narrow] at h
  split at h
  · next hlt =>
    cases h
    apply BitVec.eq_of_toNat_eq
    have hpow : 2 ^ w ≤ 2 ^ 256 := Nat.pow_le_pow_right (by decide) hw
    rw [BitVec.toNat_setWidth, BitVec.toNat_setWidth, Nat.mod_eq_of_lt hlt,
      Nat.mod_eq_of_lt (by omega)]
  · cases h

-- A word is read back from where it was written.
theorem wordAt_append {front rest : List Byte} {offset : Nat} (x : BitVec 256)
    (h : front.length = offset) : wordAt (front ++ beBytes x ++ rest) offset = some x := by
  have hword : (beBytes x).length = 32 := length_natBytes _ _
  subst h
  rw [wordAt, if_pos (by simp [hword]), List.append_assoc, List.drop_left,
    List.take_left' hword, ofBytes_word]

theorem wordAt_encodeWords {ws : List (BitVec 256)} {rest : List Byte} {k : Nat}
    (h : k < ws.length) : wordAt (encodeWords ws ++ rest) (32 * k) = some ws[k] := by
  have hsplit : encodeWords ws ++ rest =
      encodeWords (ws.take k) ++ beBytes ws[k] ++ (encodeWords (ws.drop (k + 1)) ++ rest) := by
    have hws : ws = ws.take k ++ ws[k] :: ws.drop (k + 1) := by
      rw [← List.drop_eq_getElem_cons h, List.take_append_drop]
    conv_lhs => rw [hws, encodeWords_append, encodeWords_cons]
    simp only [List.append_assoc]
  rw [hsplit]
  refine wordAt_append _ ?_
  rw [length_encodeWords, List.length_take]
  omega

theorem narrow_of_lt {w : Nat} {x : BitVec 256} (h : x.toNat < 2 ^ w) :
    narrow w x = some (x.setWidth w) :=
  if_pos h

theorem narrow_setWidth {w : Nat} (hw : w ≤ 256) (y : BitVec w) :
    narrow w (y.setWidth 256) = some y := by
  have hlt : (y.setWidth 256).toNat < 2 ^ w := by
    rw [BitVec.toNat_setWidth]
    exact lt_of_le_of_lt (Nat.mod_le _ _) y.isLt
  rw [narrow_of_lt hlt, BitVec.setWidth_setWidth_of_le _ hw, BitVec.setWidth_eq]

theorem bytesAt_encodeWordBytes (x : BitVec 256) (b : Calldata) :
    bytesAt (encodeWordBytes x b) 64 = some b.1 := by
  obtain ⟨b, hb⟩ := b
  obtain ⟨n, hn⟩ : ∃ n, n = BitVec.ofNat 256 b.length := ⟨_, rfl⟩
  have hvalue : n.toNat = b.length := by
    rw [hn, BitVec.toNat_ofNat]
    exact Nat.mod_eq_of_lt (hb.trans (by decide))
  have hlength : wordAt (encodeWordBytes x b) 64 = some n := by
    rw [hn]
    exact wordAt_encodeWords (k := 2) (by simp)
  have hsmall : (n.setWidth 64).toNat = b.length := by
    rw [BitVec.toNat_setWidth, hvalue]
    exact Nat.mod_eq_of_lt hb
  have hdrop : (encodeWordBytes x b).drop 96 = pad b := by
    rw [encodeWordBytes, List.drop_left']
    simp
  have hlen : (encodeWordBytes x b).length = 96 + (pad b).length := by
    simp [encodeWordBytes]
  have hpad : b.length ≤ (pad b).length := by
    simp [pad]
  have hstart : narrow 64 (64 : BitVec 256) = some 64#64 := by decide
  have hoffset : (64#64).toNat = 64 := by decide
  rw [bytesAt, hstart]
  simp only [Option.bind_eq_bind, Option.bind_some]
  rw [hoffset, hlength, Option.bind_some, narrow_of_lt (hvalue ▸ hb), Option.bind_some, hsmall,
    if_pos (by omega), hdrop]
  simp [pad]

end Ubi2.Lib.Abi
