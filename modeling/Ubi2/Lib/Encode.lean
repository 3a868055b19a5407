import Ubi2.Lib.Word

namespace Ubi2.Lib.Encode

abbrev Byte := BitVec 8

-- The last `n` base-256 digits of a number, the most significant first.
def natBytes : Nat → Nat → List Byte
  | 0, _ => []
  | n + 1, v => natBytes n (v / 256) ++ [BitVec.ofNat 8 v]

-- The big-endian bytes of a word whose width is a whole number of bytes.
def beBytes {w : Nat} (x : BitVec w) : List Byte :=
  natBytes (w / 8) x.toNat

-- A list behind its length as a 64-bit count.
def counted {α : Type*} (enc : α → List Byte) (l : List α) : List Byte :=
  natBytes 8 l.length ++ l.flatMap enc

-- A byte string behind its length.
def lenPrefixed (b : List Byte) : List Byte :=
  natBytes 8 b.length ++ b

@[simp] theorem length_natBytes (n v : Nat) : (natBytes n v).length = n := by
  induction n generalizing v with
  | zero => rfl
  | succ n ih => simp [natBytes, ih]

-- The digits of a number over the digits of a remainder.
theorem natBytes_add {m n u v : Nat} (hv : v < 256 ^ n) :
    natBytes (m + n) (u * 256 ^ n + v) = natBytes m u ++ natBytes n v := by
  induction n generalizing v with
  | zero =>
    have hzero : v = 0 := by omega
    simp [hzero, natBytes]
  | succ n ih =>
    have hdiv : (u * 256 ^ (n + 1) + v) / 256 = u * 256 ^ n + v / 256 := by
      rw [Nat.pow_succ, ← Nat.mul_assoc]
      omega
    have hmod : BitVec.ofNat 8 (u * 256 ^ (n + 1) + v) = BitVec.ofNat 8 v := by
      apply BitVec.eq_of_toNat_eq
      rw [BitVec.toNat_ofNat, BitVec.toNat_ofNat, Nat.pow_succ, ← Nat.mul_assoc]
      omega
    have hlt : v / 256 < 256 ^ n := by
      rw [Nat.pow_succ] at hv
      omega
    rw [← Nat.add_assoc, natBytes, hdiv, hmod, ih hlt, List.append_assoc]
    rfl

theorem beBytes_append {m n : Nat} (hm : 8 ∣ m) (hn : 8 ∣ n) (x : BitVec m) (y : BitVec n) :
    beBytes (x ++ y) = beBytes x ++ beBytes y := by
  obtain ⟨m, rfl⟩ := hm
  obtain ⟨n, rfl⟩ := hn
  have hpow : 256 ^ n = 2 ^ (8 * n) := by
    rw [Nat.pow_mul]
  have hvalue : (x ++ y).toNat = x.toNat * 256 ^ n + y.toNat := by
    rw [BitVec.toNat_append, ← Nat.shiftLeft_add_eq_or_of_lt y.isLt, Nat.shiftLeft_eq, hpow]
  rw [beBytes, beBytes, beBytes, hvalue, ← Nat.mul_add, Nat.mul_div_cancel_left _ (by decide),
    Nat.mul_div_cancel_left _ (by decide), Nat.mul_div_cancel_left _ (by decide)]
  exact natBytes_add (hpow ▸ y.isLt)

theorem natBytes_inj {n v v' : Nat} (hv : v < 256 ^ n) (hv' : v' < 256 ^ n)
    (h : natBytes n v = natBytes n v') : v = v' := by
  induction n generalizing v v' with
  | zero =>
    rw [Nat.pow_zero] at hv hv'
    omega
  | succ n ih =>
    rw [natBytes, natBytes] at h
    obtain ⟨hhigh, hlow⟩ := List.append_inj h (by simp)
    rw [Nat.pow_succ] at hv hv'
    have hdiv : v / 256 = v' / 256 :=
      ih (by omega) (by omega) hhigh
    have hmod : v % 256 = v' % 256 := by
      have := congrArg (List.map BitVec.toNat) hlow
      simpa using this
    omega

-- An encoder is self-delimiting on `P` when the encoding of a value of `P` can be
-- told apart from whatever follows it.
def Delimits {α : Type*} (P : α → Prop) (enc : α → List Byte) : Prop :=
  ∀ ⦃a b : α⦄ ⦃s t : List Byte⦄,
    P a → P b → enc a ++ s = enc b ++ t → a = b ∧ s = t

namespace Delimits

variable {α : Type*} {P : α → Prop} {enc : α → List Byte}

-- An encoder of one fixed length only has to be injective.
theorem of_length {n : Nat} (hlen : ∀ a, (enc a).length = n)
    (hinj : ∀ a b, P a → P b → enc a = enc b → a = b) : Delimits P enc := by
  intro a b s t ha hb h
  obtain ⟨henc, hrest⟩ := List.append_inj h ((hlen a).trans (hlen b).symm)
  exact ⟨hinj a b ha hb henc, hrest⟩

theorem natBytes (n : Nat) : Delimits (fun v => v < 256 ^ n) (natBytes n) :=
  of_length (length_natBytes n) fun _ _ ha hb h => natBytes_inj ha hb h

theorem beBytes {w : Nat} (hw : 8 ∣ w) :
    Delimits (fun _ => True) (beBytes : BitVec w → List Byte) := by
  have hpow : 2 ^ w = 256 ^ (w / 8) := by
    obtain ⟨n, rfl⟩ := hw
    rw [Nat.mul_div_cancel_left n (by decide), Nat.pow_mul]
  refine of_length (n := w / 8) (fun x => length_natBytes _ _) ?_
  intro x y _ _ h
  exact BitVec.eq_of_toNat_eq
    (natBytes_inj (hpow ▸ x.isLt) (hpow ▸ y.isLt) h)

private theorem flatMap_inj (h : Delimits P enc) {l m : List α} {s t : List Byte}
    (hl : ∀ a ∈ l, P a) (hm : ∀ a ∈ m, P a) (hlen : l.length = m.length)
    (heq : l.flatMap enc ++ s = m.flatMap enc ++ t) : l = m ∧ s = t := by
  induction l generalizing m with
  | nil =>
    cases m with
    | nil => exact ⟨rfl, heq⟩
    | cons b m => simp at hlen
  | cons a l ih =>
    cases m with
    | nil => simp at hlen
    | cons b m =>
      simp only [List.flatMap_cons, List.append_assoc] at heq
      obtain ⟨rfl, hrest⟩ := h (hl a (by simp)) (hm b (by simp)) heq
      obtain ⟨rfl, hst⟩ := ih (fun x hx => hl x (by simp [hx]))
        (fun x hx => hm x (by simp [hx])) (by simpa using hlen) hrest
      exact ⟨rfl, hst⟩

-- Items that each take a byte at least need no count: the bytes end where the list does.
theorem flatMap_injective (h : Delimits P enc) (hne : ∀ a, enc a ≠ []) {l m : List α}
    (hl : ∀ a ∈ l, P a) (hm : ∀ a ∈ m, P a) (heq : l.flatMap enc = m.flatMap enc) : l = m := by
  induction l generalizing m with
  | nil =>
    cases m with
    | nil => rfl
    | cons b m =>
      rw [List.flatMap_nil, List.flatMap_cons] at heq
      exact absurd (List.append_eq_nil_iff.mp heq.symm).1 (hne b)
  | cons a l ih =>
    cases m with
    | nil =>
      rw [List.flatMap_nil, List.flatMap_cons] at heq
      exact absurd (List.append_eq_nil_iff.mp heq).1 (hne a)
    | cons b m =>
      rw [List.flatMap_cons, List.flatMap_cons] at heq
      obtain ⟨rfl, hrest⟩ := h (hl a (by simp)) (hm b (by simp)) heq
      rw [ih (fun x hx => hl x (by simp [hx])) (fun x hx => hm x (by simp [hx])) hrest]

-- A count in front of the items delimits the whole list.
theorem counted (h : Delimits P enc) :
    Delimits (fun l : List α => l.length < 2 ^ 64 ∧ ∀ a ∈ l, P a)
      (counted enc) := by
  rintro l m s t ⟨hl, hlP⟩ ⟨hm, hmP⟩ heq
  simp only [Encode.counted, List.append_assoc] at heq
  obtain ⟨hlen, hrest⟩ := natBytes 8 (a := l.length) (b := m.length) hl hm heq
  exact flatMap_inj h hlP hmP hlen hrest

theorem lenPrefixed :
    Delimits (fun b : List Byte => b.length < 2 ^ 64) lenPrefixed := by
  intro b c s t hb hc heq
  simp only [Encode.lenPrefixed, List.append_assoc] at heq
  obtain ⟨hlen, hrest⟩ := natBytes 8 (a := b.length) (b := c.length) hb hc heq
  exact List.append_inj hrest hlen

end Delimits

end Ubi2.Lib.Encode
