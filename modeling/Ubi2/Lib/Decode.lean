import Ubi2.Lib.Encode

namespace Ubi2.Lib.Decode

open Encode

variable {ε α β : Type*}

-- A reader takes a value off the front of a byte string, or fails.
abbrev Reader (ε α : Type*) := List Byte → Except ε (α × List Byte)

-- The reader accepts exactly the encodings of the values of `P`.
def Reads (P : α → Prop) (enc : α → List Byte) (read : Reader ε α) : Prop :=
  ∀ ⦃b : List Byte⦄ ⦃a : α⦄ ⦃rest : List Byte⦄,
    read b = .ok (a, rest) ↔ P a ∧ b = enc a ++ rest

-- What a reader accepts exactly can be told apart from what follows it.
theorem Reads.delimits {P : α → Prop} {enc : α → List Byte} {read : Reader ε α}
    (h : Reads P enc read) : Delimits P enc := by
  intro a b s t ha hb heq
  have hread : read (enc a ++ s) = .ok (a, s) := h.mpr ⟨ha, rfl⟩
  have hread' : read (enc b ++ t) = .ok (b, t) := h.mpr ⟨hb, rfl⟩
  rw [heq, hread'] at hread
  cases hread
  exact ⟨rfl, rfl⟩

-- The number whose base-256 digits these are, the most significant first.
def ofBytes (b : List Byte) : Nat :=
  b.foldl (fun acc d => acc * 256 + d.toNat) 0

private theorem ofBytes_concat (b : List Byte) (d : Byte) :
    ofBytes (b ++ [d]) = ofBytes b * 256 + d.toNat := by
  simp [ofBytes, List.foldl_append]

theorem ofBytes_lt (b : List Byte) : ofBytes b < 256 ^ b.length := by
  induction b using List.reverseRecOn with
  | nil => decide
  | append_singleton b d ih =>
    have hd := d.isLt
    rw [ofBytes_concat, List.length_append, List.length_singleton, Nat.pow_succ]
    omega

theorem natBytes_ofBytes (b : List Byte) : natBytes b.length (ofBytes b) = b := by
  induction b using List.reverseRecOn with
  | nil => rfl
  | append_singleton b d ih =>
    have hd := d.isLt
    have hdiv : (ofBytes b * 256 + d.toNat) / 256 = ofBytes b := by omega
    have hmod : BitVec.ofNat 8 (ofBytes b * 256 + d.toNat) = d := by
      apply BitVec.eq_of_toNat_eq
      rw [BitVec.toNat_ofNat]
      omega
    rw [ofBytes_concat, List.length_append, List.length_singleton, natBytes, hdiv, hmod, ih]

theorem ofBytes_natBytes {n v : Nat} (h : v < 256 ^ n) : ofBytes (natBytes n v) = v := by
  have hlt := ofBytes_lt (natBytes n v)
  have hback := natBytes_ofBytes (natBytes n v)
  rw [length_natBytes] at hlt hback
  exact natBytes_inj hlt h hback

-- The next `n` bytes.
def takeBytes (eof : ε) (n : Nat) : Reader ε (List Byte) := fun b =>
  if b.length < n then .error eof else .ok (b.take n, b.drop n)

theorem takeBytes_ok_iff {eof : ε} {n : Nat} {b x rest : List Byte} :
    takeBytes eof n b = .ok (x, rest) ↔ x.length = n ∧ b = x ++ rest := by
  unfold takeBytes
  split_ifs with hlt
  · constructor
    · intro h
      cases h
    · rintro ⟨hlen, rfl⟩
      rw [List.length_append] at hlt
      omega
  · constructor
    · intro h
      cases h
      exact ⟨by rw [List.length_take]; omega, (List.take_append_drop n b).symm⟩
    · rintro ⟨rfl, rfl⟩
      simp

-- One value after another.
def andThen (read : Reader ε α) (next : α → Reader ε β) : Reader ε β := fun b =>
  match read b with
  | .error e => .error e
  | .ok (a, rest) => next a rest

theorem andThen_ok_iff {read : Reader ε α} {next : α → Reader ε β} {b rest : List Byte}
    {y : β} :
    andThen read next b = .ok (y, rest) ↔
      ∃ a mid, read b = .ok (a, mid) ∧ next a mid = .ok (y, rest) := by
  unfold andThen
  cases hread : read b with
  | error e => simp
  | ok p =>
    obtain ⟨a, mid⟩ := p
    simp

def succeed (a : α) : Reader ε α := fun b => .ok (a, b)

theorem succeed_ok_iff {a x : α} {b rest : List Byte} :
    (succeed a : Reader ε α) b = .ok (x, rest) ↔ a = x ∧ b = rest := by
  simp [succeed]

-- What is made of bytes that have been read.
def ofExcept (r : Except ε α) : Reader ε α := fun b => r.map fun a => (a, b)

theorem ofExcept_ok_iff {r : Except ε α} {x : α} {b rest : List Byte} :
    ofExcept r b = .ok (x, rest) ↔ r = .ok x ∧ b = rest := by
  cases r <;> simp [ofExcept, Except.map]

-- A number of `n` bytes.
def natOf (eof : ε) (n : Nat) : Reader ε Nat :=
  andThen (takeBytes eof n) fun x => succeed (ofBytes x)

theorem natOf_ok_iff {eof : ε} {n v : Nat} {b rest : List Byte} :
    natOf eof n b = .ok (v, rest) ↔ v < 256 ^ n ∧ b = natBytes n v ++ rest := by
  simp only [natOf, andThen_ok_iff, takeBytes_ok_iff, succeed_ok_iff]
  constructor
  · rintro ⟨x, mid, ⟨rfl, rfl⟩, rfl, rfl⟩
    exact ⟨ofBytes_lt x, by rw [natBytes_ofBytes]⟩
  · rintro ⟨hv, rfl⟩
    exact ⟨natBytes n v, rest, ⟨length_natBytes n v, rfl⟩, ofBytes_natBytes hv, rfl⟩

-- A word whose width is a whole number of bytes.
def word (eof : ε) (w : Nat) : Reader ε (BitVec w) :=
  andThen (natOf eof (w / 8)) fun v => succeed (BitVec.ofNat w v)

theorem word_ok_iff {eof : ε} {w : Nat} (hw : 8 ∣ w) {b rest : List Byte} {x : BitVec w} :
    word eof w b = .ok (x, rest) ↔ b = beBytes x ++ rest := by
  have hpow : 256 ^ (w / 8) = 2 ^ w := by
    obtain ⟨n, rfl⟩ := hw
    rw [Nat.mul_div_cancel_left n (by decide), Nat.pow_mul]
  simp only [word, andThen_ok_iff, succeed_ok_iff]
  constructor
  · rintro ⟨v, mid, hnat, rfl, rfl⟩
    obtain ⟨hv, rfl⟩ := natOf_ok_iff.mp hnat
    rw [beBytes, BitVec.toNat_ofNat, Nat.mod_eq_of_lt (hpow ▸ hv)]
  · rintro rfl
    refine ⟨x.toNat, rest, natOf_ok_iff.mpr ⟨hpow ▸ x.isLt, rfl⟩, ?_, rfl⟩
    rw [BitVec.ofNat_toNat, BitVec.setWidth_eq]

-- So many values in a row.
def times (read : Reader ε α) : Nat → Reader ε (List α)
  | 0 => succeed []
  | n + 1 => andThen read fun a => andThen (times read n) fun l => succeed (a :: l)

theorem times_ok_iff {P : α → Prop} {enc : α → List Byte} {read : Reader ε α}
    (hread : Reads P enc read) {n : Nat} {b rest : List Byte} {l : List α} :
    times read n b = .ok (l, rest) ↔
      l.length = n ∧ (∀ a ∈ l, P a) ∧ b = l.flatMap enc ++ rest := by
  induction n generalizing b l with
  | zero =>
    rw [times, succeed_ok_iff]
    constructor
    · rintro ⟨rfl, rfl⟩
      simp
    · rintro ⟨hlen, -, rfl⟩
      have hnil := List.length_eq_zero_iff.mp hlen
      subst hnil
      exact ⟨rfl, rfl⟩
  | succ n ih =>
    simp only [times, andThen_ok_iff, succeed_ok_iff]
    constructor
    · rintro ⟨a, mid, ha, l', mid', hl, rfl, rfl⟩
      obtain ⟨hP, rfl⟩ := hread.mp ha
      obtain ⟨hlen, hall, rfl⟩ := ih.mp hl
      refine ⟨by simp [hlen], ?_, by simp⟩
      intro x hx
      rcases List.mem_cons.mp hx with rfl | hx
      · exact hP
      · exact hall x hx
    · rintro ⟨hlen, hall, rfl⟩
      cases l with
      | nil => simp at hlen
      | cons a l =>
        have htail : times read n (l.flatMap enc ++ rest) = .ok (l, rest) :=
          ih.mpr ⟨by simpa using hlen, fun x hx => hall x (List.mem_cons_of_mem a hx), rfl⟩
        refine ⟨a, l.flatMap enc ++ rest, hread.mpr ⟨hall a (by simp), by simp⟩, ?_⟩
        exact ⟨l, rest, htail, rfl, rfl⟩

-- Nothing may follow.
def finish (trailing : ε) : Reader ε Unit := fun b =>
  if b = [] then .ok ((), b) else .error trailing

-- A value that is a whole byte string.
def whole (trailing : ε) (read : Reader ε α) (b : List Byte) : Except ε α :=
  match read b with
  | .error e => .error e
  | .ok (a, rest) => if rest = [] then .ok a else .error trailing

theorem whole_ok_iff {trailing : ε} {read : Reader ε α} {b : List Byte} {a : α} :
    whole trailing read b = .ok a ↔ read b = .ok (a, []) := by
  unfold whole
  cases hread : read b with
  | error e => simp
  | ok p =>
    obtain ⟨x, rest⟩ := p
    by_cases hrest : rest = []
    · simp [hrest]
    · simp [hrest]

end Ubi2.Lib.Decode
