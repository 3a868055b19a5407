import Ubi2.Lib.Decode
import Ubi2.Runtime.Effect

namespace Ubi2.Exec

open Ubi2.Runtime Ubi2.Lib Ubi2.Lib.Decode Ubi2.Lib.Encode

def TAG_TRANSFER : U8 := 0#8
def TAG_REFUND : U8 := 1#8
def TAG_OPEN_STREAM : U8 := 2#8
def TAG_STOP_STREAM : U8 := 3#8
def TAG_SET_VAR : U8 := 4#8
def TAG_ABORT : U8 := 5#8

def END_OF_BLOB : String := "unexpected end of ops blob"

def readWord (w : Nat) : Reader String (BitVec w) := word END_OF_BLOB w

-- The fields of an operation, by its tag.
def readFields (tag : U8) : Reader String Op :=
  if tag = TAG_TRANSFER then
    andThen (readWord 160) fun to_ => andThen (readWord 128) fun amount =>
      succeed (.Transfer to_ amount)
  else if tag = TAG_REFUND then
    andThen (readWord 160) fun party => andThen (readWord 128) fun amount =>
      succeed (.Refund party amount)
  else if tag = TAG_OPEN_STREAM then
    andThen (readWord 160) fun to_ => andThen (readWord 128) fun rate =>
      andThen (readWord 128) fun deposit => succeed (.OpenStream to_ rate deposit)
  else if tag = TAG_STOP_STREAM then
    andThen (natOf END_OF_BLOB 8) fun id => succeed (.StopStream id)
  else if tag = TAG_SET_VAR then
    andThen (readWord 256) fun key => andThen (readWord 256) fun value =>
      succeed (.SetVar key value)
  else if tag = TAG_ABORT then
    andThen (readWord 256) fun reasonHash => succeed (.Abort reasonHash)
  else fun _ => .error "unknown op tag"

def readOp : Reader String Op := andThen (readWord 8) readFields

def encodeEffect (effect : CanonicalEffect) : Bytes := effect.encode

def decodeEffect (blob : Bytes) : Except String CanonicalEffect :=
  match natOf END_OF_BLOB 4 blob with
  | .error e => .error e
  | .ok (count, rest) =>
    if blob.length < count then .error "op count exceeds blob length"
    else
      match times readOp count rest with
      | .error e => .error e
      | .ok (ops, rest) =>
        if rest = [] then .ok (.new ops) else .error "trailing bytes after ops"

-- A stream id is a 64-bit number.
def Fits : Op → Prop
  | .StopStream id => id < 256 ^ 8
  | _ => True

section Fields

variable {b rest : Bytes}

theorem readWord8_ok_iff {x : U8} : readWord 8 b = .ok (x, rest) ↔ b = x :: rest := by
  rw [readWord, word_ok_iff (by decide)]
  simp [beBytes, natBytes]

theorem readWord128_ok_iff {x : U128} :
    readWord 128 b = .ok (x, rest) ↔ b = beBytes x ++ rest := word_ok_iff (by decide)

theorem readWord160_ok_iff {x : Address} :
    readWord 160 b = .ok (x, rest) ↔ b = beBytes x ++ rest := word_ok_iff (by decide)

theorem readWord256_ok_iff {x : Hash} :
    readWord 256 b = .ok (x, rest) ↔ b = beBytes x ++ rest := word_ok_iff (by decide)

-- What a tag and the bytes behind it are read as.
theorem readFields_ok {tag : U8} {op : Op} (h : readFields tag b = .ok (op, rest)) :
    Fits op ∧ tag :: b = op.encode ++ rest := by
  unfold readFields at h
  split_ifs at h with htransfer hrefund hopen hstop hset habort
  all_goals
    simp only [andThen_ok_iff, readWord128_ok_iff, readWord160_ok_iff, readWord256_ok_iff,
      natOf_ok_iff, succeed_ok_iff] at h
  · obtain ⟨to_, mid, hto, amount, mid', hamount, rfl, rfl⟩ := h
    rw [htransfer, hto, hamount]
    exact ⟨trivial, by simp [Op.encode, Op.tag, TAG_TRANSFER]⟩
  · obtain ⟨party, mid, hparty, amount, mid', hamount, rfl, rfl⟩ := h
    rw [hrefund, hparty, hamount]
    exact ⟨trivial, by simp [Op.encode, Op.tag, TAG_REFUND]⟩
  · obtain ⟨to_, mid, hto, rate, mid', hrate, deposit, mid'', hdeposit, rfl, rfl⟩ := h
    rw [hopen, hto, hrate, hdeposit]
    exact ⟨trivial, by simp [Op.encode, Op.tag, TAG_OPEN_STREAM]⟩
  · obtain ⟨id, mid, ⟨hid, hbytes⟩, rfl, rfl⟩ := h
    rw [hstop, hbytes]
    exact ⟨hid, by simp [Op.encode, Op.tag, TAG_STOP_STREAM]⟩
  · obtain ⟨key, mid, hkey, value, mid', hvalue, rfl, rfl⟩ := h
    rw [hset, hkey, hvalue]
    exact ⟨trivial, by simp [Op.encode, Op.tag, TAG_SET_VAR]⟩
  · obtain ⟨reasonHash, mid, hreason, rfl, rfl⟩ := h
    rw [habort, hreason]
    exact ⟨trivial, by simp [Op.encode, Op.tag, TAG_ABORT]⟩

theorem readOp_encode {op : Op} (h : Fits op) : readOp (op.encode ++ rest) = .ok (op, rest) := by
  unfold readOp
  refine andThen_ok_iff.mpr ⟨op.tag, _, readWord8_ok_iff.mpr rfl, ?_⟩
  cases op with
  | Transfer to_ amount =>
    dsimp only [readFields, Op.tag]
    rw [if_pos (by decide)]
    refine andThen_ok_iff.mpr ⟨to_, beBytes amount ++ rest, ?_, ?_⟩
    · exact readWord160_ok_iff.mpr (List.append_assoc _ _ _)
    · exact andThen_ok_iff.mpr ⟨amount, rest, readWord128_ok_iff.mpr rfl, rfl⟩
  | Refund party amount =>
    dsimp only [readFields, Op.tag]
    rw [if_neg (by decide), if_pos (by decide)]
    refine andThen_ok_iff.mpr ⟨party, beBytes amount ++ rest, ?_, ?_⟩
    · exact readWord160_ok_iff.mpr (List.append_assoc _ _ _)
    · exact andThen_ok_iff.mpr ⟨amount, rest, readWord128_ok_iff.mpr rfl, rfl⟩
  | OpenStream to_ rate deposit =>
    dsimp only [readFields, Op.tag]
    rw [if_neg (by decide), if_neg (by decide), if_pos (by decide)]
    refine andThen_ok_iff.mpr ⟨to_, beBytes rate ++ (beBytes deposit ++ rest), ?_, ?_⟩
    · exact readWord160_ok_iff.mpr (by
        rw [← List.append_assoc, ← List.append_assoc, List.append_assoc (beBytes to_)]
        rfl)
    · refine andThen_ok_iff.mpr ⟨rate, beBytes deposit ++ rest, readWord128_ok_iff.mpr rfl, ?_⟩
      exact andThen_ok_iff.mpr ⟨deposit, rest, readWord128_ok_iff.mpr rfl, rfl⟩
  | StopStream id =>
    dsimp only [readFields, Op.tag]
    rw [if_neg (by decide), if_neg (by decide), if_neg (by decide), if_pos (by decide)]
    exact andThen_ok_iff.mpr ⟨id, rest, natOf_ok_iff.mpr ⟨h, rfl⟩, rfl⟩
  | SetVar key value =>
    dsimp only [readFields, Op.tag]
    rw [if_neg (by decide), if_neg (by decide), if_neg (by decide), if_neg (by decide),
      if_pos (by decide)]
    refine andThen_ok_iff.mpr ⟨key, beBytes value ++ rest, ?_, ?_⟩
    · exact readWord256_ok_iff.mpr (List.append_assoc _ _ _)
    · exact andThen_ok_iff.mpr ⟨value, rest, readWord256_ok_iff.mpr rfl, rfl⟩
  | Abort reasonHash =>
    dsimp only [readFields, Op.tag]
    rw [if_neg (by decide), if_neg (by decide), if_neg (by decide), if_neg (by decide),
      if_neg (by decide), if_pos (by decide)]
    exact andThen_ok_iff.mpr ⟨reasonHash, rest, readWord256_ok_iff.mpr rfl, rfl⟩

end Fields

theorem reads_readOp : Reads Fits Op.encode readOp := by
  intro b op rest
  constructor
  · intro h
    obtain ⟨tag, mid, htag, hfields⟩ := andThen_ok_iff.mp h
    rw [readWord8_ok_iff.mp htag]
    exact readFields_ok hfields
  · rintro ⟨hfits, rfl⟩
    exact readOp_encode hfits

private theorem length_le_flatMap_encode (ops : List Op) :
    ops.length ≤ (ops.flatMap Op.encode).length := by
  induction ops with
  | nil => exact Nat.le_refl 0
  | cons op ops ih =>
    simp only [List.flatMap_cons, List.length_append, List.length_cons, Op.encode]
    omega

-- The blobs that are admitted are the canonical encodings of op lists, and each is
-- decoded to the effect of its list, with the digest computed here.
theorem decodeEffect_ok_iff {blob : Bytes} {e : CanonicalEffect} :
    decodeEffect blob = .ok e ↔
      e = .new e.ops ∧ e.ops.length < 256 ^ 4 ∧ (∀ op ∈ e.ops, Fits op) ∧
        blob = encodeEffect e := by
  unfold decodeEffect
  constructor
  · intro h
    cases hcount : natOf END_OF_BLOB 4 blob with
    | error e => simp [hcount] at h
    | ok p =>
      obtain ⟨count, mid⟩ := p
      obtain ⟨hlt, hblob⟩ := natOf_ok_iff.mp hcount
      cases hops : times readOp count mid with
      | error e =>
        simp only [hcount, hops] at h
        split_ifs at h
      | ok q =>
        obtain ⟨ops, rest⟩ := q
        obtain ⟨hlen, hfits, hmid⟩ := (times_ok_iff reads_readOp).mp hops
        simp only [hcount, hops] at h
        split_ifs at h with hlong hrest
        cases h
        subst hlen hrest
        exact ⟨rfl, hlt, hfits, by rw [hblob, hmid, List.append_nil]; rfl⟩
  · rintro ⟨he, hlt, hfits, rfl⟩
    have hcount : natOf END_OF_BLOB 4 (encodeEffect e) =
        .ok (e.ops.length, e.ops.flatMap Op.encode) := natOf_ok_iff.mpr ⟨hlt, rfl⟩
    have hops : times readOp e.ops.length (e.ops.flatMap Op.encode) = .ok (e.ops, []) :=
      (times_ok_iff reads_readOp).mpr ⟨rfl, hfits, (List.append_nil _).symm⟩
    have hlong : ¬ (encodeEffect e).length < e.ops.length := by
      have hle := length_le_flatMap_encode e.ops
      simp only [encodeEffect, CanonicalEffect.encode, encodeOps, List.length_append]
      omega
    simp only [hcount, hops, if_neg hlong, if_true]
    rw [← he]

-- Every list of operations that fits is admitted.
theorem admitted_new {ops : List Op} (hlen : ops.length < 256 ^ 4)
    (hfits : ∀ op ∈ ops, Fits op) : ∃ blob, decodeEffect blob = .ok (.new ops) :=
  ⟨_, decodeEffect_ok_iff.mpr ⟨rfl, hlen, hfits, rfl⟩⟩

end Ubi2.Exec
