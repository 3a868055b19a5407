import Ubi2.Lib.Cursor
import Ubi2.Exec.EffectCodec

namespace Ubi2.Exec

open Ubi2.Runtime Ubi2.Lib Ubi2.Lib.Encode Ubi2.Lib.Decode

-- The decoder as it goes over its cursor, with what it makes of a reason to fail.
section Cursor

variable {ε : Type} (bad : String → ε)

def scanWord (w : Nat) : Scan ε (BitVec w) := Scan.word (Scan.take (bad END_OF_BLOB)) w

def scanFields (tag : U8) : Scan ε Op :=
  if tag = TAG_TRANSFER then do
    let to_ ← scanWord bad 160
    let amount ← scanWord bad 128
    return .Transfer to_ amount
  else if tag = TAG_REFUND then do
    let party ← scanWord bad 160
    let amount ← scanWord bad 128
    return .Refund party amount
  else if tag = TAG_OPEN_STREAM then do
    let to_ ← scanWord bad 160
    let rate ← scanWord bad 128
    let deposit ← scanWord bad 128
    return .OpenStream to_ rate deposit
  else if tag = TAG_STOP_STREAM then do
    let id ← Scan.natOf (Scan.take (bad END_OF_BLOB)) 8
    return .StopStream id
  else if tag = TAG_SET_VAR then do
    let key ← scanWord bad 256
    let value ← scanWord bad 256
    return .SetVar key value
  else if tag = TAG_ABORT then do
    let reasonHash ← scanWord bad 256
    return .Abort reasonHash
  else Scan.fail (bad "unknown op tag")

def scanOp : Scan ε Op := do
  let tag ← scanWord bad 8
  scanFields bad tag

-- Whether the cursor is empty.
def scanEnd : Scan ε Unit := fun c =>
  if c.buf.length ≤ c.pos then some (.ok ((), c))
  else some (.error (bad "trailing bytes after ops"))

def scanOps (blobLength : Nat) : Scan ε (List Op) := do
  let count ← Scan.natOf (Scan.take (bad END_OF_BLOB)) 4
  if blobLength < count then Scan.fail (bad "op count exceeds blob length")
  else Scan.times (scanOp bad) count

-- `none` is a panic.
def decodeEffectWith (blob : Bytes) : Option (Except ε CanonicalEffect) :=
  (Scan.run (do
    let ops ← scanOps bad blob.length
    scanEnd bad
    return ops) blob).map fun r => r.map .new

variable {limit : Nat}

theorem follows_scanWord (w : Nat) : Scan.Follows limit bad (scanWord bad w) (readWord w) :=
  Scan.Follows.word (Scan.Follows.take END_OF_BLOB (w / 8))

theorem follows_scanFields (tag : U8) :
    Scan.Follows limit bad (scanFields bad tag) (readFields tag) := by
  have word : ∀ w, Scan.Follows limit bad (scanWord bad w) (readWord w) := follows_scanWord bad
  unfold scanFields readFields
  refine .ite (fun _ => ?_) fun _ => .ite (fun _ => ?_) fun _ => .ite (fun _ => ?_) fun _ =>
    .ite (fun _ => ?_) fun _ => .ite (fun _ => ?_) fun _ => .ite (fun _ => ?_) fun _ => ?_
  · exact (word 160).bind fun _ => (word 128).bind fun _ => .pure _
  · exact (word 160).bind fun _ => (word 128).bind fun _ => .pure _
  · exact (word 160).bind fun _ => (word 128).bind fun _ => (word 128).bind fun _ => .pure _
  · exact (Scan.Follows.natOf (.take END_OF_BLOB 8)).bind fun _ => .pure _
  · exact (word 256).bind fun _ => (word 256).bind fun _ => .pure _
  · exact (word 256).bind fun _ => .pure _
  · exact .fail "unknown op tag"

theorem follows_scanOp : Scan.Follows limit bad (scanOp bad) readOp :=
  (follows_scanWord bad 8).bind (follows_scanFields bad)

theorem follows_scanEnd :
    Scan.Follows limit bad (scanEnd bad) (finish "trailing bytes after ops") := by
  have hfinish : Scan.Follows limit bad (Scan.finish (bad "trailing bytes after ops"))
      (finish "trailing bytes after ops") := .finish _
  have hsame : ∀ c : Cursor, c.Within limit →
      scanEnd bad c = Scan.finish (bad "trailing bytes after ops") c := by
    intro c hc
    have hpos := hc.pos
    unfold scanEnd Scan.finish
    split_ifs with hlast hall hall
    · rfl
    · omega
    · omega
    · rfl
  refine ⟨?_, ?_⟩
  · intro c a rest hc h
    rw [hsame c hc]
    exact hfinish.ok hc h
  · intro c e hc h
    rw [hsame c hc]
    exact hfinish.error hc h

-- The operations of a blob of so many bytes.
def readOps (blobLength : Nat) : Reader String (List Op) :=
  andThen (natOf END_OF_BLOB 4) fun count =>
    if blobLength < count then fun _ => .error "op count exceeds blob length"
    else times readOp count

theorem decodeEffect_eq (blob : Bytes) :
    decodeEffect blob =
      (whole "trailing bytes after ops" (readOps blob.length) blob).map .new := by
  unfold decodeEffect whole readOps andThen
  cases natOf END_OF_BLOB 4 blob with
  | error e => rfl
  | ok p =>
    dsimp only
    split_ifs
    · rfl
    · cases times readOp p.1 p.2 with
      | error e => rfl
      | ok q =>
        dsimp only
        split_ifs <;> rfl

-- The decoder never panics, and does to the bytes what the readers do.
theorem decodeEffectWith_eq (blob : Bytes) :
    decodeEffectWith bad blob = some ((decodeEffect blob).mapError bad) := by
  have hops : Scan.Follows blob.length bad (scanOps bad blob.length) (readOps blob.length) :=
    (Scan.Follows.natOf (.take END_OF_BLOB 4)).bind fun count =>
      .ite (fun _ => .fail _) fun _ => .times (follows_scanOp bad) count
  have hrun := hops.run_whole (follows_scanEnd bad) (le_refl blob.length)
  unfold decodeEffectWith
  rw [decodeEffect_eq]
  refine (congrArg (Option.map fun r => Except.map CanonicalEffect.new r) hrun).trans ?_
  cases whole "trailing bytes after ops" (readOps blob.length) blob with
  | error e => rfl
  | ok ops => rfl

end Cursor

-- The decoder of the crate, which fails with the reason itself.
def decodeEffectBytes (blob : Bytes) : Option (Except String CanonicalEffect) :=
  decodeEffectWith id blob

theorem decodeEffectBytes_eq (blob : Bytes) :
    decodeEffectBytes blob = some (decodeEffect blob) := by
  rw [decodeEffectBytes, decodeEffectWith_eq]
  cases decodeEffect blob <;> rfl

-- An effect with the digest of its operations, their stream ids of 64 bits.
def Canonical (e : CanonicalEffect) : Prop := e = .new e.ops ∧ ∀ op ∈ e.ops, Fits op

theorem canonical_new {ops : List Op} (h : ∀ op ∈ ops, Fits op) : Canonical (.new ops) :=
  ⟨rfl, h⟩

theorem decodeEffectBytes_ok_iff {blob : Bytes} {e : CanonicalEffect} :
    decodeEffectBytes blob = some (.ok e) ↔
      Canonical e ∧ e.ops.length < 2 ^ 32 ∧ blob = encodeEffect e := by
  rw [decodeEffectBytes_eq, Option.some.injEq, decodeEffect_ok_iff]
  constructor
  · rintro ⟨hnew, hlen, hfits, hblob⟩
    exact ⟨⟨hnew, hfits⟩, hlen, hblob⟩
  · rintro ⟨⟨hnew, hfits⟩, hlen, hblob⟩
    exact ⟨hnew, hlen, hfits, hblob⟩

-- Effects of any number of operations are told apart by their encodings.
theorem encodeEffect_injective {e e' : CanonicalEffect} (h : Canonical e) (h' : Canonical e')
    (heq : encodeEffect e = encodeEffect e') : e = e' := by
  have hbytes : e.ops.flatMap Op.encode = e'.ops.flatMap Op.encode :=
    (List.append_inj heq (by rw [length_natBytes, length_natBytes])).2
  have hops : e.ops = e'.ops :=
    reads_readOp.delimits.flatMap_injective (fun _ => List.cons_ne_nil _ _) h.2 h'.2 hbytes
  rw [h.1, h'.1, hops]

end Ubi2.Exec
