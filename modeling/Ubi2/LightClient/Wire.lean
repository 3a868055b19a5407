import Ubi2.LightClient.Client
import Ubi2.Network.FrameCodec

namespace Ubi2.LightClient.Wire

open Ubi2.Runtime Ubi2.Lib Ubi2.Lib.Encode Ubi2.Lib.Decode

-- The codec of the page, whose byte arrays are of any length. A number is written modulo the
-- width of its field.
structure WireBlock where
  number : Nat
  parentHash : Bytes
  timestamp : Nat
  view : Nat
  txsRoot : Bytes
  stateRoot : Bytes
  proposer : Bytes
  proposerSig : Bytes
  txs : List Bytes
deriving DecidableEq

structure Hello where
  genesisHash : Bytes
  chainId : Nat
  tipHeight : Nat
  tipHash : Bytes
  validator : Option Bytes
  peerProof : Bytes
  protocolVer : Nat
deriving DecidableEq

structure GetBlocks where
  from_ : Nat
  to_ : Nat
deriving DecidableEq

inductive SyncRequest where
  | Hello (hello : Hello)
  | GetBlocks (getBlocks : GetBlocks)
  | GetGenesis
deriving DecidableEq

-- The blocks stay opaque. The genesis is the client's, with all of its fields.
inductive SyncResponse where
  | Hello (hello : Hello)
  | Blocks (blocks : List Bytes)
  | Genesis (genesis : Genesis)

structure SyncFrame where
  reqId : Nat
  resp : SyncResponse

def MAX_TX_BYTES : Nat := 128 * 1024
def MAX_BLOCK_BYTES : Nat := 8 * 1024 * 1024

-- A byte array behind its length as a 32-bit count.
def Writer.blob (b : Bytes) : Bytes := natBytes 4 b.length ++ b

namespace Reader

def take (n : Nat) : Decode.Reader String Bytes := takeBytes "wire: truncated" n

def uint (n : Nat) : Decode.Reader String Nat := natOf "wire: truncated" n

def blob (max : Nat) : Decode.Reader String Bytes :=
  andThen (uint 4) fun n =>
    if max < n then fun _ => .error s!"wire: blob too long ({n} > {max})" else take n

end Reader

-- A decoder goes over the whole of its bytes.
def decodeWhole {α : Type} (read : Decode.Reader String α) (buf : Bytes) : Except String α :=
  whole "wire: trailing bytes" read buf

def encodeWireBlock (b : WireBlock) : Bytes :=
  natBytes 8 b.number ++ b.parentHash ++ natBytes 8 b.timestamp ++ natBytes 4 b.view ++
    b.txsRoot ++ b.stateRoot ++ b.proposer ++ Writer.blob b.proposerSig ++
    natBytes 4 b.txs.length ++ b.txs.flatMap Writer.blob

def readTxs : Decode.Reader String (List Bytes) :=
  andThen (Reader.uint 4) fun count =>
    if MAX_BLOCK_BYTES / 4 < count then fun _ => .error "wire: too many txs"
    else times (Reader.blob MAX_TX_BYTES) count

def decodeWireBlock : Bytes → Except String WireBlock :=
  decodeWhole <|
    andThen (Reader.uint 8) fun number =>
    andThen (Reader.take 32) fun parentHash =>
    andThen (Reader.uint 8) fun timestamp =>
    andThen (Reader.uint 4) fun view =>
    andThen (Reader.take 32) fun txsRoot =>
    andThen (Reader.take 32) fun stateRoot =>
    andThen (Reader.take 20) fun proposer =>
    andThen (Reader.blob 65) fun proposerSig =>
    andThen readTxs fun txs =>
    succeed
      { number := number, parentHash := parentHash, timestamp := timestamp, view := view
        txsRoot := txsRoot, stateRoot := stateRoot, proposer := proposer
        proposerSig := proposerSig, txs := txs }

def encodeValidator : Option Bytes → Bytes
  | some a => 1#8 :: a
  | none => [0#8]

def encodeHello (h : Hello) : Bytes :=
  h.genesisHash ++ natBytes 8 h.chainId ++ natBytes 8 h.tipHeight ++ h.tipHash ++
    encodeValidator h.validator ++ Writer.blob h.peerProof ++ natBytes 2 h.protocolVer

def readValidator : Decode.Reader String (Option Bytes) :=
  andThen (Reader.uint 1) fun tag =>
    if tag = 1 then andThen (Reader.take 20) fun a => succeed (some a)
    else if tag ≠ 0 then fun _ => .error "wire: bad validator tag"
    else succeed none

def readHello : Decode.Reader String Hello :=
  andThen (Reader.take 32) fun genesisHash =>
  andThen (Reader.uint 8) fun chainId =>
  andThen (Reader.uint 8) fun tipHeight =>
  andThen (Reader.take 32) fun tipHash =>
  andThen readValidator fun validator =>
  andThen (Reader.blob 65) fun peerProof =>
  andThen (Reader.uint 2) fun protocolVer =>
  succeed
    { genesisHash := genesisHash, chainId := chainId, tipHeight := tipHeight, tipHash := tipHash
      validator := validator, peerProof := peerProof, protocolVer := protocolVer }

def decodeHello : Bytes → Except String Hello := decodeWhole readHello

def encodeGetBlocks (g : GetBlocks) : Bytes := natBytes 8 g.from_ ++ natBytes 8 g.to_

def readBlocks : Decode.Reader String (List Bytes) :=
  andThen (Reader.uint 4) fun count =>
    if SYNC_MAX_BATCH < count then fun _ =>
      .error s!"wire: too many blocks in response ({count})"
    else times (Reader.blob MAX_BLOCK_BYTES) count

def decodeBlocks : Bytes → Except String (List Bytes) := decodeWhole readBlocks

def readGenesis : Decode.Reader String Genesis :=
  andThen (Reader.take 32) fun genesisHash =>
  andThen (Reader.uint 8) fun chainId =>
  andThen (Reader.take 32) fun stateRoot =>
  andThen (Reader.uint 8) fun genesisTime =>
  andThen (Reader.take 20) fun proposer =>
  andThen (Reader.blob MAX_BLOCK_BYTES) fun snapshot =>
  succeed
    { genesisHash := genesisHash, chainId := chainId, stateRoot := stateRoot
      genesisTime := genesisTime, proposer := proposer, snapshot := snapshot }

def decodeGenesis : Bytes → Except String Genesis := decodeWhole readGenesis

def SYNC_TAG_HELLO : U8 := 0#8
def SYNC_TAG_BLOCKS : U8 := 1#8
def SYNC_TAG_GENESIS : U8 := 2#8

def encodeSyncRequest (reqId : Nat) : SyncRequest → Bytes
  | .Hello h => natBytes 8 reqId ++ SYNC_TAG_HELLO :: encodeHello h
  | .GetBlocks g => natBytes 8 reqId ++ SYNC_TAG_BLOCKS :: encodeGetBlocks g
  | .GetGenesis => natBytes 8 reqId ++ [SYNC_TAG_GENESIS]

def decodeSyncResponse : Bytes → Except String SyncResponse
  | [] => .error "wire: empty SyncResponse"
  | tag :: rest =>
    if tag = SYNC_TAG_HELLO then (decodeHello rest).map .Hello
    else if tag = SYNC_TAG_BLOCKS then (decodeBlocks rest).map .Blocks
    else if tag = SYNC_TAG_GENESIS then (decodeGenesis rest).map .Genesis
    else
      let n := tag.toNat
      .error s!"wire: unknown SyncResponse tag {n}"

def decodeSyncFrame (buf : Bytes) : Except String SyncFrame :=
  if buf.length < 8 then .error "wire: SyncFrame truncated (need an 8-byte req_id prefix)"
  else (decodeSyncResponse (buf.drop 8)).map (SyncFrame.mk (ofBytes (buf.take 8)))

-- What the client reads of a response.
def SyncResponse.seen : SyncResponse → LightClient.SyncResponse
  | .Hello h => .Hello ⟨h.genesisHash, h.chainId, h.tipHeight⟩
  | .Blocks blocks => .Blocks blocks
  | .Genesis g => .Genesis g

-- The event that a frame is to the client. One that is not decoded is dropped.
def onMessage (buf : Bytes) : Option Event :=
  match decodeSyncFrame buf with
  | .error _ => none
  | .ok frame => some (.message frame.reqId frame.resp.seen)

-- What the gateway's values are to the page.
def ofBlock (b : Rpc.WireBlock) : WireBlock where
  number := b.number
  parentHash := beBytes b.parentHash
  timestamp := b.timestamp.toNat
  view := b.view.toNat
  txsRoot := beBytes b.txsRoot
  stateRoot := beBytes b.stateRoot
  proposer := beBytes b.proposer
  proposerSig := b.proposerSig
  txs := b.rawTxs

def ofHello (h : Network.Hello) : Hello where
  genesisHash := beBytes h.genesisHash
  chainId := h.chainId.toNat
  tipHeight := h.tip.1
  tipHash := beBytes h.tip.2
  validator := h.validator.map beBytes
  peerProof := h.peerProof
  protocolVer := h.protocolVer.toNat

def ofGenesis (g : Network.Genesis) : Genesis where
  genesisHash := beBytes g.genesisHash
  chainId := g.chainId.toNat
  stateRoot := beBytes g.stateRoot
  genesisTime := g.genesisTime.toNat
  proposer := beBytes g.proposer
  snapshot := g.snapshot

def ofRequest : Network.SyncRequest → SyncRequest
  | .Hello h => .Hello (ofHello h)
  | .GetBlocks g => .GetBlocks ⟨g.from_, g.to_⟩
  | .GetGenesis => .GetGenesis

def ofResponse : Network.SyncResponse → SyncResponse
  | .Hello h => .Hello (ofHello h)
  | .Blocks blocks => .Blocks (blocks.map Network.encode)
  | .Genesis g => .Genesis (ofGenesis g)

def ofFrame (f : Network.SyncFrame Network.SyncResponse) : SyncFrame :=
  ⟨f.reqId, ofResponse f.body⟩

-- The reader accepts exactly the encodings of the values of `P`, as what they are to the page.
def Renders {α β : Type} (P : α → Prop) (of : α → β) (enc : α → Bytes)
    (read : Decode.Reader String β) : Prop :=
  ∀ ⦃b : Bytes⦄ ⦃y : β⦄ ⦃rest : Bytes⦄,
    read b = .ok (y, rest) ↔ ∃ a, P a ∧ of a = y ∧ b = enc a ++ rest

theorem pow_width {w : Nat} (hw : 8 ∣ w) : 256 ^ (w / 8) = 2 ^ w := by
  obtain ⟨n, rfl⟩ := hw
  rw [Nat.mul_div_cancel_left n (by decide), Nat.pow_mul]

theorem beBytes_ofNat {w v : Nat} (hw : 8 ∣ w) (hv : v < 256 ^ (w / 8)) :
    (BitVec.ofNat w v).toNat = v ∧ beBytes (BitVec.ofNat w v) = natBytes (w / 8) v := by
  have hvalue : (BitVec.ofNat w v).toNat = v := by
    rw [BitVec.toNat_ofNat, Nat.mod_eq_of_lt (pow_width hw ▸ hv)]
  exact ⟨hvalue, by rw [beBytes, hvalue]⟩

theorem renders_uint {w : Nat} (hw : 8 ∣ w) :
    Renders (fun _ => True) (BitVec.toNat : BitVec w → Nat) beBytes (Reader.uint (w / 8)) := by
  intro b v rest
  rw [Reader.uint, natOf_ok_iff]
  constructor
  · rintro ⟨hv, rfl⟩
    obtain ⟨hvalue, hbytes⟩ := beBytes_ofNat hw hv
    exact ⟨BitVec.ofNat w v, trivial, hvalue, by rw [hbytes]⟩
  · rintro ⟨x, -, rfl, rfl⟩
    exact ⟨pow_width hw ▸ x.isLt, rfl⟩

theorem renders_take {w : Nat} (hw : 8 ∣ w) :
    Renders (fun _ => True) (beBytes : BitVec w → Bytes) beBytes (Reader.take (w / 8)) := by
  intro b x rest
  rw [Reader.take, takeBytes_ok_iff]
  constructor
  · rintro ⟨hlen, rfl⟩
    have hlt := ofBytes_lt x
    have hback := natBytes_ofBytes x
    rw [hlen] at hlt hback
    have hbytes := (beBytes_ofNat hw hlt).2.trans hback
    exact ⟨BitVec.ofNat w (ofBytes x), trivial, hbytes, by rw [hbytes]⟩
  · rintro ⟨a, -, rfl, rfl⟩
    exact ⟨length_natBytes _ _, rfl⟩

theorem renders_hash :
    Renders (fun _ => True) (beBytes : Hash → Bytes) beBytes (Reader.take 32) :=
  renders_take (by decide)

theorem renders_address :
    Renders (fun _ => True) (beBytes : Address → Bytes) beBytes (Reader.take 20) :=
  renders_take (by decide)

theorem renders_u64 :
    Renders (fun _ => True) (BitVec.toNat : U64 → Nat) beBytes (Reader.uint 8) :=
  renders_uint (by decide)

theorem renders_u32 :
    Renders (fun _ => True) (BitVec.toNat : U32 → Nat) beBytes (Reader.uint 4) :=
  renders_uint (by decide)

theorem renders_u16 :
    Renders (fun _ => True) (BitVec.toNat : BitVec 16 → Nat) beBytes (Reader.uint 2) :=
  renders_uint (by decide)

theorem uint_ok_iff {n v : Nat} {b rest : Bytes} :
    Reader.uint n b = .ok (v, rest) ↔ v < 256 ^ n ∧ b = natBytes n v ++ rest :=
  natOf_ok_iff

theorem blob_reads {max : Nat} (hmax : max < 256 ^ 4) :
    Reads (fun x => x.length ≤ max) Network.putBytes (Reader.blob max) := by
  intro b x rest
  simp only [Reader.blob, Reader.uint, Reader.take, andThen_ok_iff, natOf_ok_iff]
  constructor
  · rintro ⟨n, mid, ⟨-, rfl⟩, hread⟩
    split_ifs at hread with hlong
    obtain ⟨rfl, rfl⟩ := takeBytes_ok_iff.mp hread
    exact ⟨not_lt.mp hlong, by rw [Network.putBytes, List.append_assoc]⟩
  · rintro ⟨hlen, rfl⟩
    refine ⟨x.length, x ++ rest, ⟨by omega, by rw [Network.putBytes, List.append_assoc]⟩, ?_⟩
    rw [if_neg (not_lt.mpr hlen)]
    exact takeBytes_ok_iff.mpr ⟨rfl, rfl⟩


-- A whole byte string is decoded exactly where it is the encoding of such a value.
theorem Renders.decodeWhole_iff {α β : Type} {P : α → Prop} {of : α → β} {enc : α → Bytes}
    {read : Decode.Reader String β} (h : Renders P of enc read) {buf : Bytes} {y : β} :
    decodeWhole read buf = .ok y ↔ ∃ a, P a ∧ of a = y ∧ buf = enc a := by
  rw [decodeWhole, whole_ok_iff, h]
  simp only [List.append_nil]

-- So many blobs behind their count, which is bounded before any of them is read.
theorem counted_ok_iff {cap max : Nat} {tooMany : Nat → String} (hcap : cap < 256 ^ 4)
    (hmax : max < 256 ^ 4) {b rest : Bytes} {l : List Bytes} :
    andThen (Reader.uint 4) (fun count =>
        if cap < count then fun _ => .error (tooMany count) else times (Reader.blob max) count) b =
        .ok (l, rest) ↔
      l.length ≤ cap ∧ (∀ raw ∈ l, raw.length ≤ max) ∧
        b = natBytes 4 l.length ++ l.flatMap Network.putBytes ++ rest := by
  simp only [andThen_ok_iff, uint_ok_iff]
  constructor
  · rintro ⟨count, mid, ⟨-, rfl⟩, h⟩
    split_ifs at h with hlong
    obtain ⟨rfl, hall, rfl⟩ := (times_ok_iff (blob_reads hmax)).mp h
    exact ⟨not_lt.mp hlong, hall, by rw [List.append_assoc]⟩
  · rintro ⟨hcount, hall, rfl⟩
    refine ⟨l.length, l.flatMap Network.putBytes ++ rest,
      ⟨by omega, by rw [List.append_assoc]⟩, ?_⟩
    rw [if_neg (not_lt.mpr hcount)]
    exact (times_ok_iff (blob_reads hmax)).mpr ⟨rfl, hall, rfl⟩

theorem readTxs_ok_iff {b rest : Bytes} {l : List Bytes} :
    readTxs b = .ok (l, rest) ↔
      l.length ≤ MAX_BLOCK_BYTES / 4 ∧ (∀ raw ∈ l, raw.length ≤ MAX_TX_BYTES) ∧
        b = natBytes 4 l.length ++ l.flatMap Network.putBytes ++ rest :=
  counted_ok_iff (by decide) (by decide)

-- The page takes a block of the gateway's whatever its length as a whole.
theorem decodeWireBlock_iff {buf : Bytes} {y : WireBlock} :
    decodeWireBlock buf = .ok y ↔
      ∃ b, (Network.Fits MAX_TX_BYTES b ∧ b.rawTxs.length ≤ MAX_BLOCK_BYTES / 4) ∧
        ofBlock b = y ∧ buf = Network.encode b := by
  refine Renders.decodeWhole_iff fun b y rest => ?_
  have sig := blob_reads (show 65 < 256 ^ 4 by decide)
  simp only [andThen_ok_iff, succeed_ok_iff, readTxs_ok_iff]
  constructor
  · rintro ⟨n, b₁, h₁, parentHash, b₂, h₂, timestamp, b₃, h₃, view, b₄, h₄, txsRoot, b₅, h₅,
      stateRoot, b₆, h₆, proposer, b₇, h₇, proposerSig, b₈, h₈, txs, b₉, ⟨hcount, htxs, h₉⟩, rfl,
      rfl⟩
    obtain ⟨hn, e₁⟩ := uint_ok_iff.mp h₁
    obtain ⟨parentHash, -, rfl, e₂⟩ := renders_hash.mp h₂
    obtain ⟨timestamp, -, rfl, e₃⟩ := renders_u64.mp h₃
    obtain ⟨view, -, rfl, e₄⟩ := renders_u32.mp h₄
    obtain ⟨txsRoot, -, rfl, e₅⟩ := renders_hash.mp h₅
    obtain ⟨stateRoot, -, rfl, e₆⟩ := renders_hash.mp h₆
    obtain ⟨proposer, -, rfl, e₇⟩ := renders_address.mp h₇
    obtain ⟨hsig, e₈⟩ := sig.mp h₈
    refine ⟨⟨n, parentHash, timestamp, view, txsRoot, stateRoot, proposer, proposerSig, txs⟩,
      ⟨⟨hn, hsig, htxs⟩, hcount⟩, rfl, ?_⟩
    simp only [e₁, e₂, e₃, e₄, e₅, e₆, e₇, e₈, h₉, Network.encode, Rpc.headerPreimage,
      List.append_assoc]
  · rintro ⟨x, ⟨hfits, hcount⟩, rfl, hb⟩
    simp only [hb, Network.encode, Rpc.headerPreimage, List.append_assoc]
    exact ⟨x.number, _, uint_ok_iff.mpr ⟨hfits.number, rfl⟩, _, _,
      renders_hash.mpr ⟨_, trivial, rfl, rfl⟩, _, _, renders_u64.mpr ⟨_, trivial, rfl, rfl⟩, _, _,
      renders_u32.mpr ⟨_, trivial, rfl, rfl⟩, _, _, renders_hash.mpr ⟨_, trivial, rfl, rfl⟩, _, _,
      renders_hash.mpr ⟨_, trivial, rfl, rfl⟩, _, _, renders_address.mpr ⟨_, trivial, rfl, rfl⟩, _,
      _, sig.mpr ⟨hfits.proposerSig, rfl⟩, x.rawTxs, _, ⟨hcount, hfits.rawTxs, rfl⟩, rfl, rfl⟩

theorem encodeValidator_map (v : Option Address) :
    encodeValidator (v.map beBytes) = Network.Hello.encodeValidator v := by
  cases v <;> rfl

theorem renders_readValidator :
    Renders (fun _ => True) (Option.map (beBytes : Address → Bytes))
      Network.Hello.encodeValidator readValidator := by
  have hzero : natBytes 1 0 = [0#8] := by decide
  have hone : natBytes 1 1 = [1#8] := by decide
  intro b v rest
  simp only [readValidator, andThen_ok_iff]
  constructor
  · rintro ⟨tag, mid, hread, h⟩
    obtain ⟨-, hb⟩ := uint_ok_iff.mp hread
    split_ifs at h with hsome hnone
    · obtain ⟨x, mid', hx, h⟩ := andThen_ok_iff.mp h
      obtain ⟨rfl, rfl⟩ := succeed_ok_iff.mp h
      obtain ⟨a, -, rfl, hmid⟩ := renders_address.mp hx
      refine ⟨some a, trivial, rfl, ?_⟩
      rw [hb, hsome, hmid, hone, Network.Hello.encodeValidator, List.singleton_append,
        List.cons_append]
    · obtain ⟨rfl, rfl⟩ := succeed_ok_iff.mp h
      rw [not_not] at hnone
      refine ⟨none, trivial, rfl, ?_⟩
      rw [hb, hnone, hzero, Network.Hello.encodeValidator]
  · rintro ⟨v, -, rfl, hb⟩
    cases v with
    | none =>
      rw [Network.Hello.encodeValidator, ← hzero] at hb
      refine ⟨0, rest, uint_ok_iff.mpr ⟨by decide, hb⟩, ?_⟩
      rw [if_neg (by decide), if_neg (by decide)]
      exact succeed_ok_iff.mpr ⟨rfl, rfl⟩
    | some a =>
      rw [Network.Hello.encodeValidator, List.cons_append, ← List.singleton_append, ← hone] at hb
      refine ⟨1, beBytes a ++ rest, uint_ok_iff.mpr ⟨by decide, hb⟩, ?_⟩
      rw [if_pos rfl]
      refine andThen_ok_iff.mpr ⟨_, _, renders_address.mpr ⟨a, trivial, rfl, rfl⟩, ?_⟩
      exact succeed_ok_iff.mpr ⟨rfl, rfl⟩

theorem decodeHello_iff {buf : Bytes} {y : Hello} :
    decodeHello buf = .ok y ↔ ∃ h : Network.Hello, h.Fits ∧ ofHello h = y ∧ buf = h.encode := by
  refine Renders.decodeWhole_iff fun b y rest => ?_
  have proof := blob_reads (show 65 < 256 ^ 4 by decide)
  simp only [readHello, andThen_ok_iff, succeed_ok_iff]
  constructor
  · rintro ⟨genesisHash, b₁, h₁, chainId, b₂, h₂, tipHeight, b₃, h₃, tipHash, b₄, h₄, validator,
      b₅, h₅, peerProof, b₆, h₆, protocolVer, b₇, h₇, rfl, rfl⟩
    obtain ⟨genesisHash, -, rfl, e₁⟩ := renders_hash.mp h₁
    obtain ⟨chainId, -, rfl, e₂⟩ := renders_u64.mp h₂
    obtain ⟨hheight, e₃⟩ := uint_ok_iff.mp h₃
    obtain ⟨tipHash, -, rfl, e₄⟩ := renders_hash.mp h₄
    obtain ⟨validator, -, rfl, e₅⟩ := renders_readValidator.mp h₅
    obtain ⟨hproof, e₆⟩ := proof.mp h₆
    obtain ⟨protocolVer, -, rfl, e₇⟩ := renders_u16.mp h₇
    refine ⟨⟨genesisHash, chainId, (tipHeight, tipHash), validator, peerProof, protocolVer⟩,
      ⟨hheight, hproof⟩, rfl, ?_⟩
    simp only [e₁, e₂, e₃, e₄, e₅, e₆, e₇, Network.Hello.encode, List.append_assoc]
  · rintro ⟨x, hfits, rfl, hb⟩
    simp only [hb, Network.Hello.encode, List.append_assoc]
    exact ⟨_, _, renders_hash.mpr ⟨_, trivial, rfl, rfl⟩, _, _,
      renders_u64.mpr ⟨_, trivial, rfl, rfl⟩, x.tip.1, _, uint_ok_iff.mpr ⟨hfits.tip, rfl⟩, _, _,
      renders_hash.mpr ⟨_, trivial, rfl, rfl⟩, _, _,
      renders_readValidator.mpr ⟨_, trivial, rfl, rfl⟩, _, _, proof.mpr ⟨hfits.peerProof, rfl⟩, _,
      _, renders_u16.mpr ⟨_, trivial, rfl, rfl⟩, rfl, rfl⟩

theorem decodeGenesis_iff {buf : Bytes} {y : Genesis} :
    decodeGenesis buf = .ok y ↔
      ∃ g : Network.Genesis, g.Fits ∧ ofGenesis g = y ∧ buf = g.encode := by
  refine Renders.decodeWhole_iff fun b y rest => ?_
  have blob := blob_reads (show MAX_BLOCK_BYTES < 256 ^ 4 by decide)
  simp only [readGenesis, andThen_ok_iff, succeed_ok_iff]
  constructor
  · rintro ⟨genesisHash, b₁, h₁, chainId, b₂, h₂, stateRoot, b₃, h₃, genesisTime, b₄, h₄,
      proposer, b₅, h₅, snapshot, b₆, h₆, rfl, rfl⟩
    obtain ⟨genesisHash, -, rfl, e₁⟩ := renders_hash.mp h₁
    obtain ⟨chainId, -, rfl, e₂⟩ := renders_u64.mp h₂
    obtain ⟨stateRoot, -, rfl, e₃⟩ := renders_hash.mp h₃
    obtain ⟨genesisTime, -, rfl, e₄⟩ := renders_u64.mp h₄
    obtain ⟨proposer, -, rfl, e₅⟩ := renders_address.mp h₅
    obtain ⟨hsnapshot, e₆⟩ := blob.mp h₆
    refine ⟨⟨genesisHash, chainId, stateRoot, genesisTime, proposer, snapshot⟩, hsnapshot, rfl, ?_⟩
    simp only [e₁, e₂, e₃, e₄, e₅, e₆, Network.Genesis.encode, List.append_assoc]
  · rintro ⟨x, hfits, rfl, hb⟩
    simp only [hb, Network.Genesis.encode, List.append_assoc]
    exact ⟨_, _, renders_hash.mpr ⟨_, trivial, rfl, rfl⟩, _, _,
      renders_u64.mpr ⟨_, trivial, rfl, rfl⟩, _, _, renders_hash.mpr ⟨_, trivial, rfl, rfl⟩, _, _,
      renders_u64.mpr ⟨_, trivial, rfl, rfl⟩, _, _, renders_address.mpr ⟨_, trivial, rfl, rfl⟩, _,
      _, blob.mpr ⟨hfits, rfl⟩, rfl, rfl⟩

theorem decodeBlocks_iff {buf : Bytes} {raws : List Bytes} :
    decodeBlocks buf = .ok raws ↔
      raws.length ≤ SYNC_MAX_BATCH ∧ (∀ raw ∈ raws, raw.length ≤ MAX_BLOCK_BYTES) ∧
        buf = natBytes 4 raws.length ++ raws.flatMap Network.putBytes := by
  rw [decodeBlocks, decodeWhole, whole_ok_iff, readBlocks,
    counted_ok_iff (by decide) (by decide), List.append_nil]

theorem encode_blocks (blocks : List Rpc.WireBlock) :
    Network.Blocks.encode blocks = natBytes 4 (blocks.map Network.encode).length ++
      (blocks.map Network.encode).flatMap Network.putBytes := by
  rw [Network.Blocks.encode, List.length_map, List.flatMap_map]

-- Every blob of the response is a block.
def SyncResponse.Whole (r : SyncResponse) : Prop :=
  ∀ raws, r = .Blocks raws → ∀ raw ∈ raws, ∃ b, Network.WireBlock.decode raw = some (.ok b)

theorem decode_block_iff {raw : Bytes} {b : Rpc.WireBlock} :
    Network.WireBlock.decode raw = some (.ok b) ↔
      Network.BlockFits b ∧ raw = Network.encode b := by
  rw [Network.decodeBlock_eq, Option.some.injEq, Network.decode_block_ok_iff]

-- Blobs that are blocks are the encodings of a list of blocks.
theorem exists_blocks {raws : List Bytes}
    (h : ∀ raw ∈ raws, ∃ b, Network.WireBlock.decode raw = some (.ok b)) :
    ∃ blocks : List Rpc.WireBlock, (∀ b ∈ blocks, Network.BlockFits b) ∧
      blocks.map Network.encode = raws := by
  induction raws with
  | nil => exact ⟨[], List.forall_mem_nil _, rfl⟩
  | cons raw raws ih =>
    obtain ⟨b, hb⟩ := h raw List.mem_cons_self
    obtain ⟨hfits, rfl⟩ := decode_block_iff.mp hb
    obtain ⟨blocks, hall, rfl⟩ := ih fun x hx => h x (List.mem_cons_of_mem _ hx)
    exact ⟨b :: blocks, List.forall_mem_cons.mpr ⟨hfits, hall⟩, rfl⟩

-- The blobs that the page takes are the gateway's blocks where each of them is a block.
theorem decodeBlocks_whole_iff {buf : Bytes} {raws : List Bytes} :
    (decodeBlocks buf = .ok raws ∧
        ∀ raw ∈ raws, ∃ b, Network.WireBlock.decode raw = some (.ok b)) ↔
      ∃ blocks, Network.Blocks.Fits blocks ∧ blocks.map Network.encode = raws ∧
        buf = Network.Blocks.encode blocks := by
  rw [decodeBlocks_iff]
  constructor
  · rintro ⟨⟨hcount, -, hbuf⟩, hwhole⟩
    obtain ⟨blocks, hall, rfl⟩ := exists_blocks hwhole
    rw [List.length_map] at hcount
    exact ⟨blocks, ⟨hcount, hall⟩, rfl, hbuf.trans (encode_blocks blocks).symm⟩
  · rintro ⟨blocks, hfits, rfl, rfl⟩
    have hcount := hfits.count
    refine ⟨⟨by rwa [List.length_map], ?_, encode_blocks blocks⟩, ?_⟩
    · intro raw hraw
      obtain ⟨b, hb, rfl⟩ := List.mem_map.mp hraw
      exact (hfits.blocks b hb).2
    · intro raw hraw
      obtain ⟨b, hb, rfl⟩ := List.mem_map.mp hraw
      exact ⟨b, decode_block_iff.mpr ⟨hfits.blocks b hb, rfl⟩⟩

theorem map_eq_ok {α β : Type} {r : Except String α} {of : α → β} {y : β} :
    r.map of = .ok y ↔ ∃ a, r = .ok a ∧ of a = y := by
  cases r <;> simp [Except.map]

-- A response is the page's where it is the gateway's, but for blobs that are no blocks.
theorem decodeSyncResponse_iff {buf : Bytes} {y : SyncResponse} :
    (decodeSyncResponse buf = .ok y ∧ y.Whole) ↔
      ∃ r, Network.SyncResponse.Fits r ∧ ofResponse r = y ∧
        buf = Network.SyncResponse.encode r := by
  constructor
  · rintro ⟨h, hwhole⟩
    cases buf with
    | nil => cases h
    | cons tag rest =>
      rw [decodeSyncResponse] at h
      split_ifs at h with hhello hblocks hgenesis
      · obtain ⟨x, hx, rfl⟩ := map_eq_ok.mp h
        obtain ⟨r, hfits, rfl, hrest⟩ := decodeHello_iff.mp hx
        exact ⟨.Hello r, hfits, rfl, by rw [hhello, hrest]; rfl⟩
      · obtain ⟨raws, hraws, rfl⟩ := map_eq_ok.mp h
        obtain ⟨blocks, hfits, rfl, hrest⟩ :=
          decodeBlocks_whole_iff.mp ⟨hraws, hwhole raws rfl⟩
        exact ⟨.Blocks blocks, hfits, rfl, by rw [hblocks, hrest]; rfl⟩
      · obtain ⟨x, hx, rfl⟩ := map_eq_ok.mp h
        obtain ⟨r, hfits, rfl, hrest⟩ := decodeGenesis_iff.mp hx
        exact ⟨.Genesis r, hfits, rfl, by rw [hgenesis, hrest]; rfl⟩
  · rintro ⟨r, hfits, rfl, rfl⟩
    cases r with
    | Hello r =>
      refine ⟨?_, fun raws hraws => by cases hraws⟩
      rw [Network.SyncResponse.encode, decodeSyncResponse, if_pos (by decide)]
      exact map_eq_ok.mpr ⟨_, decodeHello_iff.mpr ⟨r, hfits, rfl, rfl⟩, rfl⟩
    | Blocks blocks =>
      obtain ⟨hraws, hwhole⟩ := decodeBlocks_whole_iff.mpr ⟨blocks, hfits, rfl, rfl⟩
      refine ⟨?_, fun raws heq => by cases heq; exact hwhole⟩
      rw [Network.SyncResponse.encode, decodeSyncResponse, if_neg (by decide), if_pos (by decide)]
      exact map_eq_ok.mpr ⟨_, hraws, rfl⟩
    | Genesis r =>
      refine ⟨?_, fun raws hraws => by cases hraws⟩
      rw [Network.SyncResponse.encode, decodeSyncResponse, if_neg (by decide), if_neg (by decide),
        if_pos (by decide)]
      exact map_eq_ok.mpr ⟨_, decodeGenesis_iff.mpr ⟨r, hfits, rfl, rfl⟩, rfl⟩

theorem decodeSyncFrame_iff {buf : Bytes} {y : SyncFrame} :
    (decodeSyncFrame buf = .ok y ∧ y.resp.Whole) ↔
      ∃ f, Network.SyncFrame.Fits Network.SyncResponse.Fits f ∧ ofFrame f = y ∧
        buf = Network.SyncFrame.encodeResponse f := by
  have hid : ∀ {reqId : Nat} {body : Bytes}, ¬ buf.length < 8 ∧ ofBytes (buf.take 8) = reqId ∧
      buf.drop 8 = body ↔ reqId < 256 ^ 8 ∧ buf = natBytes 8 reqId ++ body := by
    intro reqId body
    have hread : Network.SyncFrame.readReqId buf = some (.ok (reqId, body)) ↔
        reqId < 256 ^ 8 ∧ buf = Network.SyncFrame.writeFramed reqId body :=
      Network.SyncFrame.readReqId_ok_iff
    rw [Network.SyncFrame.readReqId_eq, Option.some.injEq] at hread
    rw [← Network.SyncFrame.writeFramed, ← hread]
    split_ifs with hshort
    · simp [hshort]
    · simp [hshort]
  unfold decodeSyncFrame
  constructor
  · rintro ⟨h, hwhole⟩
    split_ifs at h with hshort
    obtain ⟨resp, hresp, rfl⟩ := map_eq_ok.mp h
    obtain ⟨r, hfits, rfl, hbody⟩ := decodeSyncResponse_iff.mp ⟨hresp, hwhole⟩
    obtain ⟨hlt, hbuf⟩ := hid.mp ⟨hshort, rfl, hbody⟩
    exact ⟨⟨_, r⟩, ⟨hlt, hfits⟩, rfl, hbuf⟩
  · rintro ⟨f, hfits, rfl, hbuf⟩
    obtain ⟨hshort, hreqId, hbody⟩ := hid.mpr ⟨hfits.reqId, hbuf⟩
    obtain ⟨hresp, hwhole⟩ := decodeSyncResponse_iff.mpr ⟨f.body, hfits.body, rfl, rfl⟩
    rw [if_neg hshort, hbody, hreqId]
    exact ⟨map_eq_ok.mpr ⟨_, hresp, rfl⟩, hwhole⟩

theorem encodeHello_ofHello (h : Network.Hello) : encodeHello (ofHello h) = h.encode := by
  have hvalidator : encodeValidator (h.validator.map beBytes) =
      Network.Hello.encodeValidator h.validator := encodeValidator_map h.validator
  rw [encodeHello, Network.Hello.encode, ofHello, hvalidator]
  rfl

-- A request of the page has the bytes of the gateway's.
theorem encodeSyncRequest_ofRequest (reqId : Nat) (r : Network.SyncRequest) :
    encodeSyncRequest reqId (ofRequest r) = Network.SyncFrame.encodeRequest ⟨reqId, r⟩ := by
  cases r with
  | Hello h =>
    rw [ofRequest, encodeSyncRequest, encodeHello_ofHello]
    rfl
  | GetBlocks g => rfl
  | GetGenesis => rfl

theorem encodeWireBlock_ofBlock (b : Rpc.WireBlock) :
    encodeWireBlock (ofBlock b) = Network.encode b := by
  rw [encodeWireBlock, Network.encode, Rpc.headerPreimage]
  rfl

-- What the page and the gateway make of each other's bytes.
structure SpeaksGateway : Prop where
  requests : ∀ f, Network.SyncFrame.Fits Network.SyncRequest.Fits f →
    Network.SyncFrame.decodeRequest (encodeSyncRequest f.reqId (ofRequest f.body)) = some (.ok f)
  responses : ∀ buf y, buf.length ≤ Network.ISIZE_MAX →
    ((decodeSyncFrame buf = .ok y ∧ y.resp.Whole) ↔
      ∃ f, Network.SyncFrame.decodeResponse buf = some (.ok f) ∧ ofFrame f = y)
  blocks : ∀ buf y, (decodeWireBlock buf = .ok y ∧ buf.length ≤ Network.MAX_BLOCK_BYTES) ↔
    ∃ b, Network.WireBlock.decode buf = some (.ok b) ∧ ofBlock b = y
  encoded : ∀ b, encodeWireBlock (ofBlock b) = Network.encode b
  messages : ∀ f, Network.SyncFrame.Fits Network.SyncResponse.Fits f →
    onMessage (Network.SyncFrame.encodeResponse f) =
      some (.message f.reqId (ofResponse f.body).seen)
  numbers : ∀ raw b, Network.WireBlock.decode raw = some (.ok b) →
    wireBlockNumber raw = some b.number

theorem wireBlockNumber_decode {raw : Bytes} {b : Rpc.WireBlock}
    (h : Network.WireBlock.decode raw = some (.ok b)) : wireBlockNumber raw = some b.number := by
  obtain ⟨⟨hfits, -⟩, hraw⟩ := decode_block_iff.mp h
  have hlen : ¬ raw.length < 8 := by
    rw [hraw, Network.length_encode]
    omega
  have htake : raw.take 8 = natBytes 8 b.number := by
    rw [hraw, Network.encode, Rpc.headerPreimage]
    simp only [List.append_assoc]
    exact List.take_left' (length_natBytes 8 b.number)
  rw [wireBlockNumber, if_neg hlen, htake, ofBytes_natBytes hfits.number]

-- The page and the gateway have codecs of their own for one format. What either writes the other
-- reads, and the page takes nothing that the gateway would not, but for blobs that are no blocks
-- and a block above the cap, which its kernel is there to refuse.
theorem speaks_gateway : SpeaksGateway := by
  have hresponses := Network.SyncFrame.codec Network.SyncResponse.codec
  have hrequests := Network.SyncFrame.codec Network.SyncRequest.codec
  constructor
  case requests =>
    intro f hf
    rw [encodeSyncRequest_ofRequest]
    exact hrequests.decode_encode f hf
  case responses =>
    intro buf y hbuf
    rw [decodeSyncFrame_iff]
    constructor
    · rintro ⟨f, hfits, hy, rfl⟩
      exact ⟨f, hresponses.decode_encode f hfits, hy⟩
    · rintro ⟨f, hf, hy⟩
      obtain ⟨hfits, hencode⟩ := hresponses.encode_decode buf f hbuf hf
      exact ⟨f, hfits, hy, hencode.symm⟩
  case blocks =>
    intro buf y
    rw [decodeWireBlock_iff]
    constructor
    · rintro ⟨⟨b, ⟨hfits, -⟩, hy, hbuf⟩, hlen⟩
      rw [hbuf] at hlen
      exact ⟨b, decode_block_iff.mpr ⟨⟨hfits, hlen⟩, hbuf⟩, hy⟩
    · rintro ⟨b, hb, hy⟩
      obtain ⟨⟨hfits, hlen⟩, hbuf⟩ := decode_block_iff.mp hb
      -- the transactions take four bytes each of a block within the cap
      have hcount : b.rawTxs.length ≤ MAX_BLOCK_BYTES / 4 := by
        have hbytes := Network.count_le_length_flatMap b.rawTxs
        have hlength := Network.length_encode b
        have hcap : Network.MAX_BLOCK_BYTES = MAX_BLOCK_BYTES := rfl
        omega
      exact ⟨⟨b, ⟨hfits, hcount⟩, hy, hbuf⟩, hbuf ▸ hlen⟩
  case encoded => exact encodeWireBlock_ofBlock
  case messages =>
    intro f hf
    have hdecode := (decodeSyncFrame_iff.mpr ⟨f, hf, rfl, rfl⟩).1
    rw [onMessage, hdecode]
    rfl
  case numbers => exact fun _ _ => wireBlockNumber_decode

-- A blob that is no block is taken by the page and not by the gateway.
example : decodeSyncFrame (natBytes 8 0 ++ [1#8] ++ natBytes 4 1 ++ natBytes 4 2 ++ [7#8, 9#8]) =
    .ok ⟨0, .Blocks [[7#8, 9#8]]⟩ := by
  rfl

end Ubi2.LightClient.Wire
