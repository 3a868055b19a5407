import Ubi2.Rpc.Block

namespace Ubi2.Network

open Ubi2.Runtime Ubi2.Lib Ubi2.Lib.Encode Ubi2.Lib.Decode Ubi2.Rpc

def MAX_TX_BYTES : Nat := 128 * 1024
def MAX_BLOCK_BYTES : Nat := 8 * 1024 * 1024

-- The longest signature a header may carry.
def MAX_SIG_BYTES : Nat := 65

inductive WireError where
  | Truncated
  | TooLong
  | TrailingBytes
  | Invalid (what : String)
deriving DecidableEq

-- The size caps a decoder is compiled with.
structure Caps where
  maxBlockBytes : Nat
  maxTxBytes : Nat

def caps : Caps := ⟨MAX_BLOCK_BYTES, MAX_TX_BYTES⟩

-- A byte string behind its length as a 32-bit count.
def putBytes (b : Bytes) : Bytes := natBytes 4 b.length ++ b

def readBytes (max : Nat) : Reader WireError Bytes :=
  andThen (natOf .Truncated 4) fun n =>
    if max < n then fun _ => .error .TooLong else takeBytes .Truncated n

def recomputeTxsRoot (host : NodeHost) (b : WireBlock) : Hash :=
  txsRootOf host (b.rawTxs.map host.keccak256)

-- What is checked of a block before it is handed on: that it carries the transactions
-- its root commits to, and a signature that recovers to its author.
def shallowVerify (host : NodeHost) (b : WireBlock) : Bool :=
  if recomputeTxsRoot host b ≠ b.txsRoot then false
  else if b.proposerSig = [] then false
  else
    match host.recoverProposer (b.hash host) b.proposerSig with
    | some addr => addr = b.proposer
    | none => false

def encode (b : WireBlock) : Bytes :=
  headerPreimage b.number b.parentHash b.timestamp b.view b.txsRoot b.stateRoot b.proposer ++
    putBytes b.proposerSig ++ natBytes 4 b.rawTxs.length ++ b.rawTxs.flatMap putBytes

-- The count is bounded before the transactions are read.
def readTxs (c : Caps) : Reader WireError (List Bytes) :=
  andThen (natOf .Truncated 4) fun count =>
    if c.maxBlockBytes / 4 < count then fun _ => .error .TooLong
    else times (readBytes c.maxTxBytes) count

def readBlock (c : Caps) : Reader WireError WireBlock :=
  andThen (natOf .Truncated 8) fun number =>
  andThen (word .Truncated 256) fun parentHash =>
  andThen (word .Truncated 64) fun timestamp =>
  andThen (word .Truncated 32) fun view =>
  andThen (word .Truncated 256) fun txsRoot =>
  andThen (word .Truncated 256) fun stateRoot =>
  andThen (word .Truncated 160) fun proposer =>
  andThen (readBytes MAX_SIG_BYTES) fun proposerSig =>
  andThen (readTxs c) fun rawTxs =>
  succeed
    { number := number, parentHash := parentHash, timestamp := timestamp, view := view
      txsRoot := txsRoot, stateRoot := stateRoot, proposer := proposer
      proposerSig := proposerSig, rawTxs := rawTxs }

def decodeWith (c : Caps) (buf : Bytes) : Except WireError WireBlock :=
  if c.maxBlockBytes < buf.length then .error .TooLong
  else
    match readBlock c buf with
    | .error e => .error e
    | .ok (b, rest) => if rest = [] then .ok b else .error .TrailingBytes

def decode (buf : Bytes) : Except WireError WireBlock := decodeWith caps buf

-- A block whose fields fit the widths and the caps they are read under.
structure Fits (maxTxBytes : Nat) (b : WireBlock) : Prop where
  number : b.number < 256 ^ 8
  proposerSig : b.proposerSig.length ≤ MAX_SIG_BYTES
  rawTxs : ∀ raw ∈ b.rawTxs, raw.length ≤ maxTxBytes

theorem readBytes_ok_iff {max : Nat} (hmax : max < 256 ^ 4) {b x rest : Bytes} :
    readBytes max b = .ok (x, rest) ↔ x.length ≤ max ∧ b = putBytes x ++ rest := by
  simp only [readBytes, andThen_ok_iff, natOf_ok_iff]
  constructor
  · rintro ⟨n, mid, ⟨-, rfl⟩, hread⟩
    split_ifs at hread with hlong
    obtain ⟨rfl, rfl⟩ := takeBytes_ok_iff.mp hread
    exact ⟨not_lt.mp hlong, by rw [putBytes, List.append_assoc]⟩
  · rintro ⟨hlen, rfl⟩
    refine ⟨x.length, x ++ rest, ⟨by omega, by rw [putBytes, List.append_assoc]⟩, ?_⟩
    rw [if_neg (not_lt.mpr hlen)]
    exact takeBytes_ok_iff.mpr ⟨rfl, rfl⟩

theorem readBytes_reads {max : Nat} (hmax : max < 256 ^ 4) :
    Reads (fun x => x.length ≤ max) putBytes (readBytes max) :=
  fun _ _ _ => readBytes_ok_iff hmax

theorem length_putBytes (b : Bytes) : (putBytes b).length = 4 + b.length := by
  rw [putBytes, List.length_append, length_natBytes]

-- Every transaction takes four bytes at least, so the bytes bound the count.
theorem count_le_length_flatMap (l : List Bytes) : 4 * l.length ≤ (l.flatMap putBytes).length := by
  induction l with
  | nil => simp
  | cons raw l ih =>
    rw [List.flatMap_cons, List.length_append, length_putBytes, List.length_cons]
    omega

section
variable {c : Caps}

theorem readTxs_ok_iff (htx : c.maxTxBytes < 256 ^ 4) (hblock : c.maxBlockBytes / 4 < 256 ^ 4)
    {b rest : Bytes} {l : List Bytes} :
    readTxs c b = .ok (l, rest) ↔
      l.length ≤ c.maxBlockBytes / 4 ∧ (∀ raw ∈ l, raw.length ≤ c.maxTxBytes) ∧
        b = natBytes 4 l.length ++ l.flatMap putBytes ++ rest := by
  simp only [readTxs, andThen_ok_iff, natOf_ok_iff]
  constructor
  · rintro ⟨count, mid, ⟨-, rfl⟩, hread⟩
    split_ifs at hread with hlong
    obtain ⟨rfl, hall, rfl⟩ := (times_ok_iff (readBytes_reads htx)).mp hread
    exact ⟨not_lt.mp hlong, hall, by rw [List.append_assoc]⟩
  · rintro ⟨hcount, hall, rfl⟩
    refine ⟨l.length, l.flatMap putBytes ++ rest, ⟨by omega, by rw [List.append_assoc]⟩, ?_⟩
    rw [if_neg (not_lt.mpr hcount)]
    exact (times_ok_iff (readBytes_reads htx)).mpr ⟨rfl, hall, rfl⟩

-- A block is read off exactly where its encoding stands.
theorem readBlock_ok_iff (htx : c.maxTxBytes < 256 ^ 4) (hblock : c.maxBlockBytes / 4 < 256 ^ 4)
    {buf rest : Bytes} {b : WireBlock} :
    readBlock c buf = .ok (b, rest) ↔
      Fits c.maxTxBytes b ∧ b.rawTxs.length ≤ c.maxBlockBytes / 4 ∧ buf = encode b ++ rest := by
  have hsig : MAX_SIG_BYTES < 256 ^ 4 := by decide
  simp only [readBlock, andThen_ok_iff, succeed_ok_iff, natOf_ok_iff,
    word_ok_iff (show 8 ∣ 256 by decide), word_ok_iff (show 8 ∣ 64 by decide),
    word_ok_iff (show 8 ∣ 32 by decide), word_ok_iff (show 8 ∣ 160 by decide),
    readBytes_ok_iff hsig, readTxs_ok_iff htx hblock]
  constructor
  · rintro ⟨number, b₁, ⟨hnumber, h₁⟩, parentHash, b₂, h₂, timestamp, b₃, h₃, view, b₄, h₄,
      txsRoot, b₅, h₅, stateRoot, b₆, h₆, proposer, b₇, h₇, sig, b₈, ⟨hsig, h₈⟩, raws, b₉,
      ⟨hcount, hraws, h₉⟩, rfl, rfl⟩
    refine ⟨⟨hnumber, hsig, hraws⟩, hcount, ?_⟩
    simp only [h₁, h₂, h₃, h₄, h₅, h₆, h₇, h₈, h₉, encode, headerPreimage, List.append_assoc]
  · rintro ⟨hfits, hcount, hbuf⟩
    simp only [hbuf, encode, headerPreimage, List.append_assoc]
    exact ⟨b.number, _, ⟨hfits.number, rfl⟩, b.parentHash, _, rfl, b.timestamp, _, rfl, b.view,
      _, rfl, b.txsRoot, _, rfl, b.stateRoot, _, rfl, b.proposer, _, rfl, b.proposerSig, _,
      ⟨hfits.proposerSig, rfl⟩, b.rawTxs, _, ⟨hcount, hfits.rawTxs, rfl⟩, rfl, rfl⟩

theorem length_encode (b : WireBlock) :
    (encode b).length = 136 + (4 + b.proposerSig.length) + 4 +
      (b.rawTxs.flatMap putBytes).length := by
  simp only [encode, headerPreimage, beBytes, List.length_append, length_natBytes,
    length_putBytes]

-- A decoder accepts exactly the encodings, within its block cap, of the blocks that fit.
theorem decodeWith_ok_iff (htx : c.maxTxBytes < 256 ^ 4) (hblock : c.maxBlockBytes / 4 < 256 ^ 4)
    {buf : Bytes} {b : WireBlock} :
    decodeWith c buf = .ok b ↔
      Fits c.maxTxBytes b ∧ buf = encode b ∧ buf.length ≤ c.maxBlockBytes := by
  rw [decodeWith]
  split_ifs with hlong
  · constructor
    · intro h
      cases h
    · rintro ⟨-, -, hlen⟩
      omega
  · constructor
    · intro h
      cases hread : readBlock c buf with
      | error e => simp [hread] at h
      | ok p =>
        obtain ⟨b', rest⟩ := p
        simp only [hread] at h
        split_ifs at h with hrest
        cases h
        obtain ⟨hfits, -, hbuf⟩ := (readBlock_ok_iff htx hblock).mp hread
        exact ⟨hfits, by simpa [hrest] using hbuf, not_lt.mp hlong⟩
    · rintro ⟨hfits, hbuf, hlen⟩
      have hcount : b.rawTxs.length ≤ c.maxBlockBytes / 4 := by
        have hbytes := count_le_length_flatMap b.rawTxs
        rw [hbuf, length_encode] at hlen
        omega
      have hread : readBlock c buf = .ok (b, []) :=
        (readBlock_ok_iff htx hblock).mpr ⟨hfits, hcount, by simpa using hbuf⟩
      simp only [hread, if_true]

theorem decode_ok_iff {buf : Bytes} {b : WireBlock} :
    decode buf = .ok b ↔
      Fits MAX_TX_BYTES b ∧ buf = encode b ∧ buf.length ≤ MAX_BLOCK_BYTES :=
  decodeWith_ok_iff (c := caps) (by decide) (by decide)

end

end Ubi2.Network
