import Ubi2.Network.Wire
import Mathlib.Algebra.BigOperators.Group.List.Basic

namespace Ubi2.RuntimeWasm

open Ubi2.Runtime Ubi2.Lib Ubi2.Lib.Encode Ubi2.Lib.Decode Ubi2.Rpc

-- The light client has caps of its own.
def MAX_TX_BYTES : Nat := 128 * 1024
def MAX_BLOCK_BYTES : Nat := 4 * 1024 * 1024

def caps : Network.Caps := ⟨MAX_BLOCK_BYTES, MAX_TX_BYTES⟩

def decode (buf : Bytes) : Except Network.WireError WireBlock := Network.decodeWith caps buf

def headerPreimage (b : WireBlock) : Bytes :=
  natBytes 8 b.number ++ beBytes b.parentHash ++ beBytes b.timestamp ++ beBytes b.view ++
    beBytes b.txsRoot ++ beBytes b.stateRoot ++ beBytes b.proposer

def hash (host : NodeHost) (b : WireBlock) : Hash := host.keccak256 (headerPreimage b)

def recomputeTxsRoot (host : NodeHost) (b : WireBlock) : Hash :=
  host.keccak256 (natBytes 8 b.rawTxs.length ++
    b.rawTxs.flatMap fun raw => beBytes (host.keccak256 raw))

def shallowVerify (host : NodeHost) (b : WireBlock) : Bool :=
  if recomputeTxsRoot host b ≠ b.txsRoot then false
  else if b.proposerSig = [] then false
  else
    match host.recoverProposer (hash host b) b.proposerSig with
    | some addr => addr = b.proposer
    | none => false

-- The two decoders treat a byte string alike: both turn it down, or both accept it, with
-- equal fields, and what they compute from the fields is equal.
def Agree (host : NodeHost) (buf : Bytes) : Prop :=
  (∀ b, Network.decode buf ≠ .ok b) ∧ (∀ b, decode buf ≠ .ok b) ∨
  ∃ b, Network.decode buf = .ok b ∧ decode buf = .ok b ∧ hash host b = b.hash host ∧
    recomputeTxsRoot host b = Network.recomputeTxsRoot host b ∧
    shallowVerify host b = Network.shallowVerify host b

theorem decode_ok_iff {buf : Bytes} {b : WireBlock} :
    decode buf = .ok b ↔ Network.Fits MAX_TX_BYTES b ∧ buf = Network.encode b ∧
      buf.length ≤ MAX_BLOCK_BYTES :=
  Network.decodeWith_ok_iff (c := caps) (by decide) (by decide)

theorem recomputeTxsRoot_eq (host : NodeHost) (b : WireBlock) :
    recomputeTxsRoot host b = Network.recomputeTxsRoot host b := by
  simp only [recomputeTxsRoot, Network.recomputeTxsRoot, txsRootOf, counted, List.length_map,
    List.flatMap_map]

theorem shallowVerify_eq (host : NodeHost) (b : WireBlock) :
    shallowVerify host b = Network.shallowVerify host b := by
  rw [shallowVerify, recomputeTxsRoot_eq]
  rfl

-- What the light client accepts, the network crate accepts with the same fields.
theorem network_decode {buf : Bytes} {b : WireBlock} (h : decode buf = .ok b) :
    Network.decode buf = .ok b := by
  have hcaps : MAX_BLOCK_BYTES ≤ Network.MAX_BLOCK_BYTES := by decide
  obtain ⟨hfits, hbuf, hlen⟩ := decode_ok_iff.mp h
  exact Network.decode_ok_iff.mpr ⟨hfits, hbuf, hlen.trans hcaps⟩

-- The decoders part exactly on the encodings between the two block caps.
theorem decoders_agree_iff (host : NodeHost) (buf : Bytes) :
    Agree host buf ↔ buf.length ≤ MAX_BLOCK_BYTES ∨ Network.MAX_BLOCK_BYTES < buf.length ∨
      ∀ b, Network.Fits Network.MAX_TX_BYTES b → buf ≠ Network.encode b := by
  constructor
  · rintro (⟨hnetwork, -⟩ | ⟨b, -, hlight, -⟩)
    · by_contra hapart
      push Not at hapart
      obtain ⟨-, hlen, b, hfits, hbuf⟩ := hapart
      exact hnetwork b (Network.decode_ok_iff.mpr ⟨hfits, hbuf, hlen⟩)
    · exact Or.inl (decode_ok_iff.mp hlight).2.2
  · intro halike
    by_cases hlight : ∃ b, decode buf = .ok b
    · obtain ⟨b, hlight⟩ := hlight
      exact Or.inr ⟨b, network_decode hlight, hlight, rfl, recomputeTxsRoot_eq host b,
        shallowVerify_eq host b⟩
    · refine Or.inl ⟨?_, fun b hb => hlight ⟨b, hb⟩⟩
      intro b hb
      obtain ⟨hfits, hbuf, hlen⟩ := Network.decode_ok_iff.mp hb
      rcases halike with hshort | hlong | hforeign
      · exact hlight ⟨b, decode_ok_iff.mpr ⟨hfits, hbuf, hshort⟩⟩
      · omega
      · exact hforeign b hfits hbuf

-- A block of so many transactions of one size.
def paddedBlock (count size : Nat) : WireBlock where
  number := 1
  parentHash := 0#256
  timestamp := 10#64
  view := 0#32
  txsRoot := 0#256
  stateRoot := 0#256
  proposer := 1#160
  proposerSig := []
  rawTxs := List.replicate count (List.replicate size 0#8)

theorem fits_paddedBlock {maxTxBytes count size : Nat} (hsize : size ≤ maxTxBytes) :
    Network.Fits maxTxBytes (paddedBlock count size) := by
  have hnumber : 1 < 256 ^ 8 := by decide
  refine ⟨hnumber, Nat.zero_le _, ?_⟩
  intro raw hraw
  rw [List.eq_of_mem_replicate hraw, List.length_replicate]
  exact hsize

theorem length_encode_paddedBlock (count size : Nat) :
    (Network.encode (paddedBlock count size)).length = 144 + count * (4 + size) := by
  have hraws : ((paddedBlock count size).rawTxs.flatMap Network.putBytes).length =
      count * (4 + size) := by
    simp [paddedBlock, List.flatMap_replicate, List.length_flatten, Network.length_putBytes]
  rw [Network.length_encode, hraws]
  rfl

-- The network crate accepts 33 transactions of the greatest size and the light client does
-- not.
theorem decoders_disagree : ¬ Agree devnetHost (Network.encode (paddedBlock 33 MAX_TX_BYTES)) := by
  have hlen := length_encode_paddedBlock 33 MAX_TX_BYTES
  have hnetwork : Network.decode (Network.encode (paddedBlock 33 MAX_TX_BYTES)) =
      .ok (paddedBlock 33 MAX_TX_BYTES) := by
    refine Network.decode_ok_iff.mpr ⟨fits_paddedBlock (by decide), rfl, ?_⟩
    rw [hlen]
    decide
  rintro (⟨hnone, -⟩ | ⟨b, -, hlight, -⟩)
  · exact hnone _ hnetwork
  · have hshort := (decode_ok_iff.mp hlight).2.2
    rw [hlen] at hshort
    exact absurd hshort (by decide)

end Ubi2.RuntimeWasm
