import Ubi2.Exec.Apply
import Ubi2.Lib.Decode

namespace Ubi2.Rpc

open Ubi2.Runtime Ubi2.Lib Ubi2.Lib.Encode Ubi2.Exec

abbrev U256 := BitVec 256

-- Heights are counted in natural numbers: a chain is a list of blocks in memory.
def FINALITY_DEPTH : Nat := 6
def MAX_FORK_STORE : Nat := 256

structure TxLog where
  address : Address
  topics : List Hash
  data : Bytes
deriving DecidableEq

structure StoredTx where
  hash : Hash
  from_ : Address
  to_ : Option Address
  value : U256
  nonce : U64
  blockNumber : Nat
  blockHash : Hash
  txIndex : Nat
  input : Bytes
  logs : List TxLog
  gasUsed : U64
  success : Bool
  revertReason : Option String
  txType : U8
  maxFeePerGas : Option U128
  maxPriorityFeePerGas : Option U128
deriving DecidableEq

-- A transaction admitted to the mempool. Its kind is the kernel's, field for field.
structure PendingTx where
  hash : Hash
  from_ : Address
  txTo : Address
  value : U128
  nonce : U64
  input : Bytes
  kind : KernelKind
  txType : U8
  maxFeePerGas : Option U128
  maxPriorityFeePerGas : Option U128

def kernelTxFromPending (p : PendingTx) : KernelTx where
  txHash := p.hash
  from_ := p.from_
  nonce := p.nonce
  value := p.value
  kind := p.kind

-- What a node adds to the kernel's host: the decoder of raw transactions for its
-- chain id, and the recovery of the signer of a 32-byte hash.
structure NodeHost extends Host where
  decodePendingTx : Bytes → Option PendingTx
  recoverProposer : Hash → Bytes → Option Address

-- The host of the tests: it hashes as the state root does, and a signature is the hash
-- that is signed, the address that signed it and padding.
def devnetHost : NodeHost where
  toHost := { mockHost with keccak256 := fnv1a256 }
  decodePendingTx := fun _ => none
  recoverProposer := fun hash sig =>
    if sig.length = 65 ∧ sig.take 32 = beBytes hash then
      some (BitVec.ofNat 160 (Decode.ofBytes ((sig.drop 32).take 20)))
    else none

-- A block as it is gossiped: the header, its signature and the raw user transactions.
structure WireBlock where
  number : Nat
  parentHash : Hash
  timestamp : U64
  view : U32
  txsRoot : Hash
  stateRoot : Hash
  proposer : Address
  proposerSig : Bytes
  rawTxs : List Bytes
deriving DecidableEq

structure Block where
  number : Nat
  hash : Hash
  parentHash : Hash
  timestamp : U64
  view : U32
  txsRoot : Hash
  stateRoot : Hash
  proposer : Address
  proposerSig : Bytes
  txs : List StoredTx
deriving DecidableEq

def headerPreimage (number : Nat) (parentHash : Hash) (timestamp : U64) (view : U32)
    (txsRoot stateRoot : Hash) (proposer : Address) : Bytes :=
  natBytes 8 number ++ beBytes parentHash ++ beBytes timestamp ++ beBytes view ++
    beBytes txsRoot ++ beBytes stateRoot ++ beBytes proposer

def computeHash (host : NodeHost) (number : Nat) (parentHash : Hash) (timestamp : U64)
    (view : U32) (txsRoot stateRoot : Hash) (proposer : Address) : Hash :=
  host.keccak256
    (headerPreimage number parentHash timestamp view txsRoot stateRoot proposer)

-- The hash of a count and of that many transaction hashes.
def txsRootOf (host : NodeHost) (hashes : List Hash) : Hash :=
  host.keccak256 (counted beBytes hashes)

def computeTxsRoot (host : NodeHost) (txs : List StoredTx) : Hash :=
  txsRootOf host (txs.map StoredTx.hash)

def WireBlock.hash (host : NodeHost) (b : WireBlock) : Hash :=
  computeHash host b.number b.parentHash b.timestamp b.view b.txsRoot b.stateRoot b.proposer

inductive BlockError where
  | NonContiguous (have_ got : Nat)
  | WrongParent
  | BadTimestamp
  | WrongProposer
  | BadSignature
  | NoValidatorSet
  | ViewOutOfRange (view : U32)
  | UndecodableTx
  | StateRootMismatch (expected got : Hash)
deriving DecidableEq

-- The round-robin index of a height and a view in a set of `n` validators.
def proposerIndex (height : Nat) (view : U32) (n : Nat) : Nat :=
  if n = 0 then 0 else (height + view.toNat) % n

theorem proposerIndex_lt (height : Nat) (view : U32) {n : Nat} (hn : 0 < n) :
    proposerIndex height view n < n := by
  rw [proposerIndex, if_neg (by omega)]
  exact Nat.mod_lt _ hn

-- The order in which chain tips are compared.
structure TipKey where
  height : Nat
  view : U32
  hash : Hash
deriving DecidableEq

-- A greater height wins, then a lower view, then a lower hash.
def forkChoicePrefers (a b : TipKey) : Bool :=
  match compare a.height b.height with
  | .gt => true
  | .lt => false
  | .eq =>
    match compare a.view b.view with
    | .lt => true
    | .gt => false
    | .eq => a.hash < b.hash

theorem forkChoicePrefers_iff {a b : TipKey} :
    forkChoicePrefers a b = true ↔ b.height < a.height ∨
      (a.height = b.height ∧ (a.view < b.view ∨ (a.view = b.view ∧ a.hash < b.hash))) := by
  rw [forkChoicePrefers]
  cases hh : compare a.height b.height with
  | lt =>
    have := compare_lt_iff_lt.mp hh
    simp
    omega
  | gt =>
    have := compare_gt_iff_gt.mp hh
    simp [this]
  | eq =>
    have hh := compare_eq_iff_eq.mp hh
    cases hv : compare a.view b.view with
    | lt => simp [hh, compare_lt_iff_lt.mp hv]
    | gt =>
      have hv := compare_gt_iff_gt.mp hv
      simp [hh, not_lt_of_gt hv, ne_of_gt hv]
    | eq => simp [hh, compare_eq_iff_eq.mp hv]

theorem forkChoicePrefers_trans {a b c : TipKey} (hab : forkChoicePrefers a b)
    (hbc : forkChoicePrefers b c) : forkChoicePrefers a c := by
  rw [forkChoicePrefers_iff] at *
  rcases hab with hab | ⟨hh, hab⟩ <;> rcases hbc with hbc | ⟨hh', hbc⟩
  · exact Or.inl (hbc.trans hab)
  · exact Or.inl (hh' ▸ hab)
  · exact Or.inl (hh ▸ hbc)
  · refine Or.inr ⟨hh.trans hh', ?_⟩
    rcases hab with hab | ⟨hv, hab⟩ <;> rcases hbc with hbc | ⟨hv', hbc⟩
    · exact Or.inl (hab.trans hbc)
    · exact Or.inl (hv' ▸ hab)
    · exact Or.inl (hv ▸ hbc)
    · exact Or.inr ⟨hv.trans hv', hab.trans hbc⟩

theorem not_forkChoicePrefers_self (a : TipKey) : ¬ forkChoicePrefers a a := by
  simp [forkChoicePrefers_iff]

theorem forkChoicePrefers_connected {a b : TipKey} (h : ¬ forkChoicePrefers a b) :
    a = b ∨ forkChoicePrefers b a := by
  rw [forkChoicePrefers_iff] at *
  push Not at h
  obtain ⟨hheight, htie⟩ := h
  rcases Nat.lt_or_ge a.height b.height with hlt | hge
  · exact Or.inr (Or.inl hlt)
  · have heq : a.height = b.height := by omega
    obtain ⟨hview, hhash⟩ := htie heq
    rcases lt_or_eq_of_le hview with hlt | hv
    · exact Or.inr (Or.inr ⟨heq.symm, Or.inl hlt⟩)
    · rcases lt_or_eq_of_le (hhash hv.symm) with hlt | hhash
      · exact Or.inr (Or.inr ⟨heq.symm, Or.inr ⟨hv, hlt⟩⟩)
      · obtain ⟨ah, av, ahash⟩ := a
        obtain ⟨bh, bv, bhash⟩ := b
        simp_all

def Block.tipKey (b : Block) : TipKey := ⟨b.number, b.view, b.hash⟩

end Ubi2.Rpc
