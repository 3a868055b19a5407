import Ubi2.Rpc.Execute

namespace Ubi2.Rpc

open Ubi2.Runtime Ubi2.Lib Ubi2.Exec

def MEMPOOL_MAX_TXS : Nat := 4096
def MEMPOOL_MAX_PER_SENDER : Nat := 64

-- Why the submit gate turns a transaction away.
inductive GateError where
  | MempoolFull
  | SenderFull
  | BadNonce (expected got : U64)
  | Insufficient (forDeposit : Bool) (have_ need pendingCommitted : U128)
deriving DecidableEq

def GateError.message : GateError → String
  | .MempoolFull => s!"mempool full: at global cap of {MEMPOOL_MAX_TXS} txs"
  | .SenderFull =>
    s!"mempool full for sender: at per-sender cap of {MEMPOOL_MAX_PER_SENDER} txs"
  | .BadNonce expected got =>
    let off := if got < expected then "low" else "high"
    s!"nonce too {off}: expected {expected.toNat}, got {got.toNat}"
  | .Insufficient forDeposit h need pendingCommitted =>
    let what := if forDeposit then "balance for deposit" else "balance"
    let pendingNote :=
      if 0#128 < pendingCommitted then
        s!" (incl. {pendingCommitted.toNat} already pending from this sender)"
      else ""
    s!"insufficient {what}: have {h.toNat}, need {need.toNat}{pendingNote}"

inductive IngestError where
  | Undecodable
  | Refused (e : GateError)
deriving DecidableEq

def depositOf : KernelKind → U128
  | .OpenStream _ _ deposit => deposit
  | _ => 0#128

def opensStream : KernelKind → Bool
  | .OpenStream .. => true
  | _ => false

-- What a queued transaction takes from the spendable balance of its sender.
def spendableDebit (value : U128) (kind : KernelKind) : U128 :=
  Word.satAdd (Word.satAdd value (depositOf kind)) (feeForGas kind.gas)

def PendingTx.debit (p : PendingTx) : U128 := spendableDebit p.value p.kind

def senderPending (mempool : List PendingTx) (from_ : Address) : List PendingTx :=
  mempool.filter fun p => p.from_ = from_

def pendingCommitted (pending : List PendingTx) : U128 :=
  pending.foldl (fun acc p => Word.satAdd acc p.debit) 0#128

-- The affordability and nonce checks of a submission, at the clock of the node.
def submitGate (g : Inner) (now : U64) (p : PendingTx) : Option GateError :=
  let acct := g.state.account p.from_
  let settled := acct.balance now
  let pending := senderPending g.mempool p.from_
  if MEMPOOL_MAX_TXS ≤ g.mempool.length then some .MempoolFull
  else if MEMPOOL_MAX_PER_SENDER ≤ pending.length then some .SenderFull
  else
    let expected := acct.nonce + BitVec.ofNat 64 pending.length
    if p.nonce ≠ expected then some (.BadNonce expected p.nonce)
    else
      let committed := pendingCommitted pending
      let need := Word.satAdd committed p.debit
      if settled < need then some (.Insufficient (opensStream p.kind) settled need committed)
      else none

namespace Chain

-- An admitted transaction is cached under its hash and queued last.
def enqueue (chain : Chain) (p : PendingTx) (raw : Bytes) : Chain :=
  { chain with
    inner := { chain.inner with
      rawTx := chain.inner.rawTx.put (p.hash, raw)
      mempool := chain.inner.mempool ++ [p] } }

def ingestRawTx (host : NodeHost) (chain : Chain) (now : U64) (raw : Bytes) :
    Except IngestError Hash × Chain :=
  match host.decodePendingTx raw with
  | none => (.error .Undecodable, chain)
  | some p =>
    match submitGate chain.inner now p with
    | some e => (.error (.Refused e), chain)
    | none => (.ok p.hash, chain.enqueue p raw)

-- Whether a transaction is queued or mined.
def knowsTx (chain : Chain) (hash : Hash) : Bool :=
  chain.inner.txs.contains hash || chain.inner.mempool.any fun p => p.hash = hash

-- The raw bytes of the queued transactions, where they are cached.
def pendingRawTxs (chain : Chain) : List Bytes :=
  chain.inner.mempool.filterMap fun p => (chain.inner.rawTx.get p.hash).map Prod.snd

end Chain

-- A submission is refused and changes nothing, or passes the gate and is queued.
theorem ingestRawTx_cases {host : NodeHost} {chain chain' : Chain} {now : U64} {raw : Bytes}
    {r : Except IngestError Hash} (h : chain.ingestRawTx host now raw = (r, chain')) :
    (∃ e, r = .error e ∧ chain' = chain) ∨
    ∃ p, host.decodePendingTx raw = some p ∧ submitGate chain.inner now p = none ∧
      r = .ok p.hash ∧ chain' = chain.enqueue p raw := by
  rw [Chain.ingestRawTx] at h
  split at h
  · cases h
    exact Or.inl ⟨_, rfl, rfl⟩
  · rename_i p hdecode
    split at h
    · cases h
      exact Or.inl ⟨_, rfl, rfl⟩
    · rename_i hgate
      cases h
      exact Or.inr ⟨p, hdecode, hgate, rfl, rfl⟩

-- What the gate establishes of what it lets through.
theorem submitGate_eq_none {g : Inner} {now : U64} {p : PendingTx} :
    submitGate g now p = none ↔
      g.mempool.length < MEMPOOL_MAX_TXS ∧
      (senderPending g.mempool p.from_).length < MEMPOOL_MAX_PER_SENDER ∧
      p.nonce = (g.state.account p.from_).nonce +
        BitVec.ofNat 64 (senderPending g.mempool p.from_).length ∧
      Word.satAdd (pendingCommitted (senderPending g.mempool p.from_)) p.debit ≤
        (g.state.account p.from_).balance now := by
  rw [submitGate]
  constructor
  · intro h
    dsimp only at h
    split_ifs at h with hfull hsender hnonce hfunds
    exact ⟨not_le.mp hfull, not_le.mp hsender, not_not.mp hnonce, not_lt.mp hfunds⟩
  · rintro ⟨hfull, hsender, hnonce, hfunds⟩
    dsimp only
    rw [if_neg (not_le.mpr hfull), if_neg (not_le.mpr hsender), if_neg (not_not.mpr hnonce),
      if_neg (not_lt.mpr hfunds)]

end Ubi2.Rpc
