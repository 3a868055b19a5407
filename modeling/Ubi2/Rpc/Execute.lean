import Ubi2.Rpc.Logs
import Ubi2.Runtime.StateRoot

namespace Ubi2.Rpc

open Ubi2.Runtime Ubi2.Lib Ubi2.Lib.Encode Ubi2.Exec

-- The signing key of a proposer and the address derived from it.
structure ProposerKey where
  address : Address
  signPrehash : Hash → Bytes

-- A key of the tests.
def ProposerKey.devnet (address : Address) : ProposerKey where
  address := address
  signPrehash := fun hash => beBytes hash ++ beBytes address ++ List.replicate 13 0#8

-- An authenticated block off the canonical chain, under its own hash.
structure ForkBlockEntry extends WireBlock where
  hash : Hash
deriving DecidableEq

abbrev HashIndex := Table (Prod.fst : Hash × Nat → Hash)
abbrev RawTxs := Table (Prod.fst : Hash × Bytes → Hash)
abbrev RecentStates := Table (Prod.fst : Nat × MemState → Nat)
abbrev ForkStore := Table ForkBlockEntry.hash

-- The canonical chain with its state, its indexes and the mempool. The genesis block is
-- always there, so the chain has a head, and the index of a hash is that of a block.
structure Inner where
  state : MemState
  blocks : List Block
  blocksByHash : HashIndex
  txs : Table StoredTx.hash
  mempool : List PendingTx
  addrIndex : AddrIndex
  rawTx : RawTxs
  genesisPresent : blocks ≠ []
  indexed : ∀ e ∈ blocksByHash.rows, ∃ h : e.2 < blocks.length, (blocks.get ⟨e.2, h⟩).hash = e.1

def Inner.head (g : Inner) : Block := g.blocks.getLast g.genesisPresent

-- A node. The genesis anchor is a function of the state it was sealed over, which is
-- what is kept of it. The heads are the blocks its subscribers have been sent.
structure Chain where
  inner : Inner
  proposerKey : Option ProposerKey
  genesisAnchor : Option MemState
  recentStates : RecentStates
  forkStore : ForkStore
  heads : List Block

-- A node at genesis, before its state is seeded.
def Chain.new (host : NodeHost) (proposerKey : Option ProposerKey) (genesisTime : U64) :
    Chain :=
  let genesisHash := computeHash host 0 0#256 genesisTime 0#32 (computeTxsRoot host []) 0#256
    0#160
  { inner :=
      { state := {}
        blocks :=
          [{ number := 0, hash := genesisHash, parentHash := 0#256, timestamp := genesisTime
             view := 0#32, txsRoot := computeTxsRoot host [], stateRoot := 0#256
             proposer := 0#160, proposerSig := [], txs := [] }]
        blocksByHash := ⟨[(genesisHash, 0)], List.pairwise_singleton _ _⟩
        txs := ∅
        mempool := []
        addrIndex := ∅
        rawTx := ∅
        genesisPresent := by simp
        indexed := by simp }
    proposerKey := proposerKey
    genesisAnchor := none
    recentStates := ∅
    forkStore := ∅
    heads := [] }

-- The state the transactions of a block run from: genesis gets its validators at the
-- first block, and every epoch boundary gets new ones.
def blockStart (number : Nat) (s : MemState) : MemState :=
  let s := if number = 1 then s.refreshEpochValidators else s
  if number % EPOCH_BLOCKS.toNat = 0 then s.refreshEpochValidators else s

-- The identity of a block while it runs, from what is known before it does.
def entropyHash (host : NodeHost) (number : Nat) (parentHash : Hash) (timestamp : U64)
    (view : U32) : Hash :=
  computeHash host number parentHash timestamp view 0#256 0#256 0#160

def blockCtx (host : NodeHost) (number : Nat) (parentHash : Hash) (timestamp : U64)
    (view : U32) : BlockCtx where
  timestamp := timestamp
  number := BitVec.ofNat 64 number
  blockHash := entropyHash host number parentHash timestamp view

-- What the loop over the transactions of a block builds up.
structure Mined where
  state : MemState
  txs : Table StoredTx.hash
  addrIndex : AddrIndex
  stored : List StoredTx

def minedTx (ctx : BlockCtx) (number i : Nat) (p : PendingTx) (outcome : OpOutcome)
    (logs : List TxLog) : StoredTx where
  hash := p.hash
  from_ := p.from_
  to_ := some p.txTo
  value := p.value.setWidth 256
  nonce := p.nonce
  blockNumber := number
  blockHash := ctx.blockHash
  txIndex := i
  input := p.input
  logs := logs
  gasUsed := p.kind.gas
  success := outcome.success
  revertReason := if outcome.success then none else outcome.revertReason
  txType := p.txType
  maxFeePerGas := p.maxFeePerGas
  maxPriorityFeePerGas := p.maxPriorityFeePerGas

def Mined.store (m : Mined) (tx : StoredTx) (extra : List Address) : Mined :=
  { m with
    txs := m.txs.put tx
    addrIndex := extra.foldl (fun index a => index.push a tx.hash) (indexTx m.addrIndex tx)
    stored := m.stored ++ [tx] }

-- A transaction that cannot pay its fee is dropped: it leaves no stored transaction.
def recordTx (host : NodeHost) (ctx : BlockCtx) (number i : Nat) (p : PendingTx) (m : Mined) :
    Option OpOutcome × MemState → Mined
  | (none, s) => { m with state := s }
  | (some outcome, s) =>
    let logs :=
      if outcome.success then
        buildOpLogs host s p outcome.result (preStatusForSubject m.state p)
      else []
    let extra := if outcome.success then contractEffectAddresses s p.kind else []
    Mined.store { m with state := s } (minedTx ctx number i p outcome logs) extra

-- `none` is a panic.
def mineTx (host : NodeHost) (ctx : BlockCtx) (number i : Nat) (p : PendingTx) (m : Mined) :
    Option Mined :=
  (applyTx host.toHost ctx (kernelTxFromPending p) m.state).map
    (recordTx host ctx number i p m)

def mineTxs (host : NodeHost) (ctx : BlockCtx) (number : Nat) :
    Nat → List PendingTx → Mined → Option Mined
  | _, [], m => some m
  | i, p :: pending, m =>
    (mineTx host ctx number i p m).bind (mineTxs host ctx number (i + 1) pending)

def sweepHash (host : NodeHost) (ctx : BlockCtx) : Hash :=
  host.keccak256 (beBytes ctx.blockHash ++ strBytes "humanity-finalize-sweep")

def sweepTx (host : NodeHost) (ctx : BlockCtx) (number txIndex : Nat) (logs : List TxLog) :
    StoredTx where
  hash := sweepHash host ctx
  from_ := HUMANITY_HUB
  to_ := some HUMANITY_HUB
  value := 0#256
  nonce := 0#64
  blockNumber := number
  blockHash := ctx.blockHash
  txIndex := txIndex
  input := []
  logs := logs
  gasUsed := 0#64
  success := true
  revertReason := none
  txType := 0#8
  maxFeePerGas := none
  maxPriorityFeePerGas := none

-- The sweeps after the transactions. Their logs, if any, are carried by a transaction of
-- the system.
def mineSweeps (host : NodeHost) (ctx : BlockCtx) (number : Nat) (m : Mined) : Mined :=
  let scan := sweepSybilScan host m.state ctx.blockHash ctx.number
  let finalize := sweepFinalize host scan.2 ctx.number ctx.timestamp
  let sweepLogs := scan.1 ++ finalize.1
  let m := { m with state := finalize.2 }
  if sweepLogs = [] then m
  else m.store (sweepTx host ctx number m.stored.length sweepLogs) []

-- The author and the signature of a block: those given with it, or those of the node's
-- own key, or neither.
def stampOf (key : Option ProposerKey) (proposerOverride : Option (Address × Bytes)) :
    Address × (Hash → Bytes) :=
  match proposerOverride with
  | some (proposer, sig) => (proposer, fun _ => sig)
  | none =>
    match key with
    | some key => (key.address, key.signPrehash)
    | none => (0#160, fun _ => [])

def mineBlock (host : NodeHost) (key : Option ProposerKey) (parent : Block)
    (userTxCount : Nat) (timestamp : U64) (view : U32)
    (proposerOverride : Option (Address × Bytes)) (m : Mined) : Block :=
  let number := parent.number + 1
  let txsRoot := computeTxsRoot host (m.stored.take (min userTxCount m.stored.length))
  let root := stateRoot m.state
  let stamp := stampOf key proposerOverride
  let hash := computeHash host number parent.hash timestamp view txsRoot root stamp.1
  { number := number
    hash := hash
    parentHash := parent.hash
    timestamp := timestamp
    view := view
    txsRoot := txsRoot
    stateRoot := root
    proposer := stamp.1
    proposerSig := stamp.2 hash
    txs := m.stored.map fun tx => { tx with blockHash := hash } }

def Inner.append (g : Inner) (m : Mined) (b : Block) : Inner where
  state := m.state
  blocks := g.blocks ++ [b]
  blocksByHash := g.blocksByHash.put (b.hash, g.blocks.length)
  txs := b.txs.foldl Table.put m.txs
  mempool := g.mempool
  addrIndex := m.addrIndex
  rawTx := g.rawTx
  genesisPresent := by simp
  indexed e he := by
    rcases Table.mem_put.mp he with rfl | ⟨hmem, -⟩
    · exact ⟨by simp, by simp⟩
    · obtain ⟨h, hhash⟩ := g.indexed e hmem
      refine ⟨by rw [List.length_append]; omega, ?_⟩
      simpa [List.getElem_append_left h] using hhash

-- Remember the state of the parent, and forget those no reorg can reach.
def rememberState (recent : RecentStates) (number : Nat) (s : MemState) : RecentStates :=
  (recent.put (number - 1, s)).filter (fun e => number - (FINALITY_DEPTH + 1) ≤ e.1)

def sealAnchor (anchor : Option MemState) (number : Nat) (s : MemState) : Option MemState :=
  if number = 1 then anchor.or (some s.refreshEpochValidators) else anchor

-- The context and the start of the block above the head.
def Inner.nextCtx (g : Inner) (host : NodeHost) (timestamp : U64) (view : U32) : BlockCtx :=
  blockCtx host (g.head.number + 1) g.head.hash timestamp view

def Inner.start (g : Inner) : Mined where
  state := blockStart (g.head.number + 1) g.state
  txs := g.txs
  addrIndex := g.addrIndex
  stored := []

-- The transactions and the sweeps of the block above the head. `none` is a panic.
def mine (host : NodeHost) (g : Inner) (pending : List PendingTx) (timestamp : U64)
    (view : U32) : Option Mined :=
  let ctx := g.nextCtx host timestamp view
  (mineTxs host ctx (g.head.number + 1) 0 pending g.start).map
    (mineSweeps host ctx (g.head.number + 1))

namespace Chain

def head (chain : Chain) : Block := chain.inner.head

def executeBlock (host : NodeHost) (chain : Chain) (pending : List PendingTx)
    (timestamp : U64) (view : U32) (proposerOverride : Option (Address × Bytes)) :
    Option (Block × Chain) :=
  let number := chain.head.number + 1
  match mine host chain.inner pending timestamp view with
  | none => none
  | some m =>
    let b := mineBlock host chain.proposerKey chain.head pending.length timestamp view
      proposerOverride m
    some (b,
      { chain with
        inner := chain.inner.append m b
        recentStates := rememberState chain.recentStates number chain.inner.state
        genesisAnchor := sealAnchor chain.genesisAnchor number chain.inner.state
        heads := chain.heads ++ [b] })

def produceBlockAtView (host : NodeHost) (chain : Chain) (timestamp : U64) (view : U32) :
    Option (Block × Chain) :=
  executeBlock host { chain with inner := { chain.inner with mempool := [] } }
    chain.inner.mempool timestamp view none

def produceBlock (host : NodeHost) (chain : Chain) (timestamp : U64) :
    Option (Block × Chain) :=
  produceBlockAtView host chain timestamp 0#32

-- The raw bytes of the transactions of a block, where they are cached.
def rawTxsForBlock (chain : Chain) (b : Block) : List Bytes :=
  b.txs.filterMap fun tx => (chain.inner.rawTx.get tx.hash).map Prod.snd

def cacheRawTxs (host : NodeHost) (chain : Chain) (raws : List Bytes) : Chain :=
  { chain with
    inner := { chain.inner with
      rawTx := raws.foldl (fun t raw => t.put (host.keccak256 raw, raw)) chain.inner.rawTx } }

def wireBlockFrom (chain : Chain) (b : Block) : WireBlock where
  number := b.number
  parentHash := b.parentHash
  timestamp := b.timestamp
  view := b.view
  txsRoot := b.txsRoot
  stateRoot := b.stateRoot
  proposer := b.proposer
  proposerSig := b.proposerSig
  rawTxs := chain.rawTxsForBlock b

end Chain

end Ubi2.Rpc
