import Ubi2.Lib.SparseTree
import Ubi2.Runtime.Zkpoh

namespace Ubi2.StatusSnapshot

open Ubi2.Runtime Ubi2.Lib

def PACKED_STATUS_SOURCE_SCHEMA : String := "org.proofofhumanity.v2-packed-status-source/1"
def PACKED_STATUS_SNAPSHOT_SCHEMA : String := "org.proofofhumanity.v2-packed-status-snapshot/1"
def PACKED_STATUS_WITNESS_SCHEMA : String := "org.proofofhumanity.v2-packed-status-witness/1"

def PACKED_STATUS_DEPTH : Nat := 24
def MAX_NEXT_STATUS_ID : Nat := 4294967296
def MAX_CHUNK_INDEX : Nat := 1 <<< PACKED_STATUS_DEPTH - 1

def U32_MAX : Nat := 4294967295
def U64_MAX : Nat := 18446744073709551615

def ZERO_HASH : Hash := 0#256
def ZERO_ADDRESS : Address := 0#160

def REGISTRY_NODE_DOMAIN : Nat := 3
def PACKED_STATUS_LEAF_DOMAIN : Nat := 8

-- The scalar field of the curve.
def BN254_FR : Nat :=
  0x30644e72e131a029b85045b68181585d2833e84879b9709143e1f593f0000001

instance : NeZero BN254_FR := ⟨by decide⟩

abbrev StatusField := Fin BN254_FR

-- The hash of a domain and its inputs.
abbrev Poseidon := Nat → List StatusField → StatusField

structure SourceBlockRef where
  number : Nat
  hash : Hash
  parentHash : Hash
deriving DecidableEq, Repr

inductive PackedStatusSourceEvent where
  | CredentialAllocated (logIndex : Nat) (issuerKeyId : Hash) (statusId : Nat)
  | CredentialRevoked (logIndex : Nat) (issuerKeyId : Hash) (statusId : Nat)
      (authorizationReference : Hash)
deriving DecidableEq, Repr

namespace PackedStatusSourceEvent

def logIndex : PackedStatusSourceEvent → Nat
  | CredentialAllocated logIndex _ _ => logIndex
  | CredentialRevoked logIndex _ _ _ => logIndex

def issuerKeyId : PackedStatusSourceEvent → Hash
  | CredentialAllocated _ issuerKeyId _ => issuerKeyId
  | CredentialRevoked _ issuerKeyId _ _ => issuerKeyId

end PackedStatusSourceEvent

structure FinalizedStatusBlock where
  source : SourceBlockRef
  events : List PackedStatusSourceEvent
deriving DecidableEq, Repr

-- 256 status bits, the low half first.
structure PackedStatusChunk where
  low : U128
  high : U128
deriving DecidableEq, Repr

namespace PackedStatusChunk

def FAIL_CLOSED : PackedStatusChunk := ⟨BitVec.allOnes 128, BitVec.allOnes 128⟩

def isRevokedOrUnallocated (chunk : PackedStatusChunk) (bit : Nat) : Bool :=
  if bit < 128 then chunk.low &&& (1#128 <<< bit) ≠ 0#128
  else chunk.high &&& (1#128 <<< (bit - 128)) ≠ 0#128

def setLimbBit (limb : U128) (bit : Nat) (failClosed : Bool) : U128 :=
  if failClosed then limb ||| (1#128 <<< bit) else limb &&& ~~~(1#128 <<< bit)

def withFailClosedBit (chunk : PackedStatusChunk) (bit : Nat) (failClosed : Bool) :
    PackedStatusChunk :=
  if bit < 128 then { chunk with low := setLimbBit chunk.low bit failClosed }
  else { chunk with high := setLimbBit chunk.high (bit - 128) failClosed }

def fields (chunk : PackedStatusChunk) : List StatusField :=
  [Fin.ofNat BN254_FR chunk.low.toNat, Fin.ofNat BN254_FR chunk.high.toNat]

end PackedStatusChunk

inductive PackedStatusSnapshotError where
  | InvalidTrustAnchor
  | InvalidSourceEncoding
  | InvalidSnapshotEncoding
  | InvalidSnapshotState
  | SnapshotRootMismatch
  | CheckpointSourceMismatch
  | BlockNumberOverflow
  | NonContiguousBlock
  | ParentHashMismatch
  | DuplicateBlockHash
  | NonCanonicalLogOrder
  | WrongIssuer
  | UnexpectedStatusId
  | StatusAlreadyAllocated
  | StatusSlotsExhausted
  | UnallocatedStatus
  | StatusAlreadyRevoked
  | InvalidRevocationAuthorization
  | UnknownAncestor
deriving DecidableEq, Repr

section
variable (poseidon : Poseidon)

def packedStatusLeafNative (fields : List StatusField) : StatusField :=
  poseidon PACKED_STATUS_LEAF_DOMAIN fields

def registryNode (left right : StatusField) : StatusField :=
  poseidon REGISTRY_NODE_DOMAIN [left, right]

-- The node of each level above chunks without a clear bit.
def defaults (level : Nat) : StatusField :=
  SparseTree.uniform (registryNode poseidon)
    (packedStatusLeafNative poseidon PackedStatusChunk.FAIL_CLOSED.fields) level

def rootFromPath (leaf : StatusField) (leafIndex : Nat) (siblings : List StatusField) :
    StatusField :=
  siblings.zipIdx.foldl
    (fun current (sibling, level) =>
      if leafIndex &&& (1 <<< level) = 0 then registryNode poseidon current sibling
      else registryNode poseidon sibling current)
    leaf

end

structure PackedStatusWitness where
  schema : String
  statusId : Nat
  root : StatusField
  chunkIndex : Nat
  chunk : PackedStatusChunk
  siblings : List StatusField
deriving DecidableEq, Repr

namespace PackedStatusWitness

def isActive (w : PackedStatusWitness) : Bool :=
  !w.chunk.isRevokedOrUnallocated (w.statusId &&& 0xff)

def recomputeRoot (poseidon : Poseidon) (w : PackedStatusWitness) : StatusField :=
  rootFromPath poseidon (packedStatusLeafNative poseidon w.chunk.fields) w.chunkIndex w.siblings

end PackedStatusWitness

structure PackedStatusSnapshotChunk where
  index : Nat
  value : PackedStatusChunk
deriving DecidableEq, Repr

structure PackedStatusSnapshot where
  schema : String
  chainId : Nat
  issuanceRegistry : Address
  issuerKeyId : Hash
  source : SourceBlockRef
  nextStatusId : Nat
  root : StatusField
  chunks : List PackedStatusSnapshotChunk
deriving DecidableEq, Repr

structure EventUndo where
  statusId : Nat
  previousChunk : PackedStatusChunk
deriving DecidableEq, Repr

structure BlockUndo where
  source : SourceBlockRef
  previousTip : SourceBlockRef
  previousNextStatusId : Nat
  events : List EventUndo
deriving DecidableEq, Repr

-- The history has the last block first.
structure PackedStatusSnapshotBuilder where
  chainId : Nat
  issuanceRegistry : Address
  issuerKeyId : Hash
  anchor : SourceBlockRef
  tip : SourceBlockRef
  nextStatusId : Nat
  chunks : Table (Prod.fst : Nat × PackedStatusChunk → Nat)
  nodes : SparseTree.Store StatusField
  history : List BlockUndo
deriving DecidableEq

namespace PackedStatusSnapshotBuilder

def new (chainId : Nat) (issuanceRegistry : Address) (issuerKeyId : Hash)
    (anchor : SourceBlockRef) :
    Except PackedStatusSnapshotError PackedStatusSnapshotBuilder :=
  if chainId = 0 ∨ issuanceRegistry = ZERO_ADDRESS ∨ issuerKeyId = ZERO_HASH ∨
      anchor.hash = ZERO_HASH then
    .error .InvalidTrustAnchor
  else
    .ok
      { chainId := chainId
        issuanceRegistry := issuanceRegistry
        issuerKeyId := issuerKeyId
        anchor := anchor
        tip := anchor
        nextStatusId := 1
        chunks := ∅
        nodes := ∅
        history := [] }

def chunk (b : PackedStatusSnapshotBuilder) (index : Nat) : PackedStatusChunk :=
  ((b.chunks.get index).map Prod.snd).getD PackedStatusChunk.FAIL_CLOSED

variable (poseidon : Poseidon)

def node (b : PackedStatusSnapshotBuilder) (level index : Nat) : StatusField :=
  SparseTree.node (defaults poseidon) b.nodes level index

def setChunk (b : PackedStatusSnapshotBuilder) (index : Nat) (chunk : PackedStatusChunk) :
    PackedStatusSnapshotBuilder :=
  { b with
    chunks :=
      if chunk = PackedStatusChunk.FAIL_CLOSED then b.chunks.erase index
      else b.chunks.put (index, chunk)
    nodes :=
      SparseTree.update (registryNode poseidon) (defaults poseidon) PACKED_STATUS_DEPTH b.nodes
        index (packedStatusLeafNative poseidon chunk.fields) }

def root (b : PackedStatusSnapshotBuilder) : StatusField :=
  b.node poseidon PACKED_STATUS_DEPTH 0

def undoEvent (b : PackedStatusSnapshotBuilder) (event : EventUndo) :
    PackedStatusSnapshotBuilder :=
  b.setChunk poseidon (event.statusId >>> 8) event.previousChunk

def rollbackEvents (b : PackedStatusSnapshotBuilder) (events : List EventUndo)
    (previousNextStatusId : Nat) : PackedStatusSnapshotBuilder :=
  { events.reverse.foldl (undoEvent poseidon) b with nextStatusId := previousNextStatusId }

-- The status id and the new bit of an event, once its own checks have passed.
def selectStatus (b : PackedStatusSnapshotBuilder) :
    PackedStatusSourceEvent → Except PackedStatusSnapshotError (Nat × Bool)
  | .CredentialAllocated _ _ statusId =>
    if b.nextStatusId > U32_MAX then .error .StatusSlotsExhausted
    else if statusId ≠ b.nextStatusId then .error .UnexpectedStatusId
    else .ok (statusId, false)
  | .CredentialRevoked _ _ statusId authorizationReference =>
    if authorizationReference = ZERO_HASH then .error .InvalidRevocationAuthorization
    else if statusId = 0 ∨ statusId ≥ b.nextStatusId then .error .UnallocatedStatus
    else .ok (statusId, true)

def applyEvent (b : PackedStatusSnapshotBuilder) (event : PackedStatusSourceEvent) :
    Except PackedStatusSnapshotError (EventUndo × PackedStatusSnapshotBuilder) :=
  if event.issuerKeyId ≠ b.issuerKeyId then .error .WrongIssuer
  else
    match b.selectStatus event with
    | .error error => .error error
    | .ok (statusId, failClosed) =>
      let chunkIndex := statusId >>> 8
      let selectedBit := statusId &&& 0xff
      let previousChunk := b.chunk chunkIndex
      if failClosed = previousChunk.isRevokedOrUnallocated selectedBit then
        .error (if failClosed then .StatusAlreadyRevoked else .StatusAlreadyAllocated)
      else
        let marked :=
          b.setChunk poseidon chunkIndex (previousChunk.withFailClosedBit selectedBit failClosed)
        .ok (⟨statusId, previousChunk⟩,
          if failClosed then marked
          else { marked with nextStatusId := marked.nextStatusId + 1 })

-- The loop over the events of a block. The builder comes back also when it fails.
def applyEvents (previousNextStatusId : Nat) :
    List PackedStatusSourceEvent → List EventUndo → Option Nat → PackedStatusSnapshotBuilder →
      Except PackedStatusSnapshotError (List EventUndo) × PackedStatusSnapshotBuilder
  | [], undo, _, b => (.ok undo, b)
  | event :: events, undo, previousLogIndex, b =>
    if previousLogIndex.any fun previous => event.logIndex ≤ previous then
      (.error .NonCanonicalLogOrder, b.rollbackEvents poseidon undo previousNextStatusId)
    else
      match b.applyEvent poseidon event with
      | .ok (eventUndo, b') =>
        applyEvents previousNextStatusId events (undo ++ [eventUndo]) (some event.logIndex) b'
      | .error error => (.error error, b.rollbackEvents poseidon undo previousNextStatusId)

def applyFinalizedBlock (b : PackedStatusSnapshotBuilder) (block : FinalizedStatusBlock) :
    Except PackedStatusSnapshotError Unit × PackedStatusSnapshotBuilder :=
  if b.tip.number = U64_MAX then (.error .BlockNumberOverflow, b)
  else if block.source.number ≠ b.tip.number + 1 then (.error .NonContiguousBlock, b)
  else if block.source.parentHash ≠ b.tip.hash ∨ block.source.hash = ZERO_HASH then
    (.error .ParentHashMismatch, b)
  else if block.source.hash = b.anchor.hash ∨
      b.history.any (fun entry => entry.source.hash = block.source.hash) then
    (.error .DuplicateBlockHash, b)
  else
    match applyEvents poseidon b.nextStatusId block.events [] none b with
    | (.error error, b') => (.error error, b')
    | (.ok undo, b') =>
      (.ok (), { b' with
        tip := block.source
        history :=
          { source := block.source
            previousTip := b.tip
            previousNextStatusId := b.nextStatusId
            events := undo } :: b'.history })

-- Takes the last block back, once its entry is popped from the history.
def popBlock (b : PackedStatusSnapshotBuilder) (entry : BlockUndo) (history : List BlockUndo) :
    PackedStatusSnapshotBuilder :=
  { rollbackEvents poseidon { b with history := history } entry.events
      entry.previousNextStatusId with
    tip := entry.previousTip }

-- Pops the history until the tip has the hash. `none` is a panic on an empty history.
def popUntil (ancestorHash : Hash) : List BlockUndo → PackedStatusSnapshotBuilder →
    Option PackedStatusSnapshotBuilder
  | [], b => if b.tip.hash = ancestorHash then some b else none
  | entry :: history, b =>
    if b.tip.hash = ancestorHash then some b
    else popUntil ancestorHash history (b.popBlock poseidon entry history)

def rewindTo (b : PackedStatusSnapshotBuilder) (ancestorHash : Hash) :
    Option (Except PackedStatusSnapshotError Unit × PackedStatusSnapshotBuilder) :=
  if ancestorHash = b.tip.hash then some (.ok (), b)
  else if ancestorHash ≠ b.anchor.hash ∧
      ¬b.history.any (fun entry => entry.source.hash = ancestorHash) then
    some (.error .UnknownAncestor, b)
  else (popUntil poseidon ancestorHash b.history b).map fun b' => (.ok (), b')

def snapshot (b : PackedStatusSnapshotBuilder) : PackedStatusSnapshot :=
  { schema := PACKED_STATUS_SNAPSHOT_SCHEMA
    chainId := b.chainId
    issuanceRegistry := b.issuanceRegistry
    issuerKeyId := b.issuerKeyId
    source := b.tip
    nextStatusId := b.nextStatusId
    root := b.root poseidon
    chunks := b.chunks.rows.map fun (index, value) => ⟨index, value⟩ }

def witness (b : PackedStatusSnapshotBuilder) (statusId : Nat) :
    Except PackedStatusSnapshotError PackedStatusWitness :=
  if statusId = 0 ∨ statusId ≥ b.nextStatusId then .error .UnallocatedStatus
  else
    let chunkIndex := statusId >>> 8
    .ok
      { schema := PACKED_STATUS_WITNESS_SCHEMA
        statusId := statusId
        root := b.root poseidon
        chunkIndex := chunkIndex
        chunk := b.chunk chunkIndex
        siblings := (List.range PACKED_STATUS_DEPTH).map fun level =>
          b.node poseidon level ((chunkIndex >>> level) ^^^ 1) }

end PackedStatusSnapshotBuilder

def lowBitsMask (count : Nat) : U128 :=
  if count ≥ 128 then BitVec.allOnes 128 else 1#128 <<< count - 1#128

def unallocatedTailIsFailClosed (chunk : PackedStatusChunk) (lastAllocatedBit : Nat) : Bool :=
  if lastAllocatedBit < 128 then
    let allocatedLow := lowBitsMask (lastAllocatedBit + 1)
    chunk.low &&& ~~~allocatedLow = ~~~allocatedLow ∧ chunk.high = BitVec.allOnes 128
  else
    let allocatedHigh := lowBitsMask (lastAllocatedBit - 127)
    chunk.high &&& ~~~allocatedHigh = ~~~allocatedHigh

-- The chunks after one of an index.
def validateChunks (lastChunk lastBit : Nat) :
    Option Nat → List PackedStatusSnapshotChunk → Except PackedStatusSnapshotError Unit
  | _, [] => .ok ()
  | previousIndex, chunk :: chunks =>
    if chunk.index > MAX_CHUNK_INDEX ∨ (previousIndex.any fun previous => chunk.index ≤ previous) ∨
        chunk.value = PackedStatusChunk.FAIL_CLOSED ∨ chunk.index > lastChunk then
      .error .InvalidSnapshotState
    else if chunk.index = 0 ∧ ¬chunk.value.isRevokedOrUnallocated 0 then
      .error .InvalidSnapshotState
    else if chunk.index = lastChunk ∧ ¬unallocatedTailIsFailClosed chunk.value lastBit then
      .error .InvalidSnapshotState
    else validateChunks lastChunk lastBit (some chunk.index) chunks

def validateSnapshot (snapshot : PackedStatusSnapshot) :
    Except PackedStatusSnapshotError Unit :=
  if snapshot.schema ≠ PACKED_STATUS_SNAPSHOT_SCHEMA ∨ snapshot.chainId = 0 ∨
      snapshot.issuanceRegistry = ZERO_ADDRESS ∨ snapshot.issuerKeyId = ZERO_HASH ∨
      snapshot.source.hash = ZERO_HASH ∨ snapshot.nextStatusId = 0 ∨
      snapshot.nextStatusId > MAX_NEXT_STATUS_ID ∨ snapshot.root = 0 then
    .error .InvalidSnapshotState
  else if snapshot.nextStatusId = 1 ∧ snapshot.chunks ≠ [] then .error .InvalidSnapshotState
  else
    let lastAllocated := snapshot.nextStatusId - 1
    let lastChunk := lastAllocated >>> 8
    if lastChunk > U32_MAX then .error .InvalidSnapshotState
    else validateChunks lastChunk (lastAllocated &&& 0xff) none snapshot.chunks

-- The restored checkpoint is the new anchor, and its nodes are computed again.
def PackedStatusSnapshotBuilder.restore (poseidon : Poseidon) (snapshot : PackedStatusSnapshot) :
    Except PackedStatusSnapshotError PackedStatusSnapshotBuilder := do
  validateSnapshot snapshot
  let builder ← new snapshot.chainId snapshot.issuanceRegistry snapshot.issuerKeyId snapshot.source
  let restored := snapshot.chunks.foldl
    (fun b chunk => b.setChunk poseidon chunk.index chunk.value)
    { builder with nextStatusId := snapshot.nextStatusId }
  if restored.root poseidon ≠ snapshot.root then .error .SnapshotRootMismatch
  else .ok restored

end Ubi2.StatusSnapshot
