import Ubi2.StatusSnapshot.Sdk

namespace Ubi2.StatusSnapshot.Sdk

open Ubi2.Runtime Ubi2.Lib

def ZK_IDENTITY_FINALIZED_INGESTION_MAX_BLOCKS : Nat := 512
def ZK_IDENTITY_FINALIZED_INGESTION_RPC_CONCURRENCY : Nat := 16

structure ZkIdentityFinalizedBlockHeader where
  number : Int
  hash : String
  parentHash : String
deriving DecidableEq, Repr

-- A header that has passed its checks.
structure CanonicalHeader where
  number : Nat
  hash : String
  parentHash : String
deriving DecidableEq, Repr

structure ZkIdentityCredentialAllocatedLog where
  blockNumber : Int
  blockHash : String
  logIndex : JsValue
  issuerKeyId : String
  statusId : JsValue

-- The answers of a reader to one collection, which asks for every block once.
structure ZkIdentityFinalizedRpcReader where
  getChainId : Except String JsValue
  getFinalizedBlock : Except String ZkIdentityFinalizedBlockHeader
  getBlock : Nat → Except String ZkIdentityFinalizedBlockHeader
  getCredentialAllocatedLogs : (registry issuerKeyId : String) → (fromBlock toBlock : Nat) →
    Except String (List ZkIdentityCredentialAllocatedLog)

structure CollectZkIdentityFinalizedStatusInput where
  reader : ZkIdentityFinalizedRpcReader
  chainId : JsValue
  issuanceRegistry : String
  issuerKeyId : String
  anchor : ZkIdentityFinalizedBlockHeader
  expectedNextStatusId : Int

def positiveChainId (value : JsValue) : Except String Nat :=
  positiveSafeInteger value "packed-status ingestion chain id"

def canonicalHeader (viem : Viem) (value : ZkIdentityFinalizedBlockHeader) (label : String) :
    Except String CanonicalHeader :=
  if value.number < 0 then .error (label ++ " number must be a non-negative bigint")
  else do
    let hash ← canonicalBytes32 viem (.str value.hash) (label ++ " hash") false
    if bigIntOfHex hash = 0 then .error (label ++ " hash must not be zero")
    else do
      let parentHash ← canonicalBytes32 viem (.str value.parentHash) (label ++ " parent hash") false
      .ok ⟨value.number.toNat, hash, parentHash⟩

def CanonicalHeader.wire (header : CanonicalHeader) : BlockRefWire :=
  ⟨header.number.repr, header.hash, header.parentHash⟩

-- The requests that run at the same time.
def batches (numbers : List Nat) : List (List Nat) :=
  let concurrency := ZK_IDENTITY_FINALIZED_INGESTION_RPC_CONCURRENCY
  (List.range ((numbers.length + concurrency - 1) / concurrency)).map fun k =>
    (numbers.drop (k * concurrency)).take concurrency

def fetchHeader (viem : Viem) (reader : ZkIdentityFinalizedRpcReader) (number : Nat) :
    Except String CanonicalHeader := do
  let block ← reader.getBlock number
  canonicalHeader viem block "packed-status block"

-- Of the failures in a batch the first in order stands for the one that comes first.
def fetchHeaders (viem : Viem) (reader : ZkIdentityFinalizedRpcReader) (numbers : List Nat) :
    Except String (List CanonicalHeader) := do
  let fetched ← (batches numbers).mapM fun batch => batch.mapM (fetchHeader viem reader)
  .ok fetched.flatten

def checkBranch (expectedParent : String) : List (Nat × CanonicalHeader) → Except String Unit
  | [] => .ok ()
  | (number, header) :: rest =>
    if header.number ≠ number ∨ header.parentHash ≠ expectedParent then
      .error "packed-status RPC returned a non-contiguous finalized branch"
    else checkBranch header.hash rest

-- What the loop over the logs carries. The events of a block are none at first.
structure LogState where
  byBlock : Nat → List EventWire
  nextStatusId : Int
  previousBlock : Int
  previousLogIndex : Int

-- The status id of a log when it is the next one.
def denseStatusId (value : JsValue) (nextStatusId : Int) : Except String Nat :=
  match value with
  | .integer n =>
    if n ≤ 0 ∨ n ≠ nextStatusId ∨ nextStatusId > 0xffffffff then
      .error "packed-status allocation IDs are not dense at the checkpoint watermark"
    else .ok n.toNat
  | _ => .error "packed-status allocation IDs are not dense at the checkpoint watermark"

-- The log index of a log behind the last one, in a block of the range.
def orderedLogIndex (s : LogState) (first last : Nat) (log : ZkIdentityCredentialAllocatedLog) :
    Except String Nat :=
  match log.logIndex.safeInteger with
  | some logIndex =>
    if log.blockNumber < first ∨ log.blockNumber > last ∨ logIndex < 0 ∨
        log.blockNumber < s.previousBlock ∨
        (log.blockNumber = s.previousBlock ∧ logIndex ≤ s.previousLogIndex) then
      .error "packed-status allocation logs are missing or out of canonical order"
    else .ok logIndex.toNat
  | none => .error "packed-status allocation logs are missing or out of canonical order"

def addLog (viem : Viem) (headers : List CanonicalHeader) (issuerKeyId : String)
    (first last : Nat) (s : LogState) (log : ZkIdentityCredentialAllocatedLog) :
    Except String LogState := do
  let blockHash ← canonicalBytes32 viem (.str log.blockHash)
    "packed-status allocation block hash" false
  let logIssuerKeyId ← canonicalBytes32 viem (.str log.issuerKeyId)
    "packed-status allocation issuer key id" false
  let logIndex ← orderedLogIndex s first last log
  match headers[(log.blockNumber - first).toNat]? with
  | none => .error "packed-status allocation log does not match the finalized branch"
  | some header =>
    if header.hash ≠ blockHash ∨ logIssuerKeyId ≠ issuerKeyId then
      .error "packed-status allocation log does not match the finalized branch"
    else do
      let statusId ← denseStatusId log.statusId s.nextStatusId
      let block := log.blockNumber.toNat
      .ok
        { byBlock := Function.update s.byBlock block (s.byBlock block ++
            [⟨"credential-allocated", logIndex, issuerKeyId, statusId, none⟩])
          nextStatusId := s.nextStatusId + 1
          previousBlock := log.blockNumber
          previousLogIndex := logIndex }

def addLogs (viem : Viem) (headers : List CanonicalHeader) (issuerKeyId : String)
    (first last : Nat) (s : LogState) (logs : List ZkIdentityCredentialAllocatedLog) :
    Except String LogState :=
  logs.foldlM (addLog viem headers issuerKeyId first last) s

def blockWire (byBlock : Nat → List EventWire) (header : CanonicalHeader) : BlockWire :=
  ⟨header.number.repr, header.hash, header.parentHash, byBlock header.number⟩

-- The blocks after an anchor, up to a finalized one that lies after it.
def collectBranch (viem : Viem) (reader : ZkIdentityFinalizedRpcReader)
    (issuanceRegistry issuerKeyId : String) (expectedNextStatusId : Int)
    (anchor finalized : CanonicalHeader) :
    Except String (List BlockWire) := do
  let numbers := (List.range (finalized.number - anchor.number)).map
    fun index => anchor.number + (index + 1)
  let headers ← fetchHeaders viem reader numbers
  checkBranch anchor.hash (numbers.zip headers)
  let first := anchor.number + 1
  match headers.getLast? with
  | none => .error "packed-status finalized target does not match the fetched branch"
  | some last =>
    if last.number ≠ finalized.number ∨ last.hash ≠ finalized.hash then
      .error "packed-status finalized target does not match the fetched branch"
    else do
      let logs ← reader.getCredentialAllocatedLogs issuanceRegistry issuerKeyId first
        finalized.number
      let s ← addLogs viem headers issuerKeyId first finalized.number
        ⟨fun _ => [], expectedNextStatusId, -1, -1⟩ logs
      .ok (headers.map (blockWire s.byBlock))

def collectBlocks (viem : Viem) (reader : ZkIdentityFinalizedRpcReader)
    (issuanceRegistry issuerKeyId : String) (expectedNextStatusId : Int)
    (anchor finalized : CanonicalHeader) :
    Except String (List BlockWire) :=
  if finalized.number < anchor.number then
    .error "packed-status finalized tip is behind the durable checkpoint"
  else if finalized.number - anchor.number > ZK_IDENTITY_FINALIZED_INGESTION_MAX_BLOCKS then
    .error "packed-status finalized batch exceeds the bounded checkpoint interval"
  else if finalized.number = anchor.number then
    if finalized.hash ≠ anchor.hash then
      .error "packed-status finalized tip conflicts with the durable checkpoint"
    else .ok []
  else
    collectBranch viem reader issuanceRegistry issuerKeyId expectedNextStatusId anchor finalized

def sameChainId (answer : JsValue) (chainId : Nat) : Bool :=
  match answer with
  | .integer n => n = chainId
  | _ => false

def collectZkIdentityFinalizedStatusTranscript (viem : Viem)
    (input : CollectZkIdentityFinalizedStatusInput) : Except String SourceWire := do
  let chainId ← positiveChainId input.chainId
  let issuanceRegistry ← canonicalAddress viem (.str input.issuanceRegistry)
    "packed-status ingestion registry"
  let issuerKeyId ← canonicalBytes32 viem (.str input.issuerKeyId)
    "packed-status ingestion issuer key id" false
  if bigIntOfHex issuerKeyId = 0 then .error "packed-status issuer key id must not be zero"
  else if input.expectedNextStatusId < 1 ∨
      input.expectedNextStatusId > ZK_IDENTITY_MAX_NEXT_STATUS_ID then
    .error "packed-status expected next status id is outside the uint32 allocation range"
  else do
    let anchor ← canonicalHeader viem input.anchor "packed-status anchor"
    let answer ← input.reader.getChainId
    if ¬ sameChainId answer chainId then .error "packed-status RPC returned the wrong chain id"
    else do
      let finalizedBlock ← input.reader.getFinalizedBlock
      let finalized ← canonicalHeader viem finalizedBlock "packed-status finalized block"
      let blocks ← collectBlocks viem input.reader issuanceRegistry issuerKeyId
        input.expectedNextStatusId anchor finalized
      .ok
        { schema := PACKED_STATUS_SOURCE_SCHEMA
          chainId := chainId.repr
          issuanceRegistry := issuanceRegistry
          issuerKeyId := issuerKeyId
          anchor := anchor.wire
          blocks := blocks }

end Ubi2.StatusSnapshot.Sdk
