import Ubi2.StatusOperator.Store
import Ubi2.StatusSnapshot.Advance

namespace Ubi2.StatusOperator

open Ubi2.Runtime Ubi2.Lib Ubi2.Lib.Except Ubi2.StatusSnapshot Ubi2.StatusSnapshot.Sdk

inductive ZkIdentityStatusOperatorErrorCode where
  | CHECKPOINT_TRUST_MISMATCH
  | INGESTION_FAILED
  | BUILDER_FAILED
  | BUILDER_OUTPUT_MISMATCH
  | SIGNER_FAILED
  | SIGNER_MISMATCH
  | STORAGE_FAILED
  | UNEXPECTED_ERROR
deriving DecidableEq, Repr

def ZkIdentityStatusOperatorErrorCode.text : ZkIdentityStatusOperatorErrorCode → String
  | CHECKPOINT_TRUST_MISMATCH => "CHECKPOINT_TRUST_MISMATCH"
  | INGESTION_FAILED => "INGESTION_FAILED"
  | BUILDER_FAILED => "BUILDER_FAILED"
  | BUILDER_OUTPUT_MISMATCH => "BUILDER_OUTPUT_MISMATCH"
  | SIGNER_FAILED => "SIGNER_FAILED"
  | SIGNER_MISMATCH => "SIGNER_MISMATCH"
  | STORAGE_FAILED => "STORAGE_FAILED"
  | UNEXPECTED_ERROR => "UNEXPECTED_ERROR"

-- The binary that makes a snapshot of a checkpoint and a transcript.
structure ZkIdentityPackedStatusBuilder where
  advance : (checkpointJson sourceJson : String) → Except String String

def MAX_BUFFER : Nat := 16 * 1024 * 1024

-- The Rust binary. It prints its result with a line end, which is trimmed off again.
def RustPackedStatusBuilder (poseidon : Poseidon) (fromStr : FromStr) :
    ZkIdentityPackedStatusBuilder where
  advance checkpointJson sourceJson :=
    match advancePackedStatusSnapshotFromJson poseidon fromStr checkpointJson sourceJson with
    | some (.ok output) =>
      if output.utf8ByteSize + 1 > MAX_BUFFER then .error "stdout maxBuffer length exceeded"
      else .ok output
    | _ => .error "Command failed"

structure ZkIdentityStatusDigestSigner where
  signDigest : String → Except String String

structure ZkIdentityStatusOperatorIdentity where
  operatorId : String
  chainId : Nat
  issuanceRegistry : String
  issuerKeyId : String
  signerAddress : String
deriving DecidableEq, Repr

-- What a cycle is given besides the store. The time is in milliseconds.
structure RunZkIdentityStatusOperatorCycleInput where
  identity : ZkIdentityStatusOperatorIdentity
  reader : ZkIdentityFinalizedRpcReader
  builder : ZkIdentityPackedStatusBuilder
  signer : ZkIdentityStatusDigestSigner
  now : Int

inductive ZkIdentityStatusOperatorCycleResult where
  | ok (advanced : Bool) (artifact : ZkIdentityStatusOperatorArtifact)
      (health : ZkIdentityStatusOperatorHealth)
  | failed (errorCode : ZkIdentityStatusOperatorErrorCode)
      (health : Option ZkIdentityStatusOperatorHealth)
deriving DecidableEq, Repr

abbrev CycleProcess := Process StoreDisk ZkIdentityStatusOperatorErrorCode

-- A step that fails with one code, whatever goes wrong in it.
def within {ε α : Type} (code : ZkIdentityStatusOperatorErrorCode) (p : Process StoreDisk ε α) :
    CycleProcess α := p.relabel code

def attempt {α : Type} (code : ZkIdentityStatusOperatorErrorCode) (x : Except String α) :
    CycleProcess α := within code (Process.ofExcept x)

section

variable (viem : Viem) (eip : Eip712) (json : JSON)

open ZkIdentityStatusOperatorStore

def trusts (identity : ZkIdentityStatusOperatorIdentity) (snapshot : SnapshotWire) : Bool :=
  snapshot.chainId = identity.chainId.repr ∧
    toLowerCase snapshot.issuanceRegistry = toLowerCase identity.issuanceRegistry ∧
    snapshot.issuerKeyId = toLowerCase identity.issuerKeyId

-- The snapshot of a text, when it is one, and one for this operator.
def trustedSnapshot (text : String) (identity : ZkIdentityStatusOperatorIdentity)
    (invalid mismatch : ZkIdentityStatusOperatorErrorCode) : CycleProcess SnapshotWire := do
  let snapshot ← attempt invalid (parseFile json (parseZkIdentityPackedStatusSnapshot viem) text)
  if ¬trusts identity snapshot then Process.throw mismatch else pure snapshot

def checkpointHealth (identity : ZkIdentityStatusOperatorIdentity) (snapshot : SnapshotWire)
    (observedAt : String) (state : ZkIdentityStatusOperatorState) (consecutiveFailures : Nat)
    (errorCode : Option ZkIdentityStatusOperatorErrorCode) :
    Except String ZkIdentityStatusOperatorHealth := do
  let snapshotHash ← zkIdentityPackedStatusSnapshotHash viem eip snapshot.document
  .ok
    { schema := ZK_IDENTITY_STATUS_OPERATOR_HEALTH_SCHEMA
      operatorId := identity.operatorId
      state := state
      observedAt := observedAt
      consecutiveFailures := consecutiveFailures
      chainId := snapshot.chainId
      issuanceRegistry := snapshot.issuanceRegistry
      issuerKeyId := snapshot.issuerKeyId
      signerAddress := identity.signerAddress
      checkpoint := ⟨snapshot.sourceBlockNumber, snapshot.sourceBlockHash, snapshotHash,
        snapshot.root, snapshot.nextStatusId⟩
      errorCode := errorCode.map ZkIdentityStatusOperatorErrorCode.text }

-- Whether the operator's own key signed an attestation.
def checkSigner (identity : ZkIdentityStatusOperatorIdentity) (attestation : AttestationWire) :
    CycleProcess Unit := do
  let recovered ← attempt .SIGNER_FAILED
    (recoverZkIdentityPackedStatusAttestationSigner viem eip attestation.document)
  let signer ← attempt .SIGNER_FAILED (getAddress viem recovered)
  let expected ← attempt .UNEXPECTED_ERROR (getAddress viem identity.signerAddress)
  if signer ≠ expected then Process.throw .SIGNER_MISMATCH else pure ()

def signSnapshot (snapshot : SnapshotWire) (identity : ZkIdentityStatusOperatorIdentity)
    (signer : ZkIdentityStatusDigestSigner) : CycleProcess ZkIdentityStatusOperatorArtifact := do
  let digest ← attempt .SIGNER_FAILED
    (zkIdentityPackedStatusAttestationDigest viem eip snapshot.document)
  let signature ← attempt .SIGNER_FAILED (signer.signDigest digest)
  let attestation ← attempt .UNEXPECTED_ERROR
    (createZkIdentityPackedStatusAttestation viem eip snapshot.document signature)
  checkSigner viem eip identity attestation
  pure ⟨ZK_IDENTITY_STATUS_OPERATOR_ARTIFACT_SCHEMA, identity.operatorId, attestation⟩

def collectInput (input : RunZkIdentityStatusOperatorCycleInput) (checkpoint : SnapshotWire) :
    CollectZkIdentityFinalizedStatusInput where
  reader := input.reader
  chainId := .integer input.identity.chainId
  issuanceRegistry := input.identity.issuanceRegistry
  issuerKeyId := input.identity.issuerKeyId
  anchor := ⟨(bigIntOfDecimal checkpoint.sourceBlockNumber : Nat), checkpoint.sourceBlockHash,
    checkpoint.sourceBlockParentHash⟩
  expectedNextStatusId := (checkpoint.nextStatusId : Nat)

-- Whether the last published artifact is the one of the checkpoint.
def isCurrent (identity : ZkIdentityStatusOperatorIdentity) (checkpointHash : String)
    (latest : ZkIdentityStatusOperatorArtifact) : Bool :=
  latest.operatorId = identity.operatorId ∧ latest.attestation.snapshotHash = checkpointHash

def matchesSource (snapshot : SnapshotWire) (source : BlockRefWire) : Bool :=
  snapshot.sourceBlockNumber = source.number ∧ snapshot.sourceBlockHash = source.hash ∧
    snapshot.sourceBlockParentHash = source.parentHash

def reportHealthy (identity : ZkIdentityStatusOperatorIdentity) (snapshot : SnapshotWire)
    (observedAt : String) : CycleProcess ZkIdentityStatusOperatorHealth := do
  let health ← attempt .UNEXPECTED_ERROR
    (checkpointHealth viem eip identity snapshot observedAt .healthy 0 none)
  let _ ← within .STORAGE_FAILED (writeHealth viem health.document)
  pure health

-- The snapshot that the builder makes of the checkpoint and a transcript.
def advanceSnapshot (input : RunZkIdentityStatusOperatorCycleInput) (checkpoint : SnapshotWire)
    (transcript : SourceWire) : CycleProcess SnapshotWire := do
  let output ← attempt .BUILDER_FAILED
    (input.builder.advance checkpoint.json.compact transcript.json.compact)
  let advanced ← trustedSnapshot viem json output input.identity .BUILDER_OUTPUT_MISMATCH
    .BUILDER_OUTPUT_MISMATCH
  if ¬matchesSource advanced (lastRef transcript.anchor transcript.blocks) then
    Process.throw .BUILDER_OUTPUT_MISMATCH
  else pure advanced

-- A failure with the checkpoint that the cycle had come to.
def holding {α : Type} (checkpoint : Option SnapshotWire) (p : CycleProcess α) :
    Process StoreDisk (Option SnapshotWire × ZkIdentityStatusOperatorErrorCode) α :=
  p.handle fun code => Process.throw (checkpoint, code)

-- The end of a cycle that finds the last artifact to be the one of the checkpoint.
def keepLatest (input : RunZkIdentityStatusOperatorCycleInput) (checkpoint : SnapshotWire)
    (latest : ZkIdentityStatusOperatorArtifact) (observedAt : String) :
    Process StoreDisk (Option SnapshotWire × ZkIdentityStatusOperatorErrorCode)
      ZkIdentityStatusOperatorCycleResult :=
  holding (some checkpoint) do
    checkSigner viem eip input.identity latest.attestation
    let health ← reportHealthy viem eip input.identity checkpoint observedAt
    pure (.ok false latest health)

-- The end of a cycle that publishes what the builder makes of a transcript, be it an empty one.
def publishNext (input : RunZkIdentityStatusOperatorCycleInput) (checkpoint : SnapshotWire)
    (transcript : SourceWire) (observedAt : String) :
    Process StoreDisk (Option SnapshotWire × ZkIdentityStatusOperatorErrorCode)
      ZkIdentityStatusOperatorCycleResult := do
  let (advanced, durableArtifact) ← holding (some checkpoint) do
    let advanced ← advanceSnapshot viem json input checkpoint transcript
    let artifact ← signSnapshot viem eip advanced input.identity input.signer
    let durableArtifact ← within .STORAGE_FAILED (commit viem eip json artifact.document)
    pure (advanced, durableArtifact)
  holding (some advanced) do
    checkSigner viem eip input.identity durableArtifact.attestation
    let health ← reportHealthy viem eip input.identity advanced observedAt
    pure (.ok (!transcript.blocks.isEmpty) durableArtifact health)

def cycleBody (input : RunZkIdentityStatusOperatorCycleInput) (observedAt : String) :
    Process StoreDisk (Option SnapshotWire × ZkIdentityStatusOperatorErrorCode)
      ZkIdentityStatusOperatorCycleResult := do
  let identity := input.identity
  let checkpoint ← holding none do
    let checkpointJson ← within .STORAGE_FAILED (readCheckpointJson viem json)
    trustedSnapshot viem json checkpointJson identity .STORAGE_FAILED .CHECKPOINT_TRUST_MISMATCH
  let (transcript, latest, checkpointHash) ← holding (some checkpoint) do
    let transcript ← attempt .INGESTION_FAILED
      (collectZkIdentityFinalizedStatusTranscript viem (collectInput input checkpoint))
    let latest ← within .STORAGE_FAILED (readLatest viem eip json)
    let checkpointHash ← attempt .UNEXPECTED_ERROR
      (zkIdentityPackedStatusSnapshotHash viem eip checkpoint.document)
    pure (transcript, latest, checkpointHash)
  match latest.filter fun latest =>
      transcript.blocks.isEmpty && isCurrent identity checkpointHash latest with
  | some latest => keepLatest viem eip input checkpoint latest observedAt
  | none => publishNext viem eip json input checkpoint transcript observedAt

-- The failures so far. A health file that cannot be read counts for none.
def previousFailures : StoreProcess Nat :=
  Process.handle (do
    let health ← readHealth viem json
    pure (health.elim 0 ZkIdentityStatusOperatorHealth.consecutiveFailures))
    fun _ => pure 0

def reportDegraded (identity : ZkIdentityStatusOperatorIdentity) (checkpoint : SnapshotWire)
    (observedAt : String) (code : ZkIdentityStatusOperatorErrorCode) :
    StoreProcess ZkIdentityStatusOperatorCycleResult := do
  let failures ← previousFailures viem json
  let health ← Process.ofExcept (checkpointHealth viem eip identity checkpoint observedAt .degraded
    (failures + 1) (some code))
  Process.handle (do
    let _ ← writeHealth viem health.document
    pure (ZkIdentityStatusOperatorCycleResult.failed code (some health)))
    fun _ => pure (.failed .STORAGE_FAILED none)

def isoTime (now : Int) : Except String String :=
  match IsoTime.toISOString now with
  | some text => .ok text
  | none => .error "Invalid time value"

-- One cycle: the checkpoint is brought to the finalized tip, or left as it is.
def runZkIdentityStatusOperatorCycle (input : RunZkIdentityStatusOperatorCycleInput) :
    StoreProcess ZkIdentityStatusOperatorCycleResult := do
  let operatorId ← Process.ofExcept (canonicalOperatorId (.str input.identity.operatorId))
  let signerAddress ← Process.ofExcept (getAddress viem input.identity.signerAddress)
  let identity := { input.identity with operatorId := operatorId, signerAddress := signerAddress }
  let observedAt ← Process.ofExcept (isoTime input.now)
  (cycleBody viem eip json { input with identity := identity } observedAt).handle
    fun (checkpoint, code) =>
      match checkpoint with
      | none => pure (.failed code none)
      | some checkpoint => reportDegraded viem eip json identity checkpoint observedAt code

end

end Ubi2.StatusOperator
