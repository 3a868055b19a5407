import Ubi2.Lib.Keyed
import Ubi2.StatusOperator.Operator
import Ubi2.StatusSnapshot.Reconcile

namespace Ubi2.StatusOperator

open Ubi2.Runtime Ubi2.Lib Ubi2.Lib.Except Ubi2.StatusSnapshot Ubi2.StatusSnapshot.Sdk

structure ZkIdentityStatusFleetOperatorConfig where
  operatorId : String
  signerAddress : String
  baseUrl : String
deriving DecidableEq, Repr

structure ZkIdentityStatusFleetConfig where
  referenceRpcUrl : String
  chainId : Nat
  issuanceRegistry : String
  issuerKeyId : String
  threshold : Nat
  maxHeartbeatAgeSeconds : Nat
  maxBlockLag : Nat
  requestTimeoutMs : Nat
  operators : List ZkIdentityStatusFleetOperatorConfig
deriving DecidableEq, Repr

def ZK_IDENTITY_STATUS_FLEET_REPORT_SCHEMA : String :=
  "org.proofofhumanity.v2-packed-status-fleet-report/1"

inductive ZkIdentityStatusFleetAlertCode where
  | OPERATOR_UNAVAILABLE
  | REFERENCE_RPC_UNAVAILABLE
  | REFERENCE_RPC_BEHIND
  | MALFORMED_OPERATOR_RESPONSE
  | OPERATOR_TRUST_MISMATCH
  | HEARTBEAT_STALE
  | OPERATOR_CLOCK_SKEW
  | OPERATOR_DEGRADED
  | LATEST_HEALTH_MISMATCH
  | IMMUTABLE_ARTIFACT_UNAVAILABLE
  | IMMUTABLE_ARTIFACT_MISMATCH
  | WITHHOLDING_SUSPECTED
  | SNAPSHOT_DIVERGENCE
  | QUORUM_UNAVAILABLE
  | SIGNATURE_SET_INVALID
deriving DecidableEq, Repr

structure ZkIdentityStatusFleetAlert where
  code : ZkIdentityStatusFleetAlertCode
  severity : String
  operatorId : Option String
deriving DecidableEq, Repr

structure ZkIdentityStatusFleetCandidate where
  sourceBlockNumber : String
  sourceBlockHash : String
  snapshotHash : String
  signers : List String
deriving DecidableEq, Repr

structure ZkIdentityStatusFleetPublication where
  issuerKeyId : String
  expectedNextStatusId : String
  root : String
deriving DecidableEq, Repr

structure ZkIdentityStatusFleetReport where
  schema : String
  observedAt : String
  ready : Bool
  alerts : List ZkIdentityStatusFleetAlert
  candidate : Option ZkIdentityStatusFleetCandidate
  publication : Option ZkIdentityStatusFleetPublication
deriving DecidableEq, Repr

-- What was fetched of an operator. What it did not answer is undefined.
structure FetchedZkIdentityStatusOperator where
  operatorId : String
  health : JsValue
  latest : JsValue
  immutableArtifact : JsValue
  immutableCacheControl : Option String

structure ReferenceFinalizedBlock where
  number : Int
  hash : String
deriving DecidableEq, Repr

structure AcceptedOperator where
  operatorId : String
  health : ZkIdentityStatusOperatorHealth
  artifact : ZkIdentityStatusOperatorArtifact
  attestation : AttestationWire
  signer : String
  sourceBlock : Nat
deriving DecidableEq, Repr

-- What ends the checks of one operator: an alert, or an error that ends the evaluation.
inductive Interruption where
  | alert (code : ZkIdentityStatusFleetAlertCode)
  | thrown (message : String)
deriving DecidableEq, Repr

def alert (code : ZkIdentityStatusFleetAlertCode) (operatorId : Option String) :
    ZkIdentityStatusFleetAlert := ⟨code, "critical", operatorId⟩

def orAlert {α : Type} (code : ZkIdentityStatusFleetAlertCode) (x : Except String α) :
    Except Interruption α := x.mapError fun _ => .alert code

def orThrow {α : Type} (x : Except String α) : Except Interruption α := x.mapError .thrown

def isUndefined : JsValue → Bool
  | .undefined => true
  | _ => false

-- White space and line ends, as `trim` drops them.
def isTrimmed (c : Char) : Bool :=
  ('\t' ≤ c ∧ c ≤ '\r') ∨ ('\u2000' ≤ c ∧ c ≤ '\u200a') ∨
    c ∈ [' ', '\u00a0', '\u1680', '\u2028', '\u2029', '\u202f', '\u205f', '\u3000', '\ufeff']

def trim (cs : List Char) : List Char :=
  ((cs.dropWhile isTrimmed).reverse.dropWhile isTrimmed).reverse

-- Whether `immutable` is one of the directives of a cache control header.
def isImmutable (cacheControl : String) : Bool :=
  "immutable" ∈ (cacheControl.toList.splitOn ',').map fun directive =>
    toLowerCase (String.ofList (trim directive))

section

variable (viem : Viem) (eip : Eip712) (config : ZkIdentityStatusFleetConfig)

def trustMatches (health : ZkIdentityStatusOperatorHealth)
    (artifact : ZkIdentityStatusOperatorArtifact) : Bool :=
  let snapshot := artifact.attestation.snapshot
  health.chainId = config.chainId.repr ∧
    toLowerCase health.issuanceRegistry = toLowerCase config.issuanceRegistry ∧
    health.issuerKeyId = config.issuerKeyId ∧
    snapshot.chainId = config.chainId.repr ∧
    toLowerCase snapshot.issuanceRegistry = toLowerCase config.issuanceRegistry ∧
    snapshot.issuerKeyId = config.issuerKeyId

-- Whether an artifact is served under its hash as it is served as the latest.
def checkImmutable (artifact : ZkIdentityStatusOperatorArtifact) (value : JsValue) :
    Except String Unit := do
  let immutable ← parseZkIdentityStatusOperatorArtifact viem eip value
  let text ← serializeZkIdentityStatusOperatorArtifact viem eip immutable.document
  let latest ← serializeZkIdentityStatusOperatorArtifact viem eip artifact.document
  revertIf (text ≠ latest) "IMMUTABLE_ARTIFACT_MISMATCH"

def checkpointMatches (health : ZkIdentityStatusOperatorHealth) (attestation : AttestationWire) :
    Bool :=
  health.checkpoint.snapshotHash = attestation.snapshotHash ∧
    health.checkpoint.sourceBlockNumber = attestation.snapshot.sourceBlockNumber ∧
    health.checkpoint.sourceBlockHash = attestation.snapshot.sourceBlockHash ∧
    health.checkpoint.root = attestation.snapshot.root ∧
    health.checkpoint.nextStatusId = attestation.snapshot.nextStatusId

def parseAnswers (fetched : FetchedZkIdentityStatusOperator) :
    Except String (ZkIdentityStatusOperatorHealth × ZkIdentityStatusOperatorArtifact) := do
  let health ← parseZkIdentityStatusOperatorHealth viem fetched.health
  let artifact ← parseZkIdentityStatusOperatorArtifact viem eip fetched.latest
  .ok (health, artifact)

def recoverSigner (attestation : AttestationWire) : Except String String := do
  let recovered ← recoverZkIdentityPackedStatusAttestationSigner viem eip attestation.document
  getAddress viem recovered

-- The time of a heartbeat, which the parser has found to be a time.
def heartbeatMs (health : ZkIdentityStatusOperatorHealth) : Int :=
  (IsoTime.canonical health.observedAt).getD 0

def answers (fetched : Option FetchedZkIdentityStatusOperator) :
    Except Interruption FetchedZkIdentityStatusOperator :=
  match fetched with
  | some fetched =>
    if isUndefined fetched.health ∨ isUndefined fetched.latest then
      .error (.alert .OPERATOR_UNAVAILABLE)
    else .ok fetched
  | none => .error (.alert .OPERATOR_UNAVAILABLE)

-- The checks of one configured operator, in their order.
def acceptOperator (observedAtMs : Int) (expected : ZkIdentityStatusFleetOperatorConfig)
    (fetched : Option FetchedZkIdentityStatusOperator) : Except Interruption AcceptedOperator := do
  let fetched ← answers fetched
  let (health, artifact) ← orAlert .MALFORMED_OPERATOR_RESPONSE (parseAnswers viem eip fetched)
  revertIf (isUndefined fetched.immutableArtifact ∨ ¬fetched.immutableCacheControl.any isImmutable)
    (.alert .IMMUTABLE_ARTIFACT_UNAVAILABLE)
  orAlert .IMMUTABLE_ARTIFACT_MISMATCH
    (checkImmutable viem eip artifact fetched.immutableArtifact)
  revertIf (health.operatorId ≠ expected.operatorId ∨ artifact.operatorId ≠ expected.operatorId)
    (.alert .OPERATOR_TRUST_MISMATCH)
  let healthSigner ← orThrow (getAddress viem health.signerAddress)
  let expectedSigner ← orThrow (getAddress viem expected.signerAddress)
  revertIf (healthSigner ≠ expectedSigner ∨ ¬trustMatches config health artifact)
    (.alert .OPERATOR_TRUST_MISMATCH)
  revertIf (heartbeatMs health > observedAtMs + 60000) (.alert .OPERATOR_CLOCK_SKEW)
  revertIf (observedAtMs - heartbeatMs health > config.maxHeartbeatAgeSeconds * 1000)
    (.alert .HEARTBEAT_STALE)
  revertIf (health.state ≠ .healthy) (.alert .OPERATOR_DEGRADED)
  revertIf (¬checkpointMatches health artifact.attestation) (.alert .LATEST_HEALTH_MISMATCH)
  let signer ← orAlert .SIGNATURE_SET_INVALID (recoverSigner viem eip artifact.attestation)
  revertIf (signer ≠ expectedSigner) (.alert .OPERATOR_TRUST_MISMATCH)
  .ok
    { operatorId := expected.operatorId
      health := health
      artifact := artifact
      attestation := artifact.attestation
      signer := signer
      sourceBlock := bigIntOfDecimal artifact.attestation.snapshot.sourceBlockNumber }

-- Of several answers under one id the last one counts.
def fetchedById (fetched : List FetchedZkIdentityStatusOperator) (operatorId : String) :
    Option FetchedZkIdentityStatusOperator :=
  Keyed.last FetchedZkIdentityStatusOperator.operatorId fetched operatorId

def acceptOperators (fetched : List FetchedZkIdentityStatusOperator) (observedAtMs : Int) :
    List ZkIdentityStatusFleetOperatorConfig →
      Except String (List ZkIdentityStatusFleetAlert × List AcceptedOperator)
  | [] => .ok ([], [])
  | expected :: rest =>
    match acceptOperator viem eip config observedAtMs expected
        (fetchedById fetched expected.operatorId) with
    | .ok operator => do
      let (alerts, accepted) ← acceptOperators fetched observedAtMs rest
      .ok (alerts, operator :: accepted)
    | .error (.alert code) => do
      let (alerts, accepted) ← acceptOperators fetched observedAtMs rest
      .ok (alert code expected.operatorId :: alerts, accepted)
    | .error (.thrown message) => .error message

def highestBlock (accepted : List AcceptedOperator) : Nat :=
  accepted.foldl (fun highest operator =>
    if operator.sourceBlock > highest then operator.sourceBlock else highest) 0

def referenceAlerts (accepted : List AcceptedOperator) (reference : Option ReferenceFinalizedBlock) :
    List ZkIdentityStatusFleetAlert :=
  match reference with
  | none => [alert .REFERENCE_RPC_UNAVAILABLE none]
  | some reference =>
    if reference.number < 0 ∨ ¬viem.isHex reference.hash ∨ viem.size reference.hash ≠ 32 ∨
        bigIntOfHex reference.hash = 0 then
      [alert .REFERENCE_RPC_UNAVAILABLE none]
    else if reference.number < highestBlock accepted then [alert .REFERENCE_RPC_BEHIND none]
    else if reference.number = highestBlock accepted ∧
        accepted.any (fun operator => (operator.sourceBlock : Int) = reference.number ∧
          operator.attestation.snapshot.sourceBlockHash ≠ reference.hash) then
      [alert .SNAPSHOT_DIVERGENCE none]
    else if reference.number - highestBlock accepted > config.maxBlockLag then
      [alert .WITHHOLDING_SUSPECTED none]
    else []

def lagAlerts (accepted : List AcceptedOperator) : List ZkIdentityStatusFleetAlert :=
  (accepted.filter fun operator =>
    (highestBlock accepted : Int) - operator.sourceBlock > config.maxBlockLag).map fun operator =>
      alert .WITHHOLDING_SUSPECTED operator.operatorId

-- An alert for each block of which there is more than one hash.
def divergenceAlerts (accepted : List AcceptedOperator) : List ZkIdentityStatusFleetAlert :=
  ((Keyed.group AcceptedOperator.sourceBlock accepted).filter fun (_, operators) =>
    1 < (operators.map fun operator => operator.attestation.snapshotHash).dedup.length).map fun _ =>
      alert .SNAPSHOT_DIVERGENCE none

-- The operators of one hash that are enough for a quorum, of the highest block that has any.
def candidateGroup (accepted : List AcceptedOperator) : Option (List AcceptedOperator) :=
  (((Keyed.group (fun operator => operator.attestation.snapshotHash) accepted).map Prod.snd
    |>.filter fun group => config.threshold ≤ group.length).mergeSort fun left right =>
      decide ((right.head?.elim 0 AcceptedOperator.sourceBlock) ≤
        left.head?.elim 0 AcceptedOperator.sourceBlock)).head?

def reconcileGroup (group : List AcceptedOperator) :
    Except String (ZkIdentityStatusFleetCandidate × ZkIdentityStatusFleetPublication) := do
  let reconciled ← reconcileZkIdentityPackedStatusSnapshots viem eip
    (group.map fun operator => operator.attestation.document)
    (config.operators.map ZkIdentityStatusFleetOperatorConfig.signerAddress) config.threshold
  let normalized ← reconciledZkIdentityStatusPublication viem reconciled
  .ok (⟨reconciled.snapshot.sourceBlockNumber, reconciled.snapshot.sourceBlockHash,
    reconciled.snapshotHash, reconciled.signers⟩,
    ⟨normalized.issuerKeyId, normalized.expectedNextStatusId.repr, normalized.root⟩)

-- The last alerts, and what is published if there are no alerts at all.
def quorum (accepted : List AcceptedOperator) :
    List ZkIdentityStatusFleetAlert ×
      Option (ZkIdentityStatusFleetCandidate × ZkIdentityStatusFleetPublication) :=
  match candidateGroup config accepted with
  | none => ([alert .QUORUM_UNAVAILABLE none], none)
  | some group =>
    match reconcileGroup viem eip config group with
    | .ok result => ([], some result)
    | .error _ => ([alert .SIGNATURE_SET_INVALID none], none)

def evaluateZkIdentityStatusOperatorFleet (fetched : List FetchedZkIdentityStatusOperator)
    (referenceFinalizedBlock : Option ReferenceFinalizedBlock) (observedAtMs : Int) :
    Except String ZkIdentityStatusFleetReport := do
  let observedAt ← isoTime observedAtMs
  let duplicates := if (fetched.map FetchedZkIdentityStatusOperator.operatorId).Nodup then []
    else [alert .MALFORMED_OPERATOR_RESPONSE none]
  let (operatorAlerts, accepted) ←
    acceptOperators viem eip config fetched observedAtMs config.operators
  let (quorumAlerts, result) := quorum viem eip config accepted
  let alerts := duplicates ++ operatorAlerts ++
    referenceAlerts viem config accepted referenceFinalizedBlock ++ lagAlerts config accepted ++
    divergenceAlerts accepted ++ quorumAlerts
  let ready := alerts.isEmpty && result.isSome
  .ok
    { schema := ZK_IDENTITY_STATUS_FLEET_REPORT_SCHEMA
      observedAt := observedAt
      ready := ready
      alerts := alerts
      candidate := if ready then result.map Prod.fst else none
      publication := if ready then result.map Prod.snd else none }

end

end Ubi2.StatusOperator
