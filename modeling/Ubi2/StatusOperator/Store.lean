import Ubi2.Lib.Process
import Ubi2.StatusOperator.Artifact

namespace Ubi2.StatusOperator

open Ubi2.Runtime Ubi2.Lib Ubi2.Lib.Except Ubi2.StatusSnapshot Ubi2.StatusSnapshot.Sdk

-- The files of a state directory. An artifact is named by the digits of its hash.
inductive StorePath where
  | checkpoint
  | latest
  | health
  | artifact (name : String)
deriving DecidableEq, Repr

abbrev StoreDisk := Disk StorePath String
abbrev StoreProcess := Process StoreDisk String

namespace ZkIdentityStatusOperatorStore

def readFile (path : StorePath) : StoreProcess (Option String) :=
  Process.read fun disk => disk.files path

def atomicWrite (path : StorePath) (contents : String) : StoreProcess Unit :=
  Disk.write path contents "status operator state could not be written"

-- `${snapshotHash.slice(2)}.json`
def artifactPath (snapshotHash : String) : StorePath :=
  .artifact (String.ofList (snapshotHash.toList.drop 2) ++ ".json")

section

variable (viem : Viem) (eip : Eip712) (json : JSON)

def parseFile {α : Type} (parse : JsValue → Except String α) (text : String) : Except String α := do
  let value ← json.parse text
  parse value

def initializeStore (initialCheckpointJson : String) : StoreProcess Unit := do
  let canonicalInitial ← Process.ofExcept
    (parseFile json (serializeZkIdentityPackedStatusSnapshot viem) initialCheckpointJson)
  match ← readFile .checkpoint with
  | some text => do
    let _ ← Process.ofExcept (parseFile json (parseZkIdentityPackedStatusSnapshot viem) text)
    pure ()
  | none => atomicWrite .checkpoint canonicalInitial

def readCheckpointJson : StoreProcess String := do
  match ← readFile .checkpoint with
  | some text =>
    Process.ofExcept (parseFile json (serializeZkIdentityPackedStatusSnapshot viem) text)
  | none => Process.throw "ENOENT"

def readLatest : StoreProcess (Option ZkIdentityStatusOperatorArtifact) := do
  match ← readFile .latest with
  | some text => do
    let latest ← Process.ofExcept
      (parseFile json (parseZkIdentityStatusOperatorArtifact viem eip) text)
    pure (some latest)
  | none => pure none

def readHealth : StoreProcess (Option ZkIdentityStatusOperatorHealth) := do
  match ← readFile .health with
  | some text => do
    let health ← Process.ofExcept (parseFile json (parseZkIdentityStatusOperatorHealth viem) text)
    pure (some health)
  | none => pure none

-- The artifact that stands for one that is to be stored: one already there, or itself.
def storeArtifact (artifact : ZkIdentityStatusOperatorArtifact) (serialized : String) :
    StoreProcess String := do
  match ← readFile (artifactPath artifact.attestation.snapshotHash) with
  | some existing => do
    let parsed ← Process.ofExcept
      (parseFile json (parseZkIdentityStatusOperatorArtifact viem eip) existing)
    if parsed.operatorId ≠ artifact.operatorId ∨
        parsed.attestation.snapshotHash ≠ artifact.attestation.snapshotHash then
      Process.throw "status operator immutable artifact collision"
    else
      Process.ofExcept (serializeZkIdentityStatusOperatorArtifact viem eip parsed.document)
  | none => do
    atomicWrite (artifactPath artifact.attestation.snapshotHash) serialized
    pure serialized

-- Whether an artifact may follow a checkpoint.
def regresses (artifact : ZkIdentityStatusOperatorArtifact) (current : SnapshotWire)
    (currentHash : String) : Bool :=
  let currentBlock := bigIntOfDecimal current.sourceBlockNumber
  let incomingBlock := bigIntOfDecimal artifact.attestation.snapshot.sourceBlockNumber
  incomingBlock < currentBlock ∨
    (incomingBlock = currentBlock ∧ artifact.attestation.snapshotHash ≠ currentHash)

def commit (artifactValue : JsValue) : StoreProcess ZkIdentityStatusOperatorArtifact := do
  let artifact ← Process.ofExcept (parseZkIdentityStatusOperatorArtifact viem eip artifactValue)
  let checkpointJson ← readCheckpointJson viem json
  let current ← Process.ofExcept
    (parseFile json (parseZkIdentityPackedStatusSnapshot viem) checkpointJson)
  let currentHash ← Process.ofExcept
    (zkIdentityPackedStatusSnapshotHash viem eip current.document)
  if regresses artifact current currentHash then
    Process.throw "status operator checkpoint cannot regress or equivocate"
  else do
    let serialized ← Process.ofExcept
      (serializeZkIdentityStatusOperatorArtifact viem eip artifact.document)
    let durableArtifact ← storeArtifact viem eip json artifact serialized
    atomicWrite .latest durableArtifact
    let checkpoint ← Process.ofExcept
      (serializeZkIdentityPackedStatusSnapshot viem artifact.attestation.snapshot.document)
    atomicWrite .checkpoint checkpoint
    Process.ofExcept
      (parseFile json (parseZkIdentityStatusOperatorArtifact viem eip) durableArtifact)

def writeHealth (health : JsValue) : StoreProcess ZkIdentityStatusOperatorHealth := do
  let parsed ← Process.ofExcept (parseZkIdentityStatusOperatorHealth viem health)
  let text ← Process.ofExcept (serializeZkIdentityStatusOperatorHealth viem parsed.document)
  atomicWrite .health text
  pure parsed

end

end ZkIdentityStatusOperatorStore

end Ubi2.StatusOperator
