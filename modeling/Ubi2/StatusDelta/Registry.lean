import Ubi2.StatusSnapshot.Builder

namespace Ubi2.StatusDelta

open Ubi2.Lib Ubi2.StatusSnapshot

def STATUS_REGISTRY_DELTA_SCHEMA : String := "org.proofofhumanity.v2-status-registry-delta/1"

def REGISTRY_DEPTH : Nat := 32
def STATUS_LEAF_DOMAIN : Nat := 6
def STATUS_INDEX_DOMAIN : Nat := 7

structure StatusCheckpoint where
  epoch : Nat
  root : StatusField
deriving DecidableEq, Repr

structure StatusRegistryDelta where
  schema : String
  fromCheckpoint : StatusCheckpoint
  toCheckpoint : StatusCheckpoint
  changedIndex : BitVec 32
  oldLeaf : StatusField
  newLeaf : StatusField
  siblings : Vector StatusField REGISTRY_DEPTH
deriving DecidableEq, Repr

structure StatusWitness where
  epoch : Nat
  root : StatusField
  leafIndex : BitVec 32
  activeLeaf : StatusField
  siblings : Vector StatusField REGISTRY_DEPTH
deriving DecidableEq, Repr

structure StatusActivation where
  delta : StatusRegistryDelta
  witness : StatusWitness
deriving DecidableEq, Repr

inductive StatusRegistryError where
  | NonCanonicalStatusId
  | ZeroStatusId
  | StatusAlreadyRegistered
  | StatusIndexCollision
  | UnknownStatus
  | CredentialCommitmentMismatch
  | CredentialRevoked
  | StatusAlreadyRevoked
  | EpochOverflow
  | WitnessEpochAhead
  | DeltaGap
  | DeltaRootMismatch
  | WitnessRootMismatch
  | AcceptedCheckpointMismatch
  | CredentialStatusChanged
deriving DecidableEq, Repr

-- The two limbs of a status id.
abbrev StatusId := StatusField × StatusField

structure StatusRecord where
  statusId : StatusId
  credentialCommitment : StatusField
  active : Bool
deriving DecidableEq, Repr

-- The Poseidon configuration and the default nodes, which follow from it, are those of
-- the hash that the operations take.
structure StatusRegistry where
  nodes : SparseTree.Store StatusField
  records : Table (Prod.fst : BitVec 32 × StatusRecord → BitVec 32)
  history : List StatusRegistryDelta
  epoch : Nat
deriving DecidableEq

section
variable (poseidon : Poseidon)

def activeStatusLeafNative (statusId : StatusId) (credentialCommitment : StatusField) :
    StatusField :=
  poseidon STATUS_LEAF_DOMAIN [statusId.1, statusId.2, credentialCommitment]

-- The low bits of a digest.
def statusPathIndexNative (statusId : StatusId) : BitVec 32 :=
  let digest := poseidon STATUS_INDEX_DOMAIN [statusId.1, statusId.2]
  (List.range REGISTRY_DEPTH).foldl
    (fun index bit => index ||| (if digest.val.testBit bit then 1#32 <<< bit else 0#32)) 0#32

-- The node of each level above leaves that are all zero.
def defaults (level : Nat) : StatusField :=
  SparseTree.uniform (registryNode poseidon) 0 level

def subtreeFromPath (leaf : StatusField) (leafIndex : BitVec 32)
    (siblings : Vector StatusField REGISTRY_DEPTH) (levels : Nat) : StatusField :=
  StatusSnapshot.rootFromPath poseidon leaf leafIndex.toNat (siblings.toList.take levels)

def rootFromPath (leaf : StatusField) (leafIndex : BitVec 32)
    (siblings : Vector StatusField REGISTRY_DEPTH) : StatusField :=
  subtreeFromPath poseidon leaf leafIndex siblings REGISTRY_DEPTH

def rootFromWitness (witness : StatusWitness) : StatusField :=
  StatusSnapshot.rootFromPath poseidon witness.activeLeaf witness.leafIndex.toNat
    witness.siblings.toList

end

def validateStatusId (statusId : StatusId) : Except StatusRegistryError Unit :=
  if 2 ^ 128 ≤ statusId.1.val ∨ 2 ^ 128 ≤ statusId.2.val then .error .NonCanonicalStatusId
  else if statusId = (0, 0) then .error .ZeroStatusId
  else .ok ()

namespace StatusRegistry

def new : StatusRegistry where
  nodes := ∅
  records := ∅
  history := []
  epoch := 0

variable (poseidon : Poseidon) (r : StatusRegistry)

def node (level index : Nat) : StatusField :=
  SparseTree.node (defaults poseidon) r.nodes level index

def root : StatusField :=
  r.node poseidon REGISTRY_DEPTH 0

def checkpoint : StatusCheckpoint :=
  ⟨r.epoch, r.root poseidon⟩

def nextEpoch : Except StatusRegistryError Nat :=
  if r.epoch + 1 ≤ U32_MAX then .ok (r.epoch + 1) else .error .EpochOverflow

-- The nodes beside the path of a leaf.
def siblings (index : BitVec 32) : Vector StatusField REGISTRY_DEPTH :=
  Vector.ofFn fun level => r.node poseidon level ((index.toNat >>> level.val) ^^^ 1)

-- The callers have checked that there is a next epoch.
def commitLeaf (changedIndex : BitVec 32) (newLeaf : StatusField) :
    StatusRegistry × StatusRegistryDelta :=
  let committed : StatusRegistry :=
    { r with
      nodes := SparseTree.update (registryNode poseidon) (defaults poseidon) REGISTRY_DEPTH
        r.nodes changedIndex.toNat newLeaf
      epoch := r.epoch + 1 }
  let delta : StatusRegistryDelta :=
    { schema := STATUS_REGISTRY_DELTA_SCHEMA
      fromCheckpoint := r.checkpoint poseidon
      toCheckpoint := committed.checkpoint poseidon
      changedIndex := changedIndex
      oldLeaf := r.node poseidon 0 changedIndex.toNat
      newLeaf := newLeaf
      siblings := r.siblings poseidon changedIndex }
  ({ committed with history := r.history ++ [delta] }, delta)

def witness (statusId : StatusId) (credentialCommitment : StatusField) :
    Except StatusRegistryError StatusWitness :=
  match validateStatusId statusId with
  | .error e => .error e
  | .ok () =>
    let leafIndex := statusPathIndexNative poseidon statusId
    match r.records.get leafIndex with
    | none => .error .UnknownStatus
    | some (_, record) =>
      if record.statusId ≠ statusId then .error .UnknownStatus
      else if record.active = false then .error .CredentialRevoked
      else if record.credentialCommitment ≠ credentialCommitment then
        .error .CredentialCommitmentMismatch
      else
        .ok
          { epoch := r.epoch
            root := r.root poseidon
            leafIndex := leafIndex
            activeLeaf := activeStatusLeafNative poseidon statusId credentialCommitment
            siblings := r.siblings poseidon leafIndex }

def activate (statusId : StatusId) (credentialCommitment : StatusField) :
    StatusRegistry × Except StatusRegistryError StatusActivation :=
  match validateStatusId statusId with
  | .error e => (r, .error e)
  | .ok () =>
    let index := statusPathIndexNative poseidon statusId
    match r.records.get index with
    | some (_, existing) =>
      (r, .error (if existing.statusId = statusId then .StatusAlreadyRegistered
        else .StatusIndexCollision))
    | none =>
      match r.nextEpoch with
      | .error e => (r, .error e)
      | .ok _ =>
        let activeLeaf := activeStatusLeafNative poseidon statusId credentialCommitment
        let (committed, delta) := r.commitLeaf poseidon index activeLeaf
        let activated :=
          { committed with
            records := committed.records.put (index, ⟨statusId, credentialCommitment, true⟩) }
        (activated, (activated.witness poseidon statusId credentialCommitment).map
          fun witness => ⟨delta, witness⟩)

def revoke (statusId : StatusId) :
    StatusRegistry × Except StatusRegistryError StatusRegistryDelta :=
  match validateStatusId statusId with
  | .error e => (r, .error e)
  | .ok () =>
    let index := statusPathIndexNative poseidon statusId
    match r.records.get index with
    | none => (r, .error .UnknownStatus)
    | some (_, record) =>
      if record.statusId ≠ statusId then (r, .error .UnknownStatus)
      else if record.active = false then (r, .error .StatusAlreadyRevoked)
      else
        match r.nextEpoch with
        | .error e => (r, .error e)
        | .ok _ =>
          let (committed, delta) := r.commitLeaf poseidon index 0
          ({ committed with
              records := committed.records.put (index, { record with active := false }) },
            .ok delta)

def deltasSince (epoch : Nat) : Except StatusRegistryError (List StatusRegistryDelta) :=
  if r.epoch < epoch then .error .WitnessEpochAhead else .ok (r.history.drop epoch)

end StatusRegistry

-- The number of zero bits above the highest set bit.
def leadingZeros (x : BitVec 32) : Nat :=
  if x = 0 then 32 else 31 - Nat.log2 x.toNat

-- A subtraction and an array write that panic out of range.
def checkedSub (a b : Nat) : Option Nat :=
  if b ≤ a then some (a - b) else none

def writeAt {n : Nat} (xs : Vector StatusField n) (i : Nat) (x : StatusField) :
    Option (Vector StatusField n) :=
  if h : i < n then some (xs.set i x h) else none

section
variable (poseidon : Poseidon)

-- One delta of a batch. No value stands for a panic.
def applyDelta (refreshed : StatusWitness) (delta : StatusRegistryDelta) :
    Option (Except StatusRegistryError StatusWitness) :=
  if U32_MAX < delta.fromCheckpoint.epoch + 1 then some (.error .DeltaGap)
  else if delta.schema ≠ STATUS_REGISTRY_DELTA_SCHEMA ∨
      delta.fromCheckpoint.epoch ≠ refreshed.epoch ∨
      delta.toCheckpoint.epoch ≠ delta.fromCheckpoint.epoch + 1 then
    some (.error .DeltaGap)
  else if delta.fromCheckpoint.root ≠ refreshed.root ∨
      rootFromPath poseidon delta.oldLeaf delta.changedIndex delta.siblings ≠
        delta.fromCheckpoint.root ∨
      rootFromPath poseidon delta.newLeaf delta.changedIndex delta.siblings ≠
        delta.toCheckpoint.root then
    some (.error .DeltaRootMismatch)
  else if delta.changedIndex = refreshed.leafIndex then
    some (.error (if delta.newLeaf = 0 then .CredentialRevoked else .CredentialStatusChanged))
  else do
    let difference := delta.changedIndex ^^^ refreshed.leafIndex
    let divergence ← checkedSub 31 (leadingZeros difference)
    let siblings ← writeAt refreshed.siblings divergence
      (subtreeFromPath poseidon delta.newLeaf delta.changedIndex delta.siblings divergence)
    let moved := { refreshed with siblings := siblings }
    let refreshed :=
      { moved with root := rootFromWitness poseidon moved, epoch := delta.toCheckpoint.epoch }
    if refreshed.root ≠ delta.toCheckpoint.root then some (.error .DeltaRootMismatch)
    else some (.ok refreshed)

def applyDeltas (refreshed : StatusWitness) :
    List StatusRegistryDelta → Option (Except StatusRegistryError StatusWitness)
  | [] => some (.ok refreshed)
  | delta :: deltas =>
    match applyDelta poseidon refreshed delta with
    | some (.ok refreshed) => applyDeltas refreshed deltas
    | stopped => stopped

def refreshStatusWitness (witness : StatusWitness) (deltas : List StatusRegistryDelta)
    (accepted : StatusCheckpoint) : Option (Except StatusRegistryError StatusWitness) :=
  if rootFromWitness poseidon witness ≠ witness.root then some (.error .WitnessRootMismatch)
  else
    match applyDeltas poseidon witness deltas with
    | some (.ok refreshed) =>
      if refreshed.epoch ≠ accepted.epoch ∨ refreshed.root ≠ accepted.root then
        some (.error .AcceptedCheckpointMismatch)
      else some (.ok refreshed)
    | stopped => stopped

end

end Ubi2.StatusDelta
