import Ubi2.Contracts.ZkIdentityEncoding

namespace Ubi2.Contracts.ZkIdentityVersionRegistry

open Ubi2.Lib.Evm Ubi2.Lib.Except ZkIdentityEncoding

structure CircuitVersion where
  verifier : Address
  verifierCodehash : Bytes32
  active : Bool
deriving DecidableEq, Repr, Inhabited

structure IssuerAuthorization where
  registered : Bool
  active : Bool
deriving DecidableEq, Repr, Inhabited

structure StatusRoot where
  root : Bytes32
  revoked : Bool
deriving DecidableEq, Repr, Inhabited

structure DynamicStatusPolicy where
  providerIdHash : Bytes32
  listVersionHash : Bytes32
  statusRoot : Bytes32
  publishedAt : BitVec 32
  maximumAgeSeconds : BitVec 32
  registered : Bool
  active : Bool
deriving DecidableEq, Repr, Inhabited

-- The epochs and the roots are kept for a circuit and an issuer.
abbrev Namespace := Bytes32 × Bytes32

structure State (base : Ownable) where
  ownership : base.State
  circuits : Bytes32 → CircuitVersion
  issuers : Namespace → IssuerAuthorization
  latestStatusEpoch : Namespace → BitVec 32
  statusRoots : Namespace → BitVec 32 → StatusRoot
  publishedRoots : Namespace → Bytes32 → Bool
  statusRootEpoch : Namespace → Bytes32 → BitVec 32
  dynamicStatusPolicies : Bytes32 → DynamicStatusPolicy

inductive Error where
  | OwnableUnauthorizedAccount (account : Address)
  | OwnableReverted
  | InvalidCircuitId
  | InvalidVerifier
  | CircuitAlreadyRegistered (circuitId : Bytes32)
  | UnknownCircuit (circuitId : Bytes32)
  | CircuitInactive (circuitId : Bytes32)
  | InvalidIssuerKeyId
  | IssuerAlreadyRegistered (circuitId issuerKeyId : Bytes32)
  | UnknownIssuer (circuitId issuerKeyId : Bytes32)
  | IssuerInactive (circuitId issuerKeyId : Bytes32)
  | InvalidStatusRoot
  | StatusEpochNotIncreasing (latest proposed : BitVec 32)
  | StatusRootAlreadyPublished (root : Bytes32)
  | UnknownStatusRoot (circuitId issuerKeyId : Bytes32) (epoch : BitVec 32)
  | StatusRootAlreadyRevoked (circuitId issuerKeyId : Bytes32) (epoch : BitVec 32)
  | InvalidDynamicStatusPublicationTime
  | DynamicStatusPolicyAlreadyRegistered (policyHash : Bytes32)
  | UnknownDynamicStatusPolicy (policyHash : Bytes32)
  | DynamicStatusPolicyAlreadyRetired (policyHash : Bytes32)
  | UnacceptedIdentityState
  | Encoding (error : ZkIdentityEncoding.Error)
deriving DecidableEq, Repr

variable {base : Ownable}

-- The registry as its constructor leaves it: every mapping is empty.
def new (ownership : base.State) : State base where
  ownership := ownership
  circuits _ := ⟨0, 0, false⟩
  issuers _ := ⟨false, false⟩
  latestStatusEpoch _ := 0
  statusRoots _ _ := ⟨0, false⟩
  publishedRoots _ _ := false
  statusRootEpoch _ _ := 0
  dynamicStatusPolicies _ := ⟨0, 0, 0, 0, 0, false, false⟩

namespace State

variable (s : State base) (env : Env)

def onlyOwner : Except Error Unit :=
  revertIf (env.sender ≠ base.owner s.ownership) (.OwnableUnauthorizedAccount env.sender)

def activeCircuit (circuitId : Bytes32) : Except Error CircuitVersion := do
  let circuit := s.circuits circuitId
  revertIf (circuit.verifier = 0) (.UnknownCircuit circuitId)
  revertIf (circuit.active = false) (.CircuitInactive circuitId)
  pure circuit

def activeIssuer (circuitId issuerKeyId : Bytes32) : Except Error IssuerAuthorization := do
  let issuer := s.issuers (circuitId, issuerKeyId)
  revertIf (issuer.registered = false) (.UnknownIssuer circuitId issuerKeyId)
  revertIf (issuer.active = false) (.IssuerInactive circuitId issuerKeyId)
  pure issuer

def registerCircuit (circuitId : Bytes32) (verifier : Address) : Except Error (State base) := do
  s.onlyOwner env
  revertIf (circuitId = 0) .InvalidCircuitId
  revertIf (verifier = 0 ∨ env.codeLength verifier = 0) .InvalidVerifier
  revertIf ((s.circuits circuitId).verifier ≠ 0) (.CircuitAlreadyRegistered circuitId)
  let codehash := env.codehash verifier
  pure { s with circuits := Function.update s.circuits circuitId ⟨verifier, codehash, true⟩ }

def retireCircuit (circuitId : Bytes32) : Except Error (State base) := do
  s.onlyOwner env
  let circuit ← s.activeCircuit circuitId
  pure { s with
    circuits := Function.update s.circuits circuitId { circuit with active := false } }

def authorizeIssuer (circuitId issuerKeyId : Bytes32) : Except Error (State base) := do
  s.onlyOwner env
  let _ ← s.activeCircuit circuitId
  revertIf (issuerKeyId = 0) .InvalidIssuerKeyId
  let issuer := s.issuers (circuitId, issuerKeyId)
  revertIf (issuer.registered = true) (.IssuerAlreadyRegistered circuitId issuerKeyId)
  pure { s with issuers := Function.update s.issuers (circuitId, issuerKeyId) ⟨true, true⟩ }

def retireIssuer (circuitId issuerKeyId : Bytes32) : Except Error (State base) := do
  s.onlyOwner env
  let _ ← s.activeCircuit circuitId
  let issuer ← s.activeIssuer circuitId issuerKeyId
  pure { s with
    issuers := Function.update s.issuers (circuitId, issuerKeyId)
      { issuer with active := false } }

def publishStatusRoot (circuitId issuerKeyId : Bytes32) (epoch : BitVec 32) (root : Bytes32) :
    Except Error (State base) := do
  s.onlyOwner env
  let _ ← s.activeCircuit circuitId
  let _ ← s.activeIssuer circuitId issuerKeyId
  revertIf (root = 0) .InvalidStatusRoot
  let latest := s.latestStatusEpoch (circuitId, issuerKeyId)
  revertIf (epoch ≤ latest) (.StatusEpochNotIncreasing latest epoch)
  revertIf (s.publishedRoots (circuitId, issuerKeyId) root = true)
    (.StatusRootAlreadyPublished root)
  pure { s with
    latestStatusEpoch := Function.update s.latestStatusEpoch (circuitId, issuerKeyId) epoch
    publishedRoots := set₂ s.publishedRoots (circuitId, issuerKeyId) root true
    statusRootEpoch := set₂ s.statusRootEpoch (circuitId, issuerKeyId) root epoch
    statusRoots := set₂ s.statusRoots (circuitId, issuerKeyId) epoch ⟨root, false⟩ }

def revokeStatusRoot (circuitId issuerKeyId : Bytes32) (epoch : BitVec 32) :
    Except Error (State base) := do
  s.onlyOwner env
  let _ ← s.activeCircuit circuitId
  let _ ← s.activeIssuer circuitId issuerKeyId
  let status := s.statusRoots (circuitId, issuerKeyId) epoch
  revertIf (status.root = 0) (.UnknownStatusRoot circuitId issuerKeyId epoch)
  revertIf (status.revoked = true) (.StatusRootAlreadyRevoked circuitId issuerKeyId epoch)
  pure { s with
    statusRoots := set₂ s.statusRoots (circuitId, issuerKeyId) epoch
      { status with revoked := true } }

def dynamicStatusPolicyHash (keccak256 : Keccak256)
    (providerIdHash listVersionHash statusRoot : Bytes32) (maximumAgeSeconds : BitVec 32) :
    Except Error Bytes32 :=
  (ZkIdentityEncoding.dynamicStatusPolicyHash keccak256
    { providerIdHash, listVersionHash, statusRoot, maximumAgeSeconds }).mapError .Encoding

def registerDynamicStatusPolicy (keccak256 : Keccak256)
    (providerIdHash listVersionHash statusRoot : Bytes32)
    (publishedAt maximumAgeSeconds : BitVec 32) : Except Error (State base) := do
  s.onlyOwner env
  revertIf (publishedAt = 0 ∨ env.timestamp < publishedAt.setWidth 256)
    .InvalidDynamicStatusPublicationTime
  let policyHash ← dynamicStatusPolicyHash keccak256 providerIdHash listVersionHash statusRoot
    maximumAgeSeconds
  revertIf ((s.dynamicStatusPolicies policyHash).registered = true)
    (.DynamicStatusPolicyAlreadyRegistered policyHash)
  pure { s with
    dynamicStatusPolicies := Function.update s.dynamicStatusPolicies policyHash
      { providerIdHash, listVersionHash, statusRoot, publishedAt, maximumAgeSeconds
        registered := true
        active := true } }

def retireDynamicStatusPolicy (policyHash : Bytes32) : Except Error (State base) := do
  s.onlyOwner env
  let policy := s.dynamicStatusPolicies policyHash
  revertIf (policy.registered = false) (.UnknownDynamicStatusPolicy policyHash)
  revertIf (policy.active = false) (.DynamicStatusPolicyAlreadyRetired policyHash)
  pure { s with
    dynamicStatusPolicies := Function.update s.dynamicStatusPolicies policyHash
      { policy with active := false } }

-- What the prover reads of a policy.
structure PolicyState where
  statusRoot : Bytes32
  publishedAt : BitVec 32
  maximumAgeSeconds : BitVec 32
  registered : Bool
  active : Bool
deriving DecidableEq, Repr

def dynamicStatusPolicyState (policyHash : Bytes32) : PolicyState :=
  let policy := s.dynamicStatusPolicies policyHash
  ⟨policy.statusRoot, policy.publishedAt, policy.maximumAgeSeconds, policy.registered,
    policy.active⟩

def isAccepted (circuitId : Bytes32) (verifier : Address) (issuerKeyId root : Bytes32)
    (epoch : BitVec 32) : Bool :=
  let circuit := s.circuits circuitId
  if circuit.active = false ∨ circuit.verifier ≠ verifier ∨
      env.codehash verifier ≠ circuit.verifierCodehash then false
  else
    let issuer := s.issuers (circuitId, issuerKeyId)
    if issuer.active = false then false
    else
      let status := s.statusRoots (circuitId, issuerKeyId) epoch
      decide (status.root = root) && decide (root ≠ 0) && !status.revoked

def requireAccepted (circuitId : Bytes32) (verifier : Address) (issuerKeyId root : Bytes32)
    (epoch : BitVec 32) : Except Error Unit :=
  revertIf (s.isAccepted env circuitId verifier issuerKeyId root epoch = false)
    .UnacceptedIdentityState

def isRootAccepted (circuitId : Bytes32) (verifier : Address) (issuerKeyId root : Bytes32) :
    Bool :=
  let epoch := s.statusRootEpoch (circuitId, issuerKeyId) root
  decide (epoch ≠ 0) && s.isAccepted env circuitId verifier issuerKeyId root epoch

def requireRootAccepted (circuitId issuerKeyId root : Bytes32) : Except Error Address := do
  let verifier := (s.circuits circuitId).verifier
  revertIf (s.isRootAccepted env circuitId verifier issuerKeyId root = false)
    .UnacceptedIdentityState
  pure verifier

end State

inductive Call (base : Ownable) where
  | ownership (call : base.Call)
  | registerCircuit (circuitId : Bytes32) (verifier : Address)
  | retireCircuit (circuitId : Bytes32)
  | authorizeIssuer (circuitId issuerKeyId : Bytes32)
  | retireIssuer (circuitId issuerKeyId : Bytes32)
  | publishStatusRoot (circuitId issuerKeyId : Bytes32) (epoch : BitVec 32) (root : Bytes32)
  | revokeStatusRoot (circuitId issuerKeyId : Bytes32) (epoch : BitVec 32)
  | registerDynamicStatusPolicy (providerIdHash listVersionHash statusRoot : Bytes32)
      (publishedAt maximumAgeSeconds : BitVec 32)
  | retireDynamicStatusPolicy (policyHash : Bytes32)

namespace State

def ownableCall (s : State base) (env : Env) (call : base.Call) : Except Error (State base) :=
  match base.call s.ownership env.sender call with
  | some ownership => .ok { s with ownership }
  | none => .error .OwnableReverted

def execute (keccak256 : Keccak256) (s : State base) (env : Env) :
    Call base → Except Error (State base)
  | .ownership call => s.ownableCall env call
  | .registerCircuit circuitId verifier => s.registerCircuit env circuitId verifier
  | .retireCircuit circuitId => s.retireCircuit env circuitId
  | .authorizeIssuer circuitId issuerKeyId => s.authorizeIssuer env circuitId issuerKeyId
  | .retireIssuer circuitId issuerKeyId => s.retireIssuer env circuitId issuerKeyId
  | .publishStatusRoot circuitId issuerKeyId epoch root =>
    s.publishStatusRoot env circuitId issuerKeyId epoch root
  | .revokeStatusRoot circuitId issuerKeyId epoch =>
    s.revokeStatusRoot env circuitId issuerKeyId epoch
  | .registerDynamicStatusPolicy providerIdHash listVersionHash statusRoot publishedAt
      maximumAgeSeconds =>
    s.registerDynamicStatusPolicy env keccak256 providerIdHash listVersionHash statusRoot
      publishedAt maximumAgeSeconds
  | .retireDynamicStatusPolicy policyHash => s.retireDynamicStatusPolicy env policyHash

end State

-- A status root as it was published.
structure Publication where
  scope : Namespace
  epoch : BitVec 32
  root : Bytes32
deriving DecidableEq, Repr

-- The registry with the status roots that were published, in their order.
structure World (base : Ownable) where
  state : State base
  publications : List Publication

def Call.publication? : Call base → Option Publication
  | .publishStatusRoot circuitId issuerKeyId epoch root =>
    some ⟨(circuitId, issuerKeyId), epoch, root⟩
  | _ => none

-- A call that reverts leaves everything as it was.
def World.call (keccak256 : Keccak256) (w : World base) (env : Env) (call : Call base) :
    World base :=
  match w.state.execute keccak256 env call with
  | .ok state => ⟨state, w.publications ++ call.publication?.toList⟩
  | .error _ => w

def World.calls (keccak256 : Keccak256) (w : World base) (calls : List (Env × Call base)) :
    World base :=
  calls.foldl (fun w c => w.call keccak256 c.1 c.2) w

-- The registry after a sequence of calls from any senders, at any times.
def run (keccak256 : Keccak256) (ownership : base.State) (calls : List (Env × Call base)) :
    World base :=
  World.calls keccak256 ⟨new ownership, []⟩ calls

end Ubi2.Contracts.ZkIdentityVersionRegistry
