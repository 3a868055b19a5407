import Ubi2.Lib.Evm

namespace Ubi2.Contracts.ZkIdentityIssuanceRegistry

open Ubi2.Lib.Evm Ubi2.Lib.Except

-- 90 days in seconds.
def EPOCH : BitVec 256 := 7776000#256

def BN254_SCALAR_FIELD : BitVec 256 :=
  21888242871839275222246405745257275088548364400416034343698204186575808495617#256

structure IssuerKey where
  registered : Bool
  active : Bool
  nextStatusId : BitVec 64
deriving DecidableEq, Repr, Inhabited

structure IssuanceAuthority where
  codehash : Bytes32
  registered : Bool
  active : Bool
deriving DecidableEq, Repr, Inhabited

structure Issuance where
  issuerKeyId : Bytes32
  credentialCommitment : BitVec 256
  statusId : BitVec 32
  issuedAtEpoch : BitVec 32
deriving DecidableEq, Repr, Inhabited

structure StatusPublisher where
  codehash : Bytes32
  registered : Bool
  active : Bool
deriving DecidableEq, Repr, Inhabited

structure StatusSnapshot where
  root : Bytes32
  activatedThroughStatusId : BitVec 32
  publishedAt : BitVec 64
  revoked : Bool
deriving DecidableEq, Repr, Inhabited

structure State (base : Ownable) where
  ownership : base.State
  issuerKeys : Bytes32 → IssuerKey
  issuanceAuthorities : Bytes32 → Address → IssuanceAuthority
  issuances : Bytes32 → Issuance
  credentialCommitmentUsed : BitVec 256 → Bool
  credentialCommitmentAt : Bytes32 → BitVec 32 → BitVec 256
  statusPublishers : Bytes32 → Address → StatusPublisher
  latestStatusSnapshotId : Bytes32 → BitVec 32
  statusSnapshots : Bytes32 → BitVec 32 → StatusSnapshot
  statusSnapshotIdForRoot : Bytes32 → Bytes32 → BitVec 32

inductive Error where
  | OwnableUnauthorizedAccount (account : Address)
  | OwnableReverted
  | InvalidIssuerKeyId
  | IssuerKeyAlreadyRegistered (issuerKeyId : Bytes32)
  | UnknownIssuerKey (issuerKeyId : Bytes32)
  | IssuerKeyInactive (issuerKeyId : Bytes32)
  | InvalidIssuanceAuthority
  | IssuanceAuthorityAlreadyRegistered (issuerKeyId : Bytes32) (authority : Address)
  | UnknownIssuanceAuthority (issuerKeyId : Bytes32) (authority : Address)
  | IssuanceAuthorityInactive (issuerKeyId : Bytes32) (authority : Address)
  | IssuanceAuthorityCodehashChanged (expected actual : Bytes32)
  | InvalidStatusPublisher
  | StatusPublisherAlreadyRegistered (issuerKeyId : Bytes32) (publisher : Address)
  | UnknownStatusPublisher (issuerKeyId : Bytes32) (publisher : Address)
  | StatusPublisherInactive (issuerKeyId : Bytes32) (publisher : Address)
  | StatusPublisherCodehashChanged (expected actual : Bytes32)
  | InvalidDuplicateKey
  | DuplicateKeyAlreadyUsed (issuerKeyId : Bytes32) (statusId : BitVec 32)
  | InvalidCredentialCommitment
  | CredentialCommitmentAlreadyUsed
  | UnexpectedStatusId (expected provided : BitVec 32)
  | UnexpectedIssuanceEpoch (expected provided : BitVec 32)
  | StatusSlotsExhausted (issuerKeyId : Bytes32)
  | IssuanceEpochOverflow
  | InvalidStatusRoot
  | NoAllocatedCredentials (issuerKeyId : Bytes32)
  | UnexpectedNextStatusId (expected provided : BitVec 64)
  | StatusRootAlreadyPublished (root : Bytes32)
  | StatusSnapshotIdOverflow (issuerKeyId : Bytes32)
  | StatusPublicationTimeOverflow
  | UnknownStatusSnapshot (issuerKeyId : Bytes32) (snapshotId : BitVec 32)
  | StatusSnapshotAlreadyRevoked (issuerKeyId : Bytes32) (snapshotId : BitVec 32)
deriving DecidableEq, Repr

-- Each call emits one event, and the values that a call returns are in its event.
inductive Event where
  | IssuerKeyRegistered (issuerKeyId : Bytes32)
  | IssuerKeyRetired (issuerKeyId : Bytes32)
  | IssuanceAuthorityAuthorized (issuerKeyId : Bytes32) (authority : Address)
      (authorityCodehash : Bytes32)
  | IssuanceAuthorityRetired (issuerKeyId : Bytes32) (authority : Address)
  | StatusPublisherAuthorized (issuerKeyId : Bytes32) (publisher : Address)
      (publisherCodehash : Bytes32)
  | StatusPublisherRetired (issuerKeyId : Bytes32) (publisher : Address)
  | CredentialAllocated (issuerKeyId : Bytes32) (statusId : BitVec 32)
      (credentialCommitment : BitVec 256) (issuedAtEpoch : BitVec 32)
  | StatusSnapshotPublished (issuerKeyId : Bytes32) (snapshotId : BitVec 32) (root : Bytes32)
      (activatedThroughStatusId : BitVec 32) (publishedAt : BitVec 64) (publisher : Address)
  | StatusSnapshotRevoked (issuerKeyId : Bytes32) (snapshotId : BitVec 32) (root : Bytes32)
deriving DecidableEq, Repr

variable {base : Ownable}

-- The registry as its constructor leaves it: every mapping is empty.
def new (ownership : base.State) : State base where
  ownership := ownership
  issuerKeys _ := ⟨false, false, 0⟩
  issuanceAuthorities _ _ := ⟨0, false, false⟩
  issuances _ := ⟨0, 0, 0, 0⟩
  credentialCommitmentUsed _ := false
  credentialCommitmentAt _ _ := 0
  statusPublishers _ _ := ⟨0, false, false⟩
  latestStatusSnapshotId _ := 0
  statusSnapshots _ _ := ⟨0, 0, 0, false⟩
  statusSnapshotIdForRoot _ _ := 0

namespace State

variable (s : State base) (env : Env)

def onlyOwner : Except Error Unit :=
  revertIf (env.sender ≠ base.owner s.ownership) (.OwnableUnauthorizedAccount env.sender)

def registeredIssuerKey (issuerKeyId : Bytes32) : Except Error IssuerKey := do
  let issuer := s.issuerKeys issuerKeyId
  revertIf (issuer.registered = false) (.UnknownIssuerKey issuerKeyId)
  pure issuer

def activeIssuerKey (issuerKeyId : Bytes32) : Except Error IssuerKey := do
  let issuer ← s.registeredIssuerKey issuerKeyId
  revertIf (issuer.active = false) (.IssuerKeyInactive issuerKeyId)
  pure issuer

-- Accounts without code are pinned to zero.
def pinnedCodehash (account : Address) : Bytes32 :=
  if env.codeLength account = 0 then 0 else env.codehash account

def activeIssuanceAuthority (issuerKeyId : Bytes32) (authority : Address) :
    Except Error IssuanceAuthority := do
  let authorization := s.issuanceAuthorities issuerKeyId authority
  revertIf (authorization.registered = false) (.UnknownIssuanceAuthority issuerKeyId authority)
  revertIf (authorization.active = false) (.IssuanceAuthorityInactive issuerKeyId authority)
  pure authorization

def requireAuthorityCodehash (authorization : IssuanceAuthority) : Except Error Unit :=
  let expected := authorization.codehash
  let actual := pinnedCodehash env env.sender
  revertIf (actual ≠ expected) (.IssuanceAuthorityCodehashChanged expected actual)

def activeStatusPublisher (issuerKeyId : Bytes32) (publisher : Address) :
    Except Error StatusPublisher := do
  let authorization := s.statusPublishers issuerKeyId publisher
  revertIf (authorization.registered = false) (.UnknownStatusPublisher issuerKeyId publisher)
  revertIf (authorization.active = false) (.StatusPublisherInactive issuerKeyId publisher)
  pure authorization

def requireStatusPublisherCodehash (authorization : StatusPublisher) : Except Error Unit :=
  let expected := authorization.codehash
  let actual := pinnedCodehash env env.sender
  revertIf (actual ≠ expected) (.StatusPublisherCodehashChanged expected actual)

def currentEpoch : Except Error (BitVec 32) := do
  let wideEpoch := env.timestamp / EPOCH
  revertIf (0xFFFFFFFF#256 < wideEpoch) .IssuanceEpochOverflow
  pure (wideEpoch.setWidth 32)

def registerIssuerKey (issuerKeyId : Bytes32) : Except Error (State base × Event) := do
  s.onlyOwner env
  revertIf (issuerKeyId = 0) .InvalidIssuerKeyId
  let issuer := s.issuerKeys issuerKeyId
  revertIf (issuer.registered = true) (.IssuerKeyAlreadyRegistered issuerKeyId)
  let issuer := { issuer with registered := true, active := true, nextStatusId := 1 }
  pure ({ s with issuerKeys := Function.update s.issuerKeys issuerKeyId issuer },
    .IssuerKeyRegistered issuerKeyId)

def retireIssuerKey (issuerKeyId : Bytes32) : Except Error (State base × Event) := do
  s.onlyOwner env
  let issuer ← s.activeIssuerKey issuerKeyId
  let issuer := { issuer with active := false }
  pure ({ s with issuerKeys := Function.update s.issuerKeys issuerKeyId issuer },
    .IssuerKeyRetired issuerKeyId)

def authorizeIssuanceAuthority (issuerKeyId : Bytes32) (authority : Address) :
    Except Error (State base × Event) := do
  s.onlyOwner env
  let _ ← s.activeIssuerKey issuerKeyId
  revertIf (authority = 0) .InvalidIssuanceAuthority
  let authorization := s.issuanceAuthorities issuerKeyId authority
  revertIf (authorization.registered = true)
    (.IssuanceAuthorityAlreadyRegistered issuerKeyId authority)
  let codehash := pinnedCodehash env authority
  pure ({ s with
      issuanceAuthorities := set₂ s.issuanceAuthorities issuerKeyId authority
        ⟨codehash, true, true⟩ },
    .IssuanceAuthorityAuthorized issuerKeyId authority codehash)

def retireIssuanceAuthority (issuerKeyId : Bytes32) (authority : Address) :
    Except Error (State base × Event) := do
  s.onlyOwner env
  let _ ← s.activeIssuerKey issuerKeyId
  let authorization ← s.activeIssuanceAuthority issuerKeyId authority
  pure ({ s with
      issuanceAuthorities := set₂ s.issuanceAuthorities issuerKeyId authority
        { authorization with active := false } },
    .IssuanceAuthorityRetired issuerKeyId authority)

def authorizeStatusPublisher (issuerKeyId : Bytes32) (publisher : Address) :
    Except Error (State base × Event) := do
  s.onlyOwner env
  let _ ← s.activeIssuerKey issuerKeyId
  revertIf (publisher = 0) .InvalidStatusPublisher
  let authorization := s.statusPublishers issuerKeyId publisher
  revertIf (authorization.registered = true)
    (.StatusPublisherAlreadyRegistered issuerKeyId publisher)
  let codehash := pinnedCodehash env publisher
  pure ({ s with
      statusPublishers := set₂ s.statusPublishers issuerKeyId publisher ⟨codehash, true, true⟩ },
    .StatusPublisherAuthorized issuerKeyId publisher codehash)

def retireStatusPublisher (issuerKeyId : Bytes32) (publisher : Address) :
    Except Error (State base × Event) := do
  s.onlyOwner env
  let _ ← s.activeIssuerKey issuerKeyId
  let authorization ← s.activeStatusPublisher issuerKeyId publisher
  pure ({ s with
      statusPublishers := set₂ s.statusPublishers issuerKeyId publisher
        { authorization with active := false } },
    .StatusPublisherRetired issuerKeyId publisher)

def allocateCredential (issuerKeyId duplicateKey : Bytes32) (credentialCommitment : BitVec 256)
    (expectedStatusId expectedEpoch : BitVec 32) : Except Error (State base × Event) := do
  let issuer ← s.activeIssuerKey issuerKeyId
  let authorization ← s.activeIssuanceAuthority issuerKeyId env.sender
  requireAuthorityCodehash env authorization
  revertIf (duplicateKey = 0) .InvalidDuplicateKey
  let previous := s.issuances duplicateKey
  revertIf (previous.statusId ≠ 0)
    (.DuplicateKeyAlreadyUsed previous.issuerKeyId previous.statusId)
  revertIf (credentialCommitment = 0 ∨ BN254_SCALAR_FIELD ≤ credentialCommitment)
    .InvalidCredentialCommitment
  revertIf (s.credentialCommitmentUsed credentialCommitment = true)
    .CredentialCommitmentAlreadyUsed
  let nextStatusId := issuer.nextStatusId
  revertIf (0xFFFFFFFF#64 < nextStatusId) (.StatusSlotsExhausted issuerKeyId)
  let statusId := nextStatusId.setWidth 32
  revertIf (expectedStatusId ≠ statusId) (.UnexpectedStatusId statusId expectedStatusId)
  let issuedAtEpoch ← currentEpoch env
  revertIf (expectedEpoch ≠ issuedAtEpoch) (.UnexpectedIssuanceEpoch issuedAtEpoch expectedEpoch)
  pure ({ s with
      issuerKeys := Function.update s.issuerKeys issuerKeyId
        { issuer with nextStatusId := nextStatusId + 1 }
      issuances := Function.update s.issuances duplicateKey
        { issuerKeyId, credentialCommitment, statusId, issuedAtEpoch }
      credentialCommitmentUsed :=
        Function.update s.credentialCommitmentUsed credentialCommitment true
      credentialCommitmentAt :=
        set₂ s.credentialCommitmentAt issuerKeyId statusId credentialCommitment },
    .CredentialAllocated issuerKeyId statusId credentialCommitment issuedAtEpoch)

def publishStatusSnapshot (issuerKeyId : Bytes32) (expectedNextStatusId : BitVec 64)
    (root : Bytes32) : Except Error (State base × Event) := do
  let issuer ← s.activeIssuerKey issuerKeyId
  let authorization ← s.activeStatusPublisher issuerKeyId env.sender
  requireStatusPublisherCodehash env authorization
  revertIf (root = 0 ∨ BN254_SCALAR_FIELD ≤ root) .InvalidStatusRoot
  let nextStatusId := issuer.nextStatusId
  revertIf (expectedNextStatusId ≠ nextStatusId)
    (.UnexpectedNextStatusId nextStatusId expectedNextStatusId)
  revertIf (nextStatusId = 1) (.NoAllocatedCredentials issuerKeyId)
  revertIf (s.statusSnapshotIdForRoot issuerKeyId root ≠ 0) (.StatusRootAlreadyPublished root)
  let latest := s.latestStatusSnapshotId issuerKeyId
  revertIf (latest = 0xFFFFFFFF#32) (.StatusSnapshotIdOverflow issuerKeyId)
  revertIf (0xFFFFFFFFFFFFFFFF#256 < env.timestamp) .StatusPublicationTimeOverflow
  let snapshotId := latest + 1
  let activatedThroughStatusId := (nextStatusId - 1).setWidth 32
  let publishedAt := env.timestamp.setWidth 64
  pure ({ s with
      latestStatusSnapshotId :=
        Function.update s.latestStatusSnapshotId issuerKeyId snapshotId
      statusSnapshotIdForRoot := set₂ s.statusSnapshotIdForRoot issuerKeyId root snapshotId
      statusSnapshots := set₂ s.statusSnapshots issuerKeyId snapshotId
        { root, activatedThroughStatusId, publishedAt, revoked := false } },
    .StatusSnapshotPublished issuerKeyId snapshotId root activatedThroughStatusId publishedAt
      env.sender)

def revokeStatusSnapshot (issuerKeyId : Bytes32) (snapshotId : BitVec 32) :
    Except Error (State base × Event) := do
  s.onlyOwner env
  let _ ← s.registeredIssuerKey issuerKeyId
  let snapshot := s.statusSnapshots issuerKeyId snapshotId
  revertIf (snapshot.root = 0) (.UnknownStatusSnapshot issuerKeyId snapshotId)
  revertIf (snapshot.revoked = true) (.StatusSnapshotAlreadyRevoked issuerKeyId snapshotId)
  pure ({ s with
      statusSnapshots := set₂ s.statusSnapshots issuerKeyId snapshotId
        { snapshot with revoked := true } },
    .StatusSnapshotRevoked issuerKeyId snapshotId snapshot.root)

def isStatusSnapshotAccepted (issuerKeyId : Bytes32) (snapshotId : BitVec 32) (root : Bytes32) :
    Bool :=
  let issuer := s.issuerKeys issuerKeyId
  if issuer.active = false then false
  else
    let snapshot := s.statusSnapshots issuerKeyId snapshotId
    decide (root ≠ 0) && decide (snapshot.root = root) && !snapshot.revoked

def issuanceForDuplicateKey (duplicateKey : Bytes32) : Issuance :=
  s.issuances duplicateKey

def isDuplicateKeyUsed (duplicateKey : Bytes32) : Bool :=
  decide ((s.issuances duplicateKey).statusId ≠ 0)

end State

inductive Call (base : Ownable) where
  | ownership (call : base.Call)
  | registerIssuerKey (issuerKeyId : Bytes32)
  | retireIssuerKey (issuerKeyId : Bytes32)
  | authorizeIssuanceAuthority (issuerKeyId : Bytes32) (authority : Address)
  | retireIssuanceAuthority (issuerKeyId : Bytes32) (authority : Address)
  | authorizeStatusPublisher (issuerKeyId : Bytes32) (publisher : Address)
  | retireStatusPublisher (issuerKeyId : Bytes32) (publisher : Address)
  | allocateCredential (issuerKeyId duplicateKey : Bytes32) (credentialCommitment : BitVec 256)
      (expectedStatusId expectedEpoch : BitVec 32)
  | publishStatusSnapshot (issuerKeyId : Bytes32) (expectedNextStatusId : BitVec 64)
      (root : Bytes32)
  | revokeStatusSnapshot (issuerKeyId : Bytes32) (snapshotId : BitVec 32)

namespace State

-- The entry points that the ownable base adds emit no event of the registry.
def ownableCall (s : State base) (env : Env) (call : base.Call) :
    Except Error (State base × Option Event) :=
  match base.call s.ownership env.sender call with
  | some ownership => .ok ({ s with ownership }, none)
  | none => .error .OwnableReverted

def emitted (result : Except Error (State base × Event)) :
    Except Error (State base × Option Event) :=
  result.map fun r => (r.1, some r.2)

def execute (s : State base) (env : Env) :
    Call base → Except Error (State base × Option Event)
  | .ownership call => s.ownableCall env call
  | .registerIssuerKey issuerKeyId => emitted (s.registerIssuerKey env issuerKeyId)
  | .retireIssuerKey issuerKeyId => emitted (s.retireIssuerKey env issuerKeyId)
  | .authorizeIssuanceAuthority issuerKeyId authority =>
    emitted (s.authorizeIssuanceAuthority env issuerKeyId authority)
  | .retireIssuanceAuthority issuerKeyId authority =>
    emitted (s.retireIssuanceAuthority env issuerKeyId authority)
  | .authorizeStatusPublisher issuerKeyId publisher =>
    emitted (s.authorizeStatusPublisher env issuerKeyId publisher)
  | .retireStatusPublisher issuerKeyId publisher =>
    emitted (s.retireStatusPublisher env issuerKeyId publisher)
  | .allocateCredential issuerKeyId duplicateKey credentialCommitment expectedStatusId
      expectedEpoch =>
    emitted (s.allocateCredential env issuerKeyId duplicateKey credentialCommitment
      expectedStatusId expectedEpoch)
  | .publishStatusSnapshot issuerKeyId expectedNextStatusId root =>
    emitted (s.publishStatusSnapshot env issuerKeyId expectedNextStatusId root)
  | .revokeStatusSnapshot issuerKeyId snapshotId =>
    emitted (s.revokeStatusSnapshot env issuerKeyId snapshotId)

end State

-- A call that went through, with the event that it emitted.
structure Executed (base : Ownable) where
  env : Env
  call : Call base
  event : Option Event

-- The registry with the calls that went through, in their order.
structure World (base : Ownable) where
  state : State base
  history : List (Executed base)

-- A call that reverts leaves everything as it was.
def World.call (w : World base) (env : Env) (call : Call base) : World base :=
  match w.state.execute env call with
  | .ok (state, event) => ⟨state, w.history ++ [⟨env, call, event⟩]⟩
  | .error _ => w

-- The registry after a sequence of calls from any senders, at any times.
def run (ownership : base.State) (calls : List (Env × Call base)) : World base :=
  calls.foldl (fun w c => w.call c.1 c.2) ⟨new ownership, []⟩

end Ubi2.Contracts.ZkIdentityIssuanceRegistry
