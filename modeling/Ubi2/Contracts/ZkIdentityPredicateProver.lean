import Ubi2.Contracts.PredicateVerifier
import Ubi2.Contracts.ZkIdentityVersionRegistry

namespace Ubi2.Contracts.ZkIdentityPredicateProver

open Ubi2.Lib.Evm Ubi2.Lib.Encode Ubi2.Lib.Except Ubi2.Lib.Abi ZkIdentityEncoding

inductive Error where
  | OnlyPredicateVerifier
  | InvalidProofEncoding
  | InvalidProofContext
  | PresentationBindingMismatch
  | NullifierScopeMismatch
  | UnregisteredDynamicStatusPolicy
  | RetiredDynamicStatusPolicy
  | DynamicStatusRootMismatch
  | DynamicStatusEpochMismatch
  | DynamicStatusFromFuture
  | StaleDynamicStatus
  | InvalidProof
  | UndecodableContext
  | Encoding (error : ZkIdentityEncoding.Error)
  | Registry (error : ZkIdentityVersionRegistry.Error)
deriving DecidableEq, Repr

variable {base : Ownable}

-- The prover at one time: its two immutable addresses, the registry as it stands, and
-- what a verifier contract answers to a proof and its signals, or nothing when it reverts.
structure State (base : Ownable) where
  predicateVerifier : Address
  registry : ZkIdentityVersionRegistry.State base
  groth16 : Address → List (BitVec 256) → List (BitVec 256) → Option Bool

-- `abi.decode(context, (address, bytes))`.
def decodeContext (context : List Byte) : Except Error (Address × List Byte) :=
  let decoded : Option (Address × List Byte) := do
    let consumer ← wordAt context 0
    let consumer ← narrow 160 consumer
    let offset ← wordAt context 32
    let applicationContext ← bytesAt context offset
    pure (consumer, applicationContext)
  match decoded with
  | some decoded => .ok decoded
  | none => .error .UndecodableContext

-- `abi.decode(applicationContext, (bytes32, bytes32, uint8))`.
def decodeApplicationContext (applicationContext : List Byte) :
    Except Error (Bytes32 × Bytes32 × BitVec 8) :=
  let decoded : Option (Bytes32 × Bytes32 × BitVec 8) := do
    let actionContext ← wordAt applicationContext 0
    let challenge ← wordAt applicationContext 32
    let nullifierMode ← wordAt applicationContext 64
    let nullifierMode ← narrow 8 nullifierMode
    pure (actionContext, challenge, nullifierMode)
  match decoded with
  | some decoded => .ok decoded
  | none => .error .UndecodableContext

namespace State

variable (p : State base) (keccak256 : Keccak256) (env : Env)

def validateDynamicStatus (policyHash activeRoot : Bytes32) (statusEpoch : BitVec 32) :
    Except Error Unit :=
  let policy := p.registry.dynamicStatusPolicyState policyHash
  if policy.registered = false then
    revertIf (statusEpoch ≠ 0) .UnregisteredDynamicStatusPolicy
  else do
    revertIf (policy.active = false) .RetiredDynamicStatusPolicy
    revertIf (activeRoot ≠ policy.statusRoot) .DynamicStatusRootMismatch
    revertIf (statusEpoch = 0 ∨ statusEpoch ≠ policy.publishedAt) .DynamicStatusEpochMismatch
    revertIf (env.timestamp < statusEpoch.setWidth 256) .DynamicStatusFromFuture
    revertIf (policy.maximumAgeSeconds.setWidth 256 < env.timestamp - statusEpoch.setWidth 256)
      .StaleDynamicStatus

def presentationBinding (decoded : PublicSignals) (consumer : Address)
    (actionContext challenge : Bytes32) : PresentationBinding where
  policyHash := decoded.policyHash
  chainId := env.chainId
  verifier := p.predicateVerifier
  consumer := consumer
  subject := decoded.subject
  context := actionContext
  challenge := challenge
  epoch := decoded.credentialEpoch

def nullifierScope (decoded : PublicSignals) (consumer : Address) (actionContext : Bytes32)
    (nullifierMode : BitVec 8) : NullifierScope where
  mode := nullifierMode
  chainId := env.chainId
  verifier := p.predicateVerifier
  consumer := consumer
  context := actionContext
  policyHash := decoded.policyHash

def validateContextBindings (decoded : PublicSignals) (context : List Byte) :
    Except Error Unit := do
  let (consumer, applicationContext) ← decodeContext context
  revertIf (consumer = 0 ∨ applicationContext.length ≠ 3 * 32) .InvalidProofContext
  let (actionContext, challenge, nullifierMode) ← decodeApplicationContext applicationContext
  revertIf (challenge = 0 ∨ (nullifierMode ≠ 1 ∧ nullifierMode ≠ 2)) .InvalidProofContext
  let expectedBinding ← (presentationBindingHash keccak256
    (p.presentationBinding env decoded consumer actionContext challenge)).mapError .Encoding
  revertIf (decoded.presentationBindingHash ≠ expectedBinding) .PresentationBindingMismatch
  let expectedScope ← (nullifierScopeHash keccak256
    (p.nullifierScope env decoded consumer actionContext nullifierMode)).mapError .Encoding
  revertIf (decoded.nullifierScopeHash ≠ expectedScope) .NullifierScopeMismatch

def verifyProof (verifier : Address) (proof : List Byte) (publicSignals : List (BitVec 256)) :
    Except Error Unit := do
  revertIf (proof.length ≠ 8 * 32) .InvalidProofEncoding
  let proofWords := (List.range 8).map fun i =>
    BitVec.ofNat 256 (ofBytes ((proof.drop (32 * i)).take 32))
  revertIf (p.groth16 verifier proofWords publicSignals ≠ some true) .InvalidProof

def verifyPredicate (proof : List Byte) (publicSignals : List (BitVec 256))
    (context : List Byte) : Except Error PredicateVerifier.ProofClaims := do
  revertIf (env.sender ≠ p.predicateVerifier) .OnlyPredicateVerifier
  let decoded ← (decodePublicSignals publicSignals).mapError .Encoding
  p.validateDynamicStatus env decoded.policyHash decoded.activeRoot decoded.statusEpoch
  p.validateContextBindings keccak256 env decoded context
  let verifier ← (p.registry.requireRootAccepted env decoded.circuitId decoded.issuerKeyId
    decoded.activeRoot).mapError .Registry
  p.verifyProof verifier proof publicSignals
  pure ⟨decoded.subject, decoded.policyHash, decoded.result, decoded.credentialEpoch⟩

end State

def proofReplayIdentifier (publicSignals : List (BitVec 256)) : Except Error Bytes32 := do
  let decoded ← (decodePublicSignals publicSignals).mapError .Encoding
  pure decoded.scopedNullifier

-- The prover as the predicate verifier calls it.
def State.asProver (p : State base) (keccak256 : Keccak256) : PredicateVerifier.Prover where
  verifyPredicate env proof publicSignals context :=
    (p.verifyPredicate keccak256 env proof publicSignals context).toOption
  proofReplayIdentifier _ publicSignals := (proofReplayIdentifier publicSignals).toOption

end Ubi2.Contracts.ZkIdentityPredicateProver
