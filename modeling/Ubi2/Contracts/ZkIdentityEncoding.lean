import Ubi2.Lib.Abi
import Ubi2.Lib.Evm

namespace Ubi2.Contracts.ZkIdentityEncoding

open Ubi2.Lib Ubi2.Lib.Evm Ubi2.Lib.Encode Ubi2.Lib.Except Ubi2.Lib.Abi

def BN254_SCALAR_FIELD : BitVec 256 :=
  21888242871839275222246405745257275088548364400416034343698204186575808495617#256

def NULLIFIER_SCOPE_VERSION : BitVec 16 := 1
def POLICY_VERSION : BitVec 16 := 1
def PRESENTATION_VERSION : BitVec 16 := 1
def PUBLIC_SIGNALS_VERSION : BitVec 16 := 1
def PUBLIC_SIGNAL_COUNT : Nat := 18
def MINIMUM_DYNAMIC_STATUS_AGE : BitVec 32 := 60
-- 365 days in seconds.
def MAXIMUM_DYNAMIC_STATUS_AGE : BitVec 32 := 31536000

-- The hash that the EVM offers.
abbrev Keccak256 := List Byte → Bytes32

variable (keccak256 : Keccak256)

def keccakText (text : String) : Bytes32 :=
  keccak256 (text.toUTF8.data.toList.map UInt8.toBitVec)

def NULLIFIER_SCOPE_DOMAIN : Bytes32 :=
  keccakText keccak256 "org.proofofhumanity.zk-nullifier-scope"

def POLICY_DOMAIN : Bytes32 :=
  keccakText keccak256 "org.proofofhumanity.zk-policy"

def DYNAMIC_STATUS_KIND : Bytes32 :=
  keccakText keccak256 "org.proofofhumanity.zk-policy:dynamic-status"

def SANCTIONS_CLEAR_STATUS : Bytes32 :=
  keccakText keccak256 "sanctions-clear"

def PRESENTATION_DOMAIN : Bytes32 :=
  keccakText keccak256 "org.proofofhumanity.zk-presentation"

def IDX_LAYOUT_VERSION : Nat := 0
def IDX_CIRCUIT_ID_HI : Nat := 1
def IDX_ISSUER_KEY_ID_HI : Nat := 3
def IDX_ACTIVE_ROOT_HI : Nat := 5
def IDX_POLICY_HASH_HI : Nat := 7
def IDX_BINDING_HASH_HI : Nat := 9
def IDX_NULLIFIER_SCOPE_HASH_HI : Nat := 11
def IDX_SCOPED_NULLIFIER : Nat := 13
def IDX_SUBJECT : Nat := 14
def IDX_RESULT : Nat := 15
def IDX_CREDENTIAL_EPOCH : Nat := 16
def IDX_STATUS_EPOCH : Nat := 17

structure NullifierScope where
  mode : BitVec 8
  chainId : BitVec 256
  verifier : Address
  consumer : Address
  context : Bytes32
  policyHash : Bytes32
deriving DecidableEq, Repr

structure PublicSignals where
  circuitId : Bytes32
  issuerKeyId : Bytes32
  activeRoot : Bytes32
  policyHash : Bytes32
  presentationBindingHash : Bytes32
  nullifierScopeHash : Bytes32
  scopedNullifier : BitVec 256
  subject : Address
  result : Bool
  credentialEpoch : BitVec 32
  statusEpoch : BitVec 32
deriving DecidableEq, Repr

structure PresentationBinding where
  policyHash : Bytes32
  chainId : BitVec 256
  verifier : Address
  consumer : Address
  subject : Address
  context : Bytes32
  challenge : Bytes32
  epoch : BitVec 32
deriving DecidableEq, Repr

structure DynamicStatusPolicy where
  providerIdHash : Bytes32
  listVersionHash : Bytes32
  statusRoot : Bytes32
  maximumAgeSeconds : BitVec 32
deriving DecidableEq, Repr

inductive Error where
  | NonCanonicalField (index : Nat)
  | UnsupportedPublicSignalLayout
  | InvalidPublicSignalLength
  | InvalidIdentifier (highIndex : Nat)
  | InvalidNullifierScope
  | InvalidSubject
  | InvalidResult
  | InvalidEpoch (index : Nat)
  | InvalidPresentationBinding
  | InvalidDynamicStatusPolicy
deriving DecidableEq, Repr

-- The bytes that are hashed for a scope.
def NullifierScope.preimage (scope : NullifierScope) : List Byte :=
  encodeWords [NULLIFIER_SCOPE_DOMAIN keccak256, NULLIFIER_SCOPE_VERSION.setWidth 256,
    scope.mode.setWidth 256, scope.chainId, scope.verifier.setWidth 256,
    scope.consumer.setWidth 256, scope.context, scope.policyHash]

def nullifierScopeHash (scope : NullifierScope) : Except Error Bytes32 := do
  revertIf ((scope.mode ≠ 1 ∧ scope.mode ≠ 2) ∨ scope.chainId = 0 ∨ scope.verifier = 0 ∨
    scope.consumer = 0 ∨ scope.policyHash = 0) .InvalidNullifierScope
  pure (keccak256 (scope.preimage keccak256))

def PresentationBinding.preimage (binding : PresentationBinding) : List Byte :=
  encodeWords [PRESENTATION_DOMAIN keccak256, PRESENTATION_VERSION.setWidth 256,
    binding.policyHash, binding.chainId, binding.verifier.setWidth 256,
    binding.consumer.setWidth 256, binding.subject.setWidth 256, binding.context,
    binding.challenge, binding.epoch.setWidth 256]

def presentationBindingHash (binding : PresentationBinding) : Except Error Bytes32 := do
  revertIf (binding.policyHash = 0 ∨ binding.chainId = 0 ∨ binding.verifier = 0 ∨
    binding.consumer = 0 ∨ binding.subject = 0) .InvalidPresentationBinding
  pure (keccak256 (binding.preimage keccak256))

def dynamicStatusPolicyHash (policy : DynamicStatusPolicy) : Except Error Bytes32 := do
  revertIf (policy.providerIdHash = 0 ∨ policy.listVersionHash = 0 ∨ policy.statusRoot = 0 ∨
    policy.maximumAgeSeconds < MINIMUM_DYNAMIC_STATUS_AGE ∨
    MAXIMUM_DYNAMIC_STATUS_AGE < policy.maximumAgeSeconds) .InvalidDynamicStatusPolicy
  let parametersHash := keccak256 (encodeWords [SANCTIONS_CLEAR_STATUS keccak256,
    policy.providerIdHash, policy.listVersionHash, policy.statusRoot,
    policy.maximumAgeSeconds.setWidth 256])
  pure (keccak256 (encodeWords [POLICY_DOMAIN keccak256, POLICY_VERSION.setWidth 256,
    DYNAMIC_STATUS_KIND keccak256, parametersHash]))

-- The largest 128-bit limb.
def MAX_LIMB : BitVec 256 := 0xFFFFFFFFFFFFFFFFFFFFFFFFFFFFFFFF#256

def joinIdentifier (signals : List (BitVec 256)) (highIndex : Nat) : Except Error Bytes32 := do
  let high := signals.getD highIndex 0
  let low := signals.getD (highIndex + 1) 0
  revertIf (MAX_LIMB < high ∨ MAX_LIMB < low ∨ (high = 0 ∧ low = 0))
    (.InvalidIdentifier highIndex)
  pure (high <<< 128 ||| low)

-- The first signal that is no canonical field element stops the loop.
def checkFields : Nat → List (BitVec 256) → Except Error Unit
  | _, [] => pure ()
  | i, signal :: signals => do
    revertIf (BN254_SCALAR_FIELD ≤ signal) (.NonCanonicalField i)
    checkFields (i + 1) signals

def decodePublicSignals (signals : List (BitVec 256)) : Except Error PublicSignals := do
  revertIf (signals.length ≠ PUBLIC_SIGNAL_COUNT) .InvalidPublicSignalLength
  checkFields 0 signals
  let signal (index : Nat) : BitVec 256 := signals.getD index 0
  revertIf (signal IDX_LAYOUT_VERSION ≠ PUBLIC_SIGNALS_VERSION.setWidth 256)
    .UnsupportedPublicSignalLayout
  let circuitId ← joinIdentifier signals IDX_CIRCUIT_ID_HI
  let issuerKeyId ← joinIdentifier signals IDX_ISSUER_KEY_ID_HI
  let activeRoot ← joinIdentifier signals IDX_ACTIVE_ROOT_HI
  let policyHash ← joinIdentifier signals IDX_POLICY_HASH_HI
  let presentationBindingHash ← joinIdentifier signals IDX_BINDING_HASH_HI
  let nullifierScopeHash ← joinIdentifier signals IDX_NULLIFIER_SCOPE_HASH_HI
  revertIf (signal IDX_SCOPED_NULLIFIER = 0) (.InvalidIdentifier IDX_SCOPED_NULLIFIER)
  revertIf (signal IDX_SUBJECT = 0 ∨
    0xFFFFFFFFFFFFFFFFFFFFFFFFFFFFFFFFFFFFFFFF#256 < signal IDX_SUBJECT) .InvalidSubject
  revertIf (1#256 < signal IDX_RESULT) .InvalidResult
  revertIf (0xFFFFFFFF#256 < signal IDX_CREDENTIAL_EPOCH) (.InvalidEpoch IDX_CREDENTIAL_EPOCH)
  revertIf (0xFFFFFFFF#256 < signal IDX_STATUS_EPOCH) (.InvalidEpoch IDX_STATUS_EPOCH)
  pure
    { circuitId
      issuerKeyId
      activeRoot
      policyHash
      presentationBindingHash
      nullifierScopeHash
      scopedNullifier := signal IDX_SCOPED_NULLIFIER
      subject := (signal IDX_SUBJECT).setWidth 160
      result := decide (signal IDX_RESULT = 1)
      credentialEpoch := (signal IDX_CREDENTIAL_EPOCH).setWidth 32
      statusEpoch := (signal IDX_STATUS_EPOCH).setWidth 32 }

theorem NullifierScope.preimage_injective :
    Function.Injective (NullifierScope.preimage keccak256) := by
  intro a b h
  have hwords := encodeWords_injective h
  simp only [List.cons.injEq, and_true, true_and] at hwords
  obtain ⟨hmode, hchain, hverifier, hconsumer, hcontext, hpolicy⟩ := hwords
  cases a
  cases b
  simp only [NullifierScope.mk.injEq]
  exact ⟨widen_inj (by decide) hmode, hchain, widen_inj (by decide) hverifier,
    widen_inj (by decide) hconsumer, hcontext, hpolicy⟩

theorem PresentationBinding.preimage_injective :
    Function.Injective (PresentationBinding.preimage keccak256) := by
  intro a b h
  have hwords := encodeWords_injective h
  simp only [List.cons.injEq, and_true, true_and] at hwords
  obtain ⟨hpolicy, hchain, hverifier, hconsumer, hsubject, hcontext, hchallenge, hepoch⟩ :=
    hwords
  cases a
  cases b
  simp only [PresentationBinding.mk.injEq]
  exact ⟨hpolicy, hchain, widen_inj (by decide) hverifier, widen_inj (by decide) hconsumer,
    widen_inj (by decide) hsubject, hcontext, hchallenge, widen_inj (by decide) hepoch⟩

end Ubi2.Contracts.ZkIdentityEncoding
