import Ubi2.Contracts.ZkIdentityEncoding

namespace Ubi2.Contracts.PredicateVerifier

open Ubi2.Lib.Evm Ubi2.Lib.Encode Ubi2.Lib.Except Ubi2.Lib.Abi ZkIdentityEncoding

structure PredicateAttestation where
  consumer : Address
  context : Bytes32
  predicate : Bytes32
  result : Bool
  subject : Address
  epoch : BitVec 32
  nonce : BitVec 256
deriving DecidableEq, Repr

structure ProofClaims where
  subject : Address
  predicate : Bytes32
  result : Bool
  epoch : BitVec 32
deriving DecidableEq, Repr

-- A prover as the verifier sees it: what its two views return, or nothing when they
-- revert.
structure Prover where
  verifyPredicate : Env → List Byte → List (BitVec 256) → List Byte → Option ProofClaims
  proofReplayIdentifier : Env → List (BitVec 256) → Option Bytes32

-- The hash of the EVM, and the typed-data hash (of the contract, the chain and the
-- structure's hash) and the signature recovery that the verifier imports.
structure Imports where
  keccak256 : Keccak256
  hashTypedDataV4 : Address → BitVec 256 → Bytes32 → Bytes32
  recover : Bytes32 → List Byte → Option Address

-- 90 days in seconds.
def EPOCH : BitVec 256 := 7776000#256

def VALIDITY_EPOCHS : BitVec 32 := 4

def PREDICATE_TYPEHASH (keccak256 : Keccak256) : Bytes32 :=
  keccakText keccak256
    "PredicateAttestation(address consumer,bytes32 context,bytes32 predicate,bool result,address subject,uint32 epoch,uint256 nonce)"

def PROOF_REPLAY_DOMAIN (keccak256 : Keccak256) : Bytes32 :=
  keccakText keccak256 "org.proofofhumanity.predicate-proof-replay"

structure State (base : Ownable) where
  ownership : base.State
  issuer : Address
  consumed : Bytes32 → Bool
  prover : Address

inductive Error where
  | OwnableUnauthorizedAccount (account : Address)
  | OwnableReverted
  | InvalidSigner
  | InvalidIssuer
  | ConsumerMismatch
  | SubjectMismatch
  | StaleEpoch
  | AttestationReplayed
  | PredicateProverUnset
  | WrongPredicate
  | ProofReplayed
  | InvalidProofReplayIdentifier
  | RecoveryReverted
  | ProverReverted
deriving DecidableEq, Repr

variable {base : Ownable}

def initial (ownership : base.State) (issuer : Address) : State base :=
  { ownership, issuer, consumed := fun _ => false, prover := 0 }

def new (ownership : base.State) (initialIssuer : Address) : Except Error (State base) := do
  revertIf (initialIssuer = 0) .InvalidIssuer
  pure (initial ownership initialIssuer)

def currentEpoch (env : Env) : BitVec 32 :=
  (env.timestamp / EPOCH).setWidth 32

def isFresh (env : Env) (epoch : BitVec 32) : Bool :=
  decide ((currentEpoch env).toNat ≤ epoch.toNat + VALIDITY_EPOCHS.toNat)

def boolWord (b : Bool) : BitVec 256 :=
  if b then 1 else 0

def structHash (keccak256 : Keccak256) (att : PredicateAttestation) : Bytes32 :=
  keccak256 (encodeWords [PREDICATE_TYPEHASH keccak256, att.consumer.setWidth 256, att.context,
    att.predicate, boolWord att.result, att.subject.setWidth 256, att.epoch.setWidth 256,
    att.nonce])

def replayKey (keccak256 : Keccak256) (att : PredicateAttestation) : Bytes32 :=
  keccak256 (encodeWords [att.subject.setWidth 256, att.consumer.setWidth 256, att.context,
    att.nonce])

def proofReplayKey (keccak256 : Keccak256) (consumer : Address) (replayIdentifier : Bytes32) :
    Bytes32 :=
  keccak256 (encodeWords [PROOF_REPLAY_DOMAIN keccak256, consumer.setWidth 256,
    replayIdentifier])

-- A view call that reverts, as a failure of the caller.
def bubble {α : Type} (e : Error) : Option α → Except Error α
  | some a => .ok a
  | none => .error e

namespace State

variable (s : State base) (x : Imports) (provers : Address → Prover) (env : Env)

def onlyOwner : Except Error Unit :=
  revertIf (env.sender ≠ base.owner s.ownership) (.OwnableUnauthorizedAccount env.sender)

def setIssuer (newIssuer : Address) : Except Error (State base) := do
  s.onlyOwner env
  revertIf (newIssuer = 0) .InvalidIssuer
  pure { s with issuer := newIssuer }

def setPredicateProver (newProver : Address) : Except Error (State base) := do
  s.onlyOwner env
  pure { s with prover := newProver }

def validate (att : PredicateAttestation) (signature : List Byte)
    (consumer presenter : Address) : Except Error Unit := do
  revertIf (att.consumer ≠ consumer) .ConsumerMismatch
  revertIf (att.subject ≠ presenter) .SubjectMismatch
  revertIf (isFresh env att.epoch = false) .StaleEpoch
  let signer ← bubble .RecoveryReverted
    (x.recover (x.hashTypedDataV4 env.this env.chainId (structHash x.keccak256 att)) signature)
  revertIf (signer ≠ s.issuer) .InvalidSigner

def consume (att : PredicateAttestation) (signature : List Byte) (presenter : Address) :
    Except Error (State base × Bool) := do
  s.validate x env att signature env.sender presenter
  let key := replayKey x.keccak256 att
  revertIf (s.consumed key = true) .AttestationReplayed
  pure ({ s with consumed := Function.update s.consumed key true }, att.result)

def check (att : PredicateAttestation) (signature : List Byte)
    (presenter consumer : Address) : Except Error Bool := do
  s.validate x env att signature consumer presenter
  pure att.result

-- The prover is called by the verifier itself.
def toProver : Env :=
  { env with this := s.prover, sender := env.this }

def proofClaims (proof : List Byte) (publicSignals : List (BitVec 256)) (context : Calldata)
    (consumer : Address) : Except Error ProofClaims := do
  revertIf (s.prover = 0) .PredicateProverUnset
  let proverContext := encodeWordBytes (consumer.setWidth 256) context.1
  bubble .ProverReverted ((provers s.prover).verifyPredicate (s.toProver env) proof publicSignals
    proverContext)

def validateProof (proof : List Byte) (publicSignals : List (BitVec 256)) (context : Calldata)
    (requiredPredicate : Bytes32) (presenter consumer : Address) :
    Except Error (Address × Bool) := do
  let claims ← s.proofClaims provers env proof publicSignals context consumer
  revertIf (claims.predicate ≠ requiredPredicate) .WrongPredicate
  revertIf (claims.subject ≠ presenter) .SubjectMismatch
  revertIf (isFresh env claims.epoch = false) .StaleEpoch
  pure (claims.subject, claims.result)

def replayIdentifier (publicSignals : List (BitVec 256)) : Except Error Bytes32 := do
  let value ← bubble .InvalidProofReplayIdentifier
    ((provers s.prover).proofReplayIdentifier (s.toProver env) publicSignals)
  revertIf (value = 0) .InvalidProofReplayIdentifier
  pure value

def consumeWithProof (proof : List Byte) (publicSignals : List (BitVec 256))
    (context : Calldata) (requiredPredicate : Bytes32) (presenter : Address) :
    Except Error (State base × Bool) := do
  let (_, result) ← s.validateProof provers env proof publicSignals context requiredPredicate
    presenter env.sender
  let replayIdentifier ← s.replayIdentifier provers env publicSignals
  let key := proofReplayKey x.keccak256 env.sender replayIdentifier
  revertIf (s.consumed key = true) .ProofReplayed
  pure ({ s with consumed := Function.update s.consumed key true }, result)

def checkProof (proof : List Byte) (publicSignals : List (BitVec 256)) (context : Calldata)
    (requiredPredicate : Bytes32) (presenter : Address) : Except Error Bool := do
  let (_, result) ← s.validateProof provers env proof publicSignals context requiredPredicate
    presenter env.sender
  pure result

def checkProofFor (proof : List Byte) (publicSignals : List (BitVec 256)) (context : Calldata)
    (requiredPredicate : Bytes32) (presenter consumer : Address) : Except Error Bool := do
  revertIf (consumer = 0) .ConsumerMismatch
  let (_, result) ← s.validateProof provers env proof publicSignals context requiredPredicate
    presenter consumer
  pure result

end State

inductive Call (base : Ownable) where
  | ownership (call : base.Call)
  | setIssuer (newIssuer : Address)
  | setPredicateProver (newProver : Address)
  | consume (att : PredicateAttestation) (signature : List Byte) (presenter : Address)
  | check (att : PredicateAttestation) (signature : List Byte) (presenter consumer : Address)
  | consumeWithProof (proof : List Byte) (publicSignals : List (BitVec 256))
      (context : Calldata) (requiredPredicate : Bytes32) (presenter : Address)
  | checkProof (proof : List Byte) (publicSignals : List (BitVec 256)) (context : Calldata)
      (requiredPredicate : Bytes32) (presenter : Address)
  | checkProofFor (proof : List Byte) (publicSignals : List (BitVec 256)) (context : Calldata)
      (requiredPredicate : Bytes32) (presenter consumer : Address)

-- A call with its transaction, and the code and the state that other addresses have
-- during it.
structure Input (base : Ownable) where
  tx : Transaction
  provers : Address → Prover
  call : Call base

namespace State

variable (s : State base) (x : Imports)

def ownableCall (env : Env) (call : base.Call) : Except Error (State base) :=
  match base.call s.ownership env.sender call with
  | some ownership => .ok { s with ownership }
  | none => .error .OwnableReverted

-- The state after a call, and the bit that the call returns when it returns one.
def execute (i : Input base) : Except Error (State base × Option Bool) :=
  let env := i.tx.toEnv
  match i.call with
  | .ownership call => (s.ownableCall env call).map fun s' => (s', none)
  | .setIssuer newIssuer => (s.setIssuer env newIssuer).map fun s' => (s', none)
  | .setPredicateProver newProver =>
    (s.setPredicateProver env newProver).map fun s' => (s', none)
  | .consume att signature presenter =>
    (s.consume x env att signature presenter).map fun r => (r.1, some r.2)
  | .check att signature presenter consumer =>
    (s.check x env att signature presenter consumer).map fun r => (s, some r)
  | .consumeWithProof proof publicSignals context requiredPredicate presenter =>
    (s.consumeWithProof x i.provers env proof publicSignals context requiredPredicate
      presenter).map fun r => (r.1, some r.2)
  | .checkProof proof publicSignals context requiredPredicate presenter =>
    (s.checkProof i.provers env proof publicSignals context requiredPredicate presenter).map
      fun r => (s, some r)
  | .checkProofFor proof publicSignals context requiredPredicate presenter consumer =>
    (s.checkProofFor i.provers env proof publicSignals context requiredPredicate presenter
      consumer).map fun r => (s, some r)

end State

end Ubi2.Contracts.PredicateVerifier
