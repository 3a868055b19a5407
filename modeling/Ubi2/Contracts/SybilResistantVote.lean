import Ubi2.Contracts.Redemption

namespace Ubi2.Contracts.SybilResistantVote

open Ubi2.Lib Ubi2.Lib.Evm Ubi2.Lib.Encode Ubi2.Lib.Except
open PredicateVerifier (Imports PredicateAttestation)

structure State where
  poh : Address
  predicateVerifier : Address
  requiredPredicate : Bytes32
  context : Bytes32
  yesVotes : BitVec 256
  noVotes : BitVec 256
  voted : BitVec 256 → Bool

inductive Error where
  | NotTokenHolder
  | HumanNotValid
  | AlreadyVoted
  | WrongPredicate
  | WrongContext
  | PredicateNotSatisfied
  | ZeroAddress
  | HumanityReverted (e : ProofOfHumanity.Error)
  | VerifierReverted (e : PredicateVerifier.Error)
  | Panic
deriving DecidableEq, Repr

def new (poh predicateVerifier : Address) (requiredPredicate context : Bytes32) :
    Except Error State := do
  revertIf (poh = 0 ∨ predicateVerifier = 0) .ZeroAddress
  pure { poh, predicateVerifier, requiredPredicate, context, yesVotes := 0, noVotes := 0,
         voted := fun _ => false }

-- A counter goes up, or the call stops at its end.
def increment (n : BitVec 256) : Except Error (BitVec 256) := do
  revertIf (n = BitVec.allOnes 256) .Panic
  pure (n + 1)

namespace State

def count (s : State) (tokenId : BitVec 256) (support : Bool) : Except Error State := do
  let s := { s with voted := Function.update s.voted tokenId true }
  if support then
    let yesVotes ← increment s.yesVotes
    pure { s with yesVotes }
  else
    let noVotes ← increment s.noVotes
    pure { s with noVotes }

variable {nft : Erc721 ProofOfHumanity.Error} {base : Ownable}

-- The verifier is called by the ballot.
def toVerifier (s : State) (env : Env) : Env :=
  { env with this := s.predicateVerifier, sender := env.this }

-- The ballot and the verifier after a vote, from the two contracts that it calls.
def vote (s : State) (poh : ProofOfHumanity.State nft base)
    (predicateVerifier : PredicateVerifier.State base) (x : Imports) (env : Env)
    (tokenId : BitVec 256) (support : Bool) (att : PredicateAttestation)
    (signature : List Byte) : Except Error (State × PredicateVerifier.State base) := do
  let owner ← (poh.ownerOf tokenId).mapError .HumanityReverted
  revertIf (owner ≠ env.sender) .NotTokenHolder
  let valid ← (poh.isValid env tokenId).mapError .HumanityReverted
  revertIf (valid = false) .HumanNotValid
  revertIf (s.voted tokenId = true) .AlreadyVoted
  revertIf (att.predicate ≠ s.requiredPredicate) .WrongPredicate
  revertIf (att.context ≠ s.context) .WrongContext
  let (predicateVerifier, ok) ← (predicateVerifier.consume x (s.toVerifier env) att signature
    env.sender).mapError .VerifierReverted
  revertIf (ok = false) .PredicateNotSatisfied
  let s ← s.count tokenId support
  pure (s, predicateVerifier)

end State

section
variable {nft : Erc721 ProofOfHumanity.Error} {base : Ownable} {s s' : State}
  {poh : ProofOfHumanity.State nft base} {p p' : PredicateVerifier.State base} {x : Imports}
  {env : Env} {tokenId : BitVec 256} {support : Bool} {att : PredicateAttestation}
  {signature : List Byte}

theorem increment_eq_ok {n m : BitVec 256} :
    increment n = .ok m → m.toNat = n.toNat + 1 := by
  intro h
  simp only [increment, bind_eq_ok, revertIf_eq_ok, exists_const, pure_eq_ok] at h
  obtain ⟨hbounded, rfl⟩ := h
  have hlt := n.isLt
  have hne : n.toNat ≠ 2 ^ 256 - 1 := by
    intro heq
    exact hbounded (BitVec.eq_of_toNat_eq (by simpa using heq))
  have hone : (1 : BitVec 256).toNat = 1 := rfl
  rw [BitVec.toNat_add]
  omega

-- A count marks the token and raises one of the counters.
structure Counts (s : State) (tokenId : BitVec 256) (support : Bool) (s' : State) : Prop where
  poh : s'.poh = s.poh
  predicateVerifier : s'.predicateVerifier = s.predicateVerifier
  requiredPredicate : s'.requiredPredicate = s.requiredPredicate
  context : s'.context = s.context
  voted : s'.voted = Function.update s.voted tokenId true
  yesVotes : s'.yesVotes.toNat = s.yesVotes.toNat + support.toNat
  noVotes : s'.noVotes.toNat = s.noVotes.toNat + (!support).toNat

theorem count_spec (h : s.count tokenId support = .ok s') : Counts s tokenId support s' := by
  cases support with
  | true =>
    simp only [State.count, if_true, bind_eq_ok, pure_eq_ok] at h
    obtain ⟨n, hn, rfl⟩ := h
    exact ⟨rfl, rfl, rfl, rfl, rfl, increment_eq_ok hn, rfl⟩
  | false =>
    simp only [State.count, Bool.false_eq_true, if_false, bind_eq_ok, pure_eq_ok] at h
    obtain ⟨n, hn, rfl⟩ := h
    exact ⟨rfl, rfl, rfl, rfl, rfl, rfl, increment_eq_ok hn⟩

-- What a vote that goes through has checked, and what it changes.
structure Votes (s : State) (poh : ProofOfHumanity.State nft base)
    (p : PredicateVerifier.State base) (x : Imports) (env : Env) (tokenId : BitVec 256)
    (support : Bool) (att : PredicateAttestation) (signature : List Byte) (s' : State)
    (p' : PredicateVerifier.State base) : Prop where
  holder : poh.holder tokenId = env.sender
  minted : poh.holder tokenId ≠ 0
  first : s.voted tokenId = false
  predicate : att.predicate = s.requiredPredicate
  context : att.context = s.context
  result : att.result = true
  consumer : att.consumer = env.this
  subject : att.subject = env.sender
  signer : x.recover (x.hashTypedDataV4 s.predicateVerifier env.chainId
    (PredicateVerifier.structHash x.keccak256 att)) signature = some p.issuer
  unspent : p.consumed (PredicateVerifier.replayKey x.keccak256 att) = false
  spent : p' = p.spend (PredicateVerifier.replayKey x.keccak256 att)
  counts : Counts s tokenId support s'

theorem validate_eq_ok {consumer presenter : Address}
    (h : p.validate x env att signature consumer presenter = .ok ()) :
    att.consumer = consumer ∧ att.subject = presenter ∧
      x.recover (x.hashTypedDataV4 env.this env.chainId
        (PredicateVerifier.structHash x.keccak256 att)) signature = some p.issuer := by
  simp only [PredicateVerifier.State.validate, bind_eq_ok, revertIf_eq_ok, exists_const,
    PredicateVerifier.State.bubble_eq_ok, not_not] at h
  obtain ⟨hconsumer, hsubject, -, signer, hsigner, rfl⟩ := h
  exact ⟨hconsumer, hsubject, hsigner⟩

theorem vote_spec (h : s.vote poh p x env tokenId support att signature = .ok (s', p')) :
    Votes s poh p x env tokenId support att signature s' p' := by
  simp only [State.vote, bind_eq_ok, revertIf_eq_ok, exists_const, mapError_eq_ok, pure_eq_ok,
    Prod.exists, Prod.mk.injEq, not_not, Bool.not_eq_true, Bool.not_eq_false,
    ProofOfHumanity.ownerOf_eq_ok] at h
  obtain ⟨owner, ⟨hholder, hminted⟩, rfl, valid, -, -, hfirst, hpredicate, hcontext, p₁, ok,
    hconsume, hok, s₁, hcount, rfl, rfl⟩ := h
  obtain ⟨hcheck, hunspent, hspent⟩ := PredicateVerifier.State.consume_eq_ok.mp hconsume
  obtain ⟨hvalidate, rfl⟩ := PredicateVerifier.State.check_eq_ok.mp hcheck
  obtain ⟨hconsumer, hsubject, hsigner⟩ := validate_eq_ok hvalidate
  rw [← hholder] at hminted
  exact ⟨hholder, hminted, hfirst, hpredicate, hcontext, hok, hconsumer, hsubject, hsigner,
    hunspent, hspent, count_spec hcount⟩

end

end Ubi2.Contracts.SybilResistantVote
