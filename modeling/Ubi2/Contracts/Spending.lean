import Ubi2.Contracts.ZkIdentityPredicateProver
import Ubi2.Lib.Run

namespace Ubi2.Contracts.PredicateVerifier

open Ubi2.Lib Ubi2.Lib.Evm Ubi2.Lib.Encode Ubi2.Lib.Except Ubi2.Lib.Abi ZkIdentityEncoding

variable {base : Ownable} {s s' : State base} {x : Imports} {provers : Address → Prover}
  {env : Env}

-- What a consuming call spends.
inductive Spend where
  | attestation (subject consumer : Address) (context : Bytes32) (nonce : BitVec 256)
  | presentation (consumer : Address) (replayIdentifier : Bytes32)
deriving DecidableEq, Repr

namespace Spend

def preimage (keccak256 : Keccak256) : Spend → List Byte
  | .attestation subject consumer context nonce =>
    encodeWords [subject.setWidth 256, consumer.setWidth 256, context, nonce]
  | .presentation consumer replayIdentifier =>
    encodeWords [PROOF_REPLAY_DOMAIN keccak256, consumer.setWidth 256, replayIdentifier]

def key (keccak256 : Keccak256) (y : Spend) : Bytes32 :=
  keccak256 (y.preimage keccak256)

theorem replayKey_eq (keccak256 : Keccak256) (att : PredicateAttestation) :
    replayKey keccak256 att =
      (Spend.attestation att.subject att.consumer att.context att.nonce).key keccak256 := rfl

theorem proofReplayKey_eq (keccak256 : Keccak256) (consumer : Address) (id : Bytes32) :
    proofReplayKey keccak256 consumer id = (Spend.presentation consumer id).key keccak256 := rfl

-- The two kinds have different numbers of words.
theorem preimage_injective (keccak256 : Keccak256) :
    Function.Injective (Spend.preimage keccak256) := by
  intro y z h
  cases y with
  | attestation subject consumer context nonce =>
    cases z with
    | attestation subject' consumer' context' nonce' =>
      have hwords := encodeWords_injective h
      simp only [List.cons.injEq, and_true] at hwords
      obtain ⟨hsubject, hconsumer, rfl, rfl⟩ := hwords
      rw [widen_inj (by decide) hsubject, widen_inj (by decide) hconsumer]
    | presentation consumer' id' =>
      have hlength := congrArg List.length (encodeWords_injective h)
      cases hlength
  | presentation consumer id =>
    cases z with
    | attestation subject' consumer' context' nonce' =>
      have hlength := congrArg List.length (encodeWords_injective h)
      cases hlength
    | presentation consumer' id' =>
      have hwords := encodeWords_injective h
      simp only [List.cons.injEq, and_true, true_and] at hwords
      obtain ⟨hconsumer, rfl⟩ := hwords
      rw [widen_inj (by decide) hconsumer]

end Spend

namespace State

-- The state with one more key spent.
def spend (s : State base) (key : Bytes32) : State base :=
  { s with consumed := Function.update s.consumed key true }

theorem check_eq_ok {att : PredicateAttestation} {signature : List Byte}
    {presenter consumer : Address} {r : Bool} :
    s.check x env att signature presenter consumer = .ok r ↔
      s.validate x env att signature consumer presenter = .ok () ∧ r = att.result := by
  simp only [check, bind_eq_ok, pure_eq_ok, eq_comm (a := r)]
  constructor
  · rintro ⟨u, hu, hr⟩
    exact ⟨hu, hr⟩
  · rintro ⟨hu, hr⟩
    exact ⟨(), hu, hr⟩

theorem consume_eq_ok {att : PredicateAttestation} {signature : List Byte}
    {presenter : Address} {r : Bool} :
    s.consume x env att signature presenter = .ok (s', r) ↔
      s.check x env att signature presenter env.sender = .ok r ∧
        s.consumed (replayKey x.keccak256 att) = false ∧
        s' = s.spend (replayKey x.keccak256 att) := by
  rw [check_eq_ok]
  simp only [consume, bind_eq_ok, revertIf_eq_ok, exists_const, pure_eq_ok, Bool.not_eq_true,
    Prod.mk.injEq]
  constructor
  · rintro ⟨u, hu, hfresh, rfl, rfl⟩
    exact ⟨⟨hu, rfl⟩, hfresh, rfl⟩
  · rintro ⟨⟨hu, rfl⟩, hfresh, rfl⟩
    exact ⟨(), hu, hfresh, rfl, rfl⟩

theorem checkProof_eq_ok {proof : List Byte} {signals : List (BitVec 256)}
    {context : Calldata} {predicate : Bytes32} {presenter : Address} {r : Bool} :
    s.checkProof provers env proof signals context predicate presenter = .ok r ↔
      ∃ subject, s.validateProof provers env proof signals context predicate presenter
        env.sender = .ok (subject, r) := by
  simp only [checkProof, bind_eq_ok, pure_eq_ok, Prod.exists]
  constructor
  · rintro ⟨subject, r', h, rfl⟩
    exact ⟨subject, h⟩
  · rintro ⟨subject, h⟩
    exact ⟨subject, r, h, rfl⟩

theorem checkProofFor_eq_ok {proof : List Byte} {signals : List (BitVec 256)}
    {context : Calldata} {predicate : Bytes32} {presenter consumer : Address} {r : Bool} :
    s.checkProofFor provers env proof signals context predicate presenter consumer = .ok r ↔
      consumer ≠ 0 ∧ ∃ subject, s.validateProof provers env proof signals context predicate
        presenter consumer = .ok (subject, r) := by
  simp only [checkProofFor, bind_eq_ok, revertIf_eq_ok, exists_const, pure_eq_ok, Prod.exists]
  constructor
  · rintro ⟨hconsumer, subject, r', h, rfl⟩
    exact ⟨hconsumer, subject, h⟩
  · rintro ⟨hconsumer, subject, h⟩
    exact ⟨hconsumer, subject, r, h, rfl⟩

theorem bubble_eq_ok {α : Type} {e : Error} {o : Option α} {a : α} :
    bubble e o = .ok a ↔ o = some a := by
  cases o <;> simp [bubble]

theorem replayIdentifier_eq_ok {signals : List (BitVec 256)} {id : Bytes32} :
    s.replayIdentifier provers env signals = .ok id ↔
      (provers s.prover).proofReplayIdentifier (s.toProver env) signals = some id ∧
        id ≠ 0 := by
  simp only [replayIdentifier, bind_eq_ok, bubble_eq_ok, revertIf_eq_ok, exists_const,
    pure_eq_ok]
  constructor
  · rintro ⟨id', hid, hne, rfl⟩
    exact ⟨hid, hne⟩
  · rintro ⟨hid, hne⟩
    exact ⟨id, hid, hne, rfl⟩

theorem consumeWithProof_eq_ok {proof : List Byte} {signals : List (BitVec 256)}
    {context : Calldata} {predicate : Bytes32} {presenter : Address} {r : Bool} :
    s.consumeWithProof x provers env proof signals context predicate presenter = .ok (s', r) ↔
      (∃ subject, s.validateProof provers env proof signals context predicate presenter
        env.sender = .ok (subject, r)) ∧
      ∃ id, s.replayIdentifier provers env signals = .ok id ∧
        s.consumed (proofReplayKey x.keccak256 env.sender id) = false ∧
        s' = s.spend (proofReplayKey x.keccak256 env.sender id) := by
  simp only [consumeWithProof, bind_eq_ok, revertIf_eq_ok, exists_const, pure_eq_ok,
    Bool.not_eq_true, Prod.exists, Prod.mk.injEq]
  constructor
  · rintro ⟨subject, r', h, id, hid, hfresh, rfl, rfl⟩
    exact ⟨⟨subject, h⟩, id, hid, hfresh, rfl⟩
  · rintro ⟨⟨subject, h⟩, id, hid, hfresh, rfl⟩
    exact ⟨subject, r, h, id, hid, hfresh, rfl, rfl⟩

end State

-- What a call that goes through spends.
def State.spend? (s : State base) (i : Input base) : Option Spend :=
  match i.call with
  | .consume att _ _ => some (.attestation att.subject att.consumer att.context att.nonce)
  | .consumeWithProof _ publicSignals _ _ _ =>
    (s.replayIdentifier i.provers i.tx.toEnv publicSignals).toOption.map
      (.presentation i.tx.sender)
  | _ => none

-- The verifier with what has been spent, in its order.
structure World (base : Ownable) where
  state : State base
  spent : List Spend

-- A call that reverts leaves everything as it was.
def World.call (x : Imports) (w : World base) (i : Input base) : World base :=
  match w.state.execute x i with
  | .ok (state, _) => ⟨state, w.spent ++ (w.state.spend? i).toList⟩
  | .error _ => w

theorem World.spent_prefix_call (w : World base) (x : Imports) (i : Input base) :
    w.spent <+: (w.call x i).spent := by
  rw [World.call]
  split
  · exact List.prefix_append _ _
  · exact List.prefix_rfl

-- The verifier after a sequence of calls from any senders, at any times.
def run (x : Imports) (ownership : base.State) (issuer : Address) (calls : List (Input base)) :
    World base :=
  calls.foldl (World.call x) ⟨initial ownership issuer, []⟩

-- A call spends one unspent key, or leaves the keys alone.
theorem State.execute_spends {i : Input base} {r : Option Bool}
    (h : s.execute x i = .ok (s', r)) :
    (s.spend? i = none ∧ s'.consumed = s.consumed) ∨
      ∃ y, s.spend? i = some y ∧ s.consumed (y.key x.keccak256) = false ∧
        s'.consumed = Function.update s.consumed (y.key x.keccak256) true := by
  obtain ⟨tx, provers, call⟩ := i
  cases call with
  | ownership call =>
    obtain ⟨s₁, hs, heq⟩ := map_eq_ok.mp h
    cases heq
    simp only [ownableCall] at hs
    split at hs
    · cases hs
      exact .inl ⟨rfl, rfl⟩
    · cases hs
  | setIssuer newIssuer =>
    obtain ⟨s₁, hs, heq⟩ := map_eq_ok.mp h
    cases heq
    simp only [setIssuer, bind_eq_ok, pure_eq_ok] at hs
    obtain ⟨-, -, -, -, rfl⟩ := hs
    exact .inl ⟨rfl, rfl⟩
  | setPredicateProver newProver =>
    obtain ⟨s₁, hs, heq⟩ := map_eq_ok.mp h
    cases heq
    simp only [setPredicateProver, bind_eq_ok, pure_eq_ok] at hs
    obtain ⟨-, -, rfl⟩ := hs
    exact .inl ⟨rfl, rfl⟩
  | consume att signature presenter =>
    obtain ⟨⟨s₁, bit⟩, hs, heq⟩ := map_eq_ok.mp h
    cases heq
    obtain ⟨-, hfresh, rfl⟩ := consume_eq_ok.mp hs
    exact .inr ⟨_, rfl, hfresh, rfl⟩
  | consumeWithProof proof signals context predicate presenter =>
    obtain ⟨⟨s₁, bit⟩, hs, heq⟩ := map_eq_ok.mp h
    cases heq
    obtain ⟨-, id, hid, hfresh, rfl⟩ := consumeWithProof_eq_ok.mp hs
    refine .inr ⟨.presentation tx.sender id, ?_, hfresh, rfl⟩
    simp [spend?, hid, Except.toOption]
  | check _ _ _ _ =>
    obtain ⟨_, -, heq⟩ := map_eq_ok.mp h
    cases heq
    exact .inl ⟨rfl, rfl⟩
  | checkProof _ _ _ _ _ =>
    obtain ⟨_, -, heq⟩ := map_eq_ok.mp h
    cases heq
    exact .inl ⟨rfl, rfl⟩
  | checkProofFor _ _ _ _ _ _ =>
    obtain ⟨_, -, heq⟩ := map_eq_ok.mp h
    cases heq
    exact .inl ⟨rfl, rfl⟩

-- The used keys are the keys of what has been spent, and no key has been spent twice.
structure Mirrors (x : Imports) (w : World base) : Prop where
  consumed : ∀ k, w.state.consumed k = true ↔ k ∈ w.spent.map (Spend.key x.keccak256)
  nodup : (w.spent.map (Spend.key x.keccak256)).Nodup

namespace Mirrors

theorem spend {w : World base} (h : Mirrors x w) {y : Spend}
    (hfresh : w.state.consumed (y.key x.keccak256) = false)
    (hupdate : s'.consumed = Function.update w.state.consumed (y.key x.keccak256) true) :
    Mirrors x ⟨s', w.spent ++ [y]⟩ := by
  have hnew : y.key x.keccak256 ∉ w.spent.map (Spend.key x.keccak256) := by
    rw [← h.consumed, hfresh]
    decide
  constructor
  · intro k
    simp only [hupdate, Function.update_apply, List.map_append, List.mem_append,
      ← h.consumed k]
    split <;> simp_all
  · simp only [List.map_append, List.map_cons, List.map_nil]
    exact List.nodup_append'.mpr ⟨h.nodup, List.nodup_singleton _, by simpa using hnew⟩

theorem call {w : World base} (h : Mirrors x w) (i : Input base) : Mirrors x (w.call x i) := by
  rw [World.call]
  split
  · next s' r hexecute =>
    rcases State.execute_spends hexecute with ⟨hnone, hsame⟩ | ⟨y, hy, hfresh, hupdate⟩
    · rw [hnone, Option.toList_none, List.append_nil]
      exact ⟨by rw [hsame]; exact h.consumed, h.nodup⟩
    · rw [hy, Option.toList_some]
      exact h.spend hfresh hupdate
  · exact h

theorem initial (x : Imports) (ownership : base.State) (issuer : Address) :
    Mirrors x ⟨initial ownership issuer, []⟩ :=
  ⟨fun _ => by simp [PredicateVerifier.initial], List.nodup_nil⟩

theorem run (x : Imports) (ownership : base.State) (issuer : Address)
    (calls : List (Input base)) : Mirrors x (run x ownership issuer calls) := by
  exact Run.foldl_invariant (fun w i h => h.call i) calls (initial x ownership issuer)

-- With no collision at hand, a spend is blocked by itself only.
theorem blocked_iff {w : World base} (h : Mirrors x w) {y : Spend}
    (hcollision : ∀ z ∈ w.spent, z.key x.keccak256 = y.key x.keccak256 →
      z.preimage x.keccak256 = y.preimage x.keccak256) :
    w.state.consumed (y.key x.keccak256) = true ↔ y ∈ w.spent := by
  rw [h.consumed, List.mem_map]
  constructor
  · rintro ⟨z, hz, hkey⟩
    rwa [← Spend.preimage_injective _ (hcollision z hz hkey)]
  · intro hy
    exact ⟨y, hy, rfl⟩

end Mirrors

end Ubi2.Contracts.PredicateVerifier

namespace Ubi2.Contracts.ZkIdentityPredicateProver

open Ubi2.Lib.Evm Ubi2.Lib.Encode Ubi2.Lib.Except ZkIdentityEncoding

-- A vector that decodes has a nullifier.
theorem scopedNullifier_ne_zero {signals : List (BitVec 256)} {decoded : PublicSignals}
    (h : decodePublicSignals signals = .ok decoded) : decoded.scopedNullifier ≠ 0 := by
  simp only [decodePublicSignals, bind_eq_ok, revertIf_eq_ok, exists_const, pure_eq_ok] at h
  obtain ⟨-, -, -, -, _, -, _, -, _, -, _, -, _, -, _, -, hne, -, -, -, -, rfl⟩ := h
  exact hne

theorem proofReplayIdentifier_of_decoded {base : Ownable} {p : State base}
    {keccak256 : Keccak256} {env : Env} {signals : List (BitVec 256)} {decoded : PublicSignals}
    (h : decodePublicSignals signals = .ok decoded) :
    (p.asProver keccak256).proofReplayIdentifier env signals = some decoded.scopedNullifier := by
  refine toOption_eq_some.mpr ?_
  rw [proofReplayIdentifier, bind_eq_ok]
  exact ⟨decoded, mapError_eq_ok.mpr h, rfl⟩

theorem replayIdentifier_of_verified {base : Ownable} {p : State base} {keccak256 : Keccak256}
    {env env' : Env} {proof context : List Byte} {signals : List (BitVec 256)}
    {claims : PredicateVerifier.ProofClaims}
    (h : (p.asProver keccak256).verifyPredicate env proof signals context = some claims) :
    ∃ id, (p.asProver keccak256).proofReplayIdentifier env' signals = some id ∧ id ≠ 0 := by
  have hok := toOption_eq_some.mp h
  simp only [State.verifyPredicate, bind_eq_ok, mapError_eq_ok] at hok
  obtain ⟨-, -, decoded, hdecoded, -⟩ := hok
  exact ⟨decoded.scopedNullifier, proofReplayIdentifier_of_decoded hdecoded,
    scopedNullifier_ne_zero hdecoded⟩

end Ubi2.Contracts.ZkIdentityPredicateProver

namespace Ubi2.Contracts.PredicateVerifier

open Ubi2.Lib.Evm Ubi2.Lib.Encode Ubi2.Lib.Except Ubi2.Lib.Abi ZkIdentityEncoding

-- The calls that only look.
def Call.isView {base : Ownable} : Call base → Bool
  | .check .. | .checkProof .. | .checkProofFor .. => true
  | _ => false

-- What the views say, in one state and to any viewer, about the calls that spend.
structure Predicts {base : Ownable} (x : Imports) (s : State base) : Prop where
  consume : ∀ (tx : Transaction) (viewer : Address) att signature presenter s' r,
    s.consume x tx.toEnv att signature presenter = .ok (s', r) ↔
      s.check x (tx.withSender viewer) att signature presenter tx.sender = .ok r ∧
        s.consumed (replayKey x.keccak256 att) = false ∧
        s' = s.spend (replayKey x.keccak256 att)
  consumeWithProof : ∀ (tx : Transaction) (viewer : Address) (provers : Address → Prover) proof
      signals context predicate presenter s' r,
    s.consumeWithProof x provers tx.toEnv proof signals context predicate presenter =
        .ok (s', r) ↔
      s.checkProofFor provers (tx.withSender viewer) proof signals context predicate presenter
        tx.sender = .ok r ∧
      ∃ id, (provers s.prover).proofReplayIdentifier (s.toProver tx.toEnv) signals = some id ∧
        id ≠ 0 ∧ s.consumed (proofReplayKey x.keccak256 tx.sender id) = false ∧
        s' = s.spend (proofReplayKey x.keccak256 tx.sender id)
  views : ∀ (i : Input base) s' r, i.call.isView = true → s.execute x i = .ok (s', r) →
    s' = s ∧ s.spend? i = none

-- What a run has spent, and what that blocks when the hash has no collision at hand.
structure SpentOnce {base : Ownable} (x : Imports) (w : World base) : Prop where
  once : w.spent.Nodup
  attestations : ∀ att : PredicateAttestation,
    let y := Spend.attestation att.subject att.consumer att.context att.nonce
    (∀ z ∈ w.spent, z.key x.keccak256 = y.key x.keccak256 →
      z.preimage x.keccak256 = y.preimage x.keccak256) →
    (w.state.consumed (replayKey x.keccak256 att) = true ↔ y ∈ w.spent)
  presentations : ∀ (consumer : Address) (id : Bytes32),
    let y := Spend.presentation consumer id
    (∀ z ∈ w.spent, z.key x.keccak256 = y.key x.keccak256 →
      z.preimage x.keccak256 = y.preimage x.keccak256) →
    (w.state.consumed (proofReplayKey x.keccak256 consumer id) = true ↔ y ∈ w.spent)

theorem State.predicts {base : Ownable} (x : Imports) (s : State base) : Predicts x s := by
  constructor
  case consume =>
    intro tx viewer att signature presenter s' r
    exact consume_eq_ok
  case consumeWithProof =>
    intro tx viewer provers proof signals context predicate presenter s' r
    have hviewer : s.checkProofFor provers (tx.withSender viewer) proof signals context predicate
        presenter tx.sender =
      s.checkProofFor provers tx.toEnv proof signals context predicate presenter tx.sender := rfl
    rw [hviewer]
    simp only [consumeWithProof_eq_ok, checkProofFor_eq_ok, replayIdentifier_eq_ok, and_assoc]
    exact (and_iff_right tx.sender_ne_zero).symm
  case views =>
    rintro ⟨tx, provers, call⟩ s' r hview hexecute
    cases call with
    | check _ _ _ _ =>
      obtain ⟨_, -, heq⟩ := map_eq_ok.mp hexecute
      cases heq
      exact ⟨rfl, rfl⟩
    | checkProof _ _ _ _ _ =>
      obtain ⟨_, -, heq⟩ := map_eq_ok.mp hexecute
      cases heq
      exact ⟨rfl, rfl⟩
    | checkProofFor _ _ _ _ _ _ =>
      obtain ⟨_, -, heq⟩ := map_eq_ok.mp hexecute
      cases heq
      exact ⟨rfl, rfl⟩
    | _ => cases hview

theorem Mirrors.spentOnce {base : Ownable} {x : Imports} {w : World base} (h : Mirrors x w) :
    SpentOnce x w where
  once := h.nodup.of_map _
  attestations att hcollision := by
    rw [Spend.replayKey_eq]
    exact h.blocked_iff hcollision
  presentations consumer id hcollision := by
    rw [Spend.proofReplayKey_eq]
    exact h.blocked_iff hcollision

theorem check_predicts_consume {base : Ownable} (x : Imports) :
    (∀ s : State base, Predicts x s) ∧
    (∀ (p : ZkIdentityPredicateProver.State base) env env' proof signals context claims,
      (p.asProver x.keccak256).verifyPredicate env proof signals context = some claims →
      ∃ id, (p.asProver x.keccak256).proofReplayIdentifier env' signals = some id ∧ id ≠ 0) ∧
    ∀ (ownership : base.State) issuer calls, SpentOnce x (run x ownership issuer calls) :=
  ⟨fun s => s.predicts x,
    fun _ _ _ _ _ _ _ h => ZkIdentityPredicateProver.replayIdentifier_of_verified h,
    fun ownership issuer calls => (Mirrors.run x ownership issuer calls).spentOnce⟩

end Ubi2.Contracts.PredicateVerifier
