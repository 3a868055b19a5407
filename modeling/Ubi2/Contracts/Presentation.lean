import Ubi2.Contracts.Spending

namespace Ubi2.Contracts.ZkIdentityPredicateProver

open Ubi2.Lib Ubi2.Lib.Evm Ubi2.Lib.Encode Ubi2.Lib.Except Ubi2.Lib.Abi ZkIdentityEncoding
  PredicateVerifier

variable {base : Ownable} {p : State base} {keccak256 : Keccak256} {env : Env}

-- The verifier's envelope is read back as it was written.
theorem decodeContext_encode (consumer : Address) (context : Calldata) :
    decodeContext (encodeWordBytes (consumer.setWidth 256) context.1) =
      .ok (consumer, context.1) := by
  have hfirst : wordAt (encodeWordBytes (consumer.setWidth 256) context.1) 0 =
      some (consumer.setWidth 256) := wordAt_encodeWords (k := 0) (by simp)
  have hsecond : wordAt (encodeWordBytes (consumer.setWidth 256) context.1) 32 = some 64 :=
    wordAt_encodeWords (k := 1) (by simp)
  have hnarrow : narrow 160 (consumer.setWidth 256) = some consumer :=
    narrow_setWidth (by decide) consumer
  simp only [decodeContext, hfirst, hsecond, hnarrow, bytesAt_encodeWordBytes,
    Option.bind_eq_bind, Option.bind_some, Option.pure_def]

-- Three words of application context are told by what they decode to.
theorem decodeApplicationContext_eq_ok {b : List Byte} {actionContext challenge : Bytes32}
    {mode : BitVec 8} (hlength : b.length = 3 * 32)
    (h : decodeApplicationContext b = .ok (actionContext, challenge, mode)) :
    b = encodeWords [actionContext, challenge, mode.setWidth 256] := by
  rw [decodeApplicationContext] at h
  split at h
  · next decoded hdecoded =>
    cases h
    simp only [Option.bind_eq_bind, Option.bind_eq_some_iff, Option.pure_def,
      Option.some.injEq, Prod.mk.injEq] at hdecoded
    obtain ⟨w₀, h₀, w₁, h₁, w₂, h₂, m, hm, rfl, rfl, rfl⟩ := hdecoded
    have hfirst := wordAt_eq_some h₀
    have hsecond := wordAt_eq_some h₁
    have hthird := wordAt_eq_some h₂
    have hlast : (b.drop 64).take 32 = b.drop 64 := by
      rw [List.take_of_length_le]
      rw [List.length_drop]
      omega
    have hsplit : b = b.take 32 ++ ((b.drop 32).take 32 ++ b.drop 64) := by
      conv_lhs => rw [← List.take_append_drop 32 b, ← List.take_append_drop 32 (b.drop 32),
        List.drop_drop]
    rw [List.drop_zero] at hfirst
    rw [hsplit, hfirst, hsecond, ← hlast, hthird, narrow_eq_some (by decide) hm]
    simp [encodeWords]
  · cases h

-- What the adapter has checked when it lets a presentation pass.
structure Verified (p : State base) (keccak256 : Keccak256) (env : Env)
    (signals : List (BitVec 256)) (consumer : Address) (applicationContext : List Byte)
    (decoded : PublicSignals) (actionContext challenge : Bytes32) (mode : BitVec 8) : Prop where
  decodes : decodePublicSignals signals = .ok decoded
  sender : env.sender = p.predicateVerifier
  status : p.validateDynamicStatus env decoded.policyHash decoded.activeRoot
    decoded.statusEpoch = .ok ()
  decodesContext : decodeApplicationContext applicationContext =
    .ok (actionContext, challenge, mode)
  words : applicationContext = encodeWords [actionContext, challenge, mode.setWidth 256]
  binding : decoded.presentationBindingHash = keccak256
    ((p.presentationBinding env decoded consumer actionContext challenge).preimage keccak256)
  scope : decoded.nullifierScopeHash = keccak256
    ((p.nullifierScope env decoded consumer actionContext mode).preimage keccak256)

theorem verified_of_ok {proof : List Byte} {signals : List (BitVec 256)} {consumer : Address}
    {context : Calldata} {claims : ProofClaims}
    (h : p.verifyPredicate keccak256 env proof signals
      (encodeWordBytes (consumer.setWidth 256) context.1) = .ok claims) :
    ∃ decoded actionContext challenge mode,
      Verified p keccak256 env signals consumer context.1 decoded actionContext challenge mode ∧
        claims = ⟨decoded.subject, decoded.policyHash, decoded.result,
          decoded.credentialEpoch⟩ := by
  simp only [State.verifyPredicate, bind_eq_ok, revertIf_eq_ok, exists_const, mapError_eq_ok,
    pure_eq_ok, not_not] at h
  obtain ⟨hsender, decoded, hdecoded, _, hstatus, _, hbindings, _, -, _, -, rfl⟩ := h
  simp only [State.validateContextBindings, decodeContext_encode, bind_eq_ok, revertIf_eq_ok,
    exists_const, mapError_eq_ok, Prod.exists, Except.ok.injEq, Prod.mk.injEq, not_not,
    not_or] at hbindings
  obtain ⟨consumer', context', ⟨rfl, rfl⟩, ⟨-, hlength⟩, actionContext, challenge, mode,
    happlication, -, binding, hbinding, hbindingEq, scope, hscope, hscopeEq⟩ := hbindings
  simp only [presentationBindingHash, bind_eq_ok, revertIf_eq_ok, exists_const,
    pure_eq_ok] at hbinding
  simp only [nullifierScopeHash, bind_eq_ok, revertIf_eq_ok, exists_const, pure_eq_ok] at hscope
  refine ⟨decoded, actionContext, challenge, mode, ?_, rfl⟩
  constructor
  case decodes => exact hdecoded
  case sender => exact hsender
  case status => exact hstatus
  case decodesContext => exact happlication
  case words => exact decodeApplicationContext_eq_ok hlength happlication
  case binding => rw [hbindingEq, ← hbinding.2]
  case scope => rw [hscopeEq, ← hscope.2]

-- A registered policy is active, and its root and its publication are those presented.
theorem validateDynamicStatus_registered {policyHash activeRoot : Bytes32}
    {statusEpoch : BitVec 32} {policy : ZkIdentityVersionRegistry.State.PolicyState}
    (hpolicy : p.registry.dynamicStatusPolicyState policyHash = policy)
    (h : p.validateDynamicStatus env policyHash activeRoot statusEpoch = .ok ())
    (hregistered : policy.registered = true) :
    policy.active = true ∧ activeRoot = policy.statusRoot ∧ statusEpoch = policy.publishedAt ∧
      policy.publishedAt.toNat ≤ env.timestamp.toNat ∧
      env.timestamp.toNat - policy.publishedAt.toNat ≤ policy.maximumAgeSeconds.toNat := by
  simp only [State.validateDynamicStatus, hpolicy] at h
  rw [if_neg (by simp [hregistered])] at h
  simp only [bind_eq_ok, revertIf_eq_ok, exists_const, not_or, not_not, Bool.not_eq_false,
    not_lt] at h
  obtain ⟨hactive, hroot, ⟨-, rfl⟩, hpast, hage⟩ := h
  have hvalue := toNat_widen (by decide) policy.publishedAt
  have hbefore : policy.publishedAt.toNat ≤ env.timestamp.toNat := by
    simpa only [BitVec.le_def, hvalue] using hpast
  have hdifference := Word.toNat_sub_of_le hpast
  rw [hvalue] at hdifference
  have hwithin : env.timestamp.toNat - policy.publishedAt.toNat ≤
      policy.maximumAgeSeconds.toNat := by
    simpa only [BitVec.le_def, hdifference, toNat_widen (by decide : 32 ≤ 256)] using hage
  exact ⟨hactive, hroot, rfl, hbefore, hwithin⟩

-- What the adapter hashes for a presentation: the binding and the scope.
def hashed (p : State base) (keccak256 : Keccak256) (env : Env) (signals : List (BitVec 256))
    (consumer : Address) (applicationContext : List Byte) : List (List Byte) :=
  match decodePublicSignals signals, decodeApplicationContext applicationContext with
  | .ok decoded, .ok (actionContext, challenge, mode) =>
    [(p.presentationBinding env decoded consumer actionContext challenge).preimage keccak256,
      (p.nullifierScope env decoded consumer actionContext mode).preimage keccak256]
  | _, _ => []

namespace Verified

variable {signals : List (BitVec 256)} {consumer : Address} {applicationContext : List Byte}
  {decoded : PublicSignals} {actionContext challenge : Bytes32} {mode : BitVec 8}

theorem hashed_eq (h : Verified p keccak256 env signals consumer applicationContext decoded
    actionContext challenge mode) :
    hashed p keccak256 env signals consumer applicationContext =
      [(p.presentationBinding env decoded consumer actionContext challenge).preimage keccak256,
        (p.nullifierScope env decoded consumer actionContext mode).preimage keccak256] := by
  simp only [hashed, h.decodes, h.decodesContext]

end Verified

end Ubi2.Contracts.ZkIdentityPredicateProver

namespace Ubi2.Contracts.PredicateVerifier

open Ubi2.Lib.Evm Ubi2.Lib.Encode Ubi2.Lib.Except Ubi2.Lib.Abi ZkIdentityEncoding

variable {base registryBase : Ownable}

-- A call of the proof path that goes through, as consumption or as a view.
def State.accepts (s : State base) (x : Imports) (provers : Address → Prover) (env : Env)
    (proof : List Byte) (signals : List (BitVec 256)) (context : Calldata)
    (predicate : Bytes32) (presenter consumer : Address) : Prop :=
  (consumer = env.sender ∧
    ((∃ r, s.consumeWithProof x provers env proof signals context predicate presenter = .ok r) ∨
      ∃ r, s.checkProof provers env proof signals context predicate presenter = .ok r)) ∨
  ∃ r, s.checkProofFor provers env proof signals context predicate presenter consumer = .ok r

theorem State.accepts.validated {s : State base} {x : Imports} {provers : Address → Prover}
    {env : Env} {proof : List Byte} {signals : List (BitVec 256)} {context : Calldata}
    {predicate : Bytes32} {presenter consumer : Address}
    (h : s.accepts x provers env proof signals context predicate presenter consumer) :
    ∃ r, s.validateProof provers env proof signals context predicate presenter consumer =
      .ok r := by
  rcases h with ⟨rfl, ⟨⟨s', r⟩, h⟩ | ⟨r, h⟩⟩ | ⟨r, h⟩
  · obtain ⟨⟨subject, h⟩, -⟩ := consumeWithProof_eq_ok.mp h
    exact ⟨_, h⟩
  · obtain ⟨subject, h⟩ := checkProof_eq_ok.mp h
    exact ⟨_, h⟩
  · obtain ⟨-, subject, h⟩ := checkProofFor_eq_ok.mp h
    exact ⟨_, h⟩

-- A presentation that the verifier accepted while the adapter was its prover.
structure Accepted (x : Imports) (base registryBase : Ownable) where
  state : State base
  provers : Address → Prover
  adapter : ZkIdentityPredicateProver.State registryBase
  env : Env
  proof : List Byte
  signals : List (BitVec 256)
  context : Calldata
  predicate : Bytes32
  presenter : Address
  consumer : Address
  configured : provers state.prover = adapter.asProver x.keccak256
  accepted : state.accepts x provers env proof signals context predicate presenter consumer

namespace Accepted

variable {x : Imports}

def hashed (a : Accepted x base registryBase) : List (List Byte) :=
  ZkIdentityPredicateProver.hashed a.adapter x.keccak256 (a.state.toProver a.env) a.signals
    a.consumer a.context.1

-- What the signals of an accepted presentation are bound to.
def binding (a : Accepted x base registryBase) (epoch : BitVec 32)
    (actionContext challenge : Bytes32) : PresentationBinding where
  policyHash := a.predicate
  chainId := a.env.chainId
  verifier := a.env.this
  consumer := a.consumer
  subject := a.presenter
  context := actionContext
  challenge := challenge
  epoch := epoch

-- The scope that its nullifier belongs to.
def scope (a : Accepted x base registryBase) (actionContext : Bytes32) (mode : BitVec 8) :
    NullifierScope where
  mode := mode
  chainId := a.env.chainId
  verifier := a.env.this
  consumer := a.consumer
  context := actionContext
  policyHash := a.predicate

-- What an accepted presentation commits to.
structure Bound (a : Accepted x base registryBase) (decoded : PublicSignals)
    (actionContext challenge : Bytes32) (mode : BitVec 8) : Prop where
  decodes : decodePublicSignals a.signals = .ok decoded
  subject : decoded.subject = a.presenter
  policyHash : decoded.policyHash = a.predicate
  context : a.context.1 = encodeWords [actionContext, challenge, mode.setWidth 256]
  binding : decoded.presentationBindingHash = x.keccak256
    ((a.binding decoded.credentialEpoch actionContext challenge).preimage x.keccak256)
  scope : decoded.nullifierScopeHash = x.keccak256
    ((a.scope actionContext mode).preimage x.keccak256)
  replayIdentifier : a.state.replayIdentifier a.provers a.env a.signals =
    .ok decoded.scopedNullifier
  status : ∀ policy, a.adapter.registry.dynamicStatusPolicyState a.predicate = policy →
    policy.registered = true →
    policy.active = true ∧ decoded.activeRoot = policy.statusRoot ∧
      decoded.statusEpoch = policy.publishedAt ∧
      policy.publishedAt.toNat ≤ a.env.timestamp.toNat ∧
      a.env.timestamp.toNat - policy.publishedAt.toNat ≤ policy.maximumAgeSeconds.toNat
  hashed : a.hashed =
    [(a.binding decoded.credentialEpoch actionContext challenge).preimage x.keccak256,
      (a.scope actionContext mode).preimage x.keccak256]

theorem bound (a : Accepted x base registryBase) :
    ∃ decoded actionContext challenge mode, a.Bound decoded actionContext challenge mode := by
  obtain ⟨r, hvalid⟩ := a.accepted.validated
  simp only [State.validateProof, State.proofClaims, bind_eq_ok, revertIf_eq_ok, exists_const,
    State.bubble_eq_ok, pure_eq_ok, not_not] at hvalid
  obtain ⟨claims, ⟨-, hclaims⟩, hpredicate, hsubject, -, -⟩ := hvalid
  rw [a.configured] at hclaims
  obtain ⟨decoded, actionContext, challenge, mode, hverified, rfl⟩ :=
    ZkIdentityPredicateProver.verified_of_ok (toOption_eq_some.mp hclaims)
  simp only at hpredicate hsubject
  have hbinding : a.adapter.presentationBinding (a.state.toProver a.env) decoded a.consumer
      actionContext challenge = a.binding decoded.credentialEpoch actionContext challenge := by
    simp only [ZkIdentityPredicateProver.State.presentationBinding, Accepted.binding,
      ← hverified.sender, ← hpredicate, ← hsubject]
    rfl
  have hscope : a.adapter.nullifierScope (a.state.toProver a.env) decoded a.consumer
      actionContext mode = a.scope actionContext mode := by
    simp only [ZkIdentityPredicateProver.State.nullifierScope, Accepted.scope,
      ← hverified.sender, ← hpredicate]
    rfl
  refine ⟨decoded, actionContext, challenge, mode, ?_⟩
  constructor
  case decodes => exact hverified.decodes
  case subject => exact hsubject
  case policyHash => exact hpredicate
  case context => exact hverified.words
  case binding => rw [← hbinding, hverified.binding]
  case scope => rw [← hscope, hverified.scope]
  case replayIdentifier =>
    refine State.replayIdentifier_eq_ok.mpr ⟨?_,
      ZkIdentityPredicateProver.scopedNullifier_ne_zero hverified.decodes⟩
    rw [a.configured]
    exact ZkIdentityPredicateProver.proofReplayIdentifier_of_decoded hverified.decodes
  case status =>
    intro policy hpolicy hregistered
    exact ZkIdentityPredicateProver.validateDynamicStatus_registered
      (hpredicate ▸ hpolicy) hverified.status hregistered
  case hashed => rw [Accepted.hashed, hverified.hashed_eq, hbinding, hscope]

end Accepted

-- The hash tells these byte strings apart.
def CollisionFree (keccak256 : Keccak256) (hashed : List (List Byte)) : Prop :=
  ∀ y ∈ hashed, ∀ z ∈ hashed, keccak256 y = keccak256 z → y = z

-- One vector of signals serves one use only, and one nullifier scope one kind of use.
theorem presentations_bound {base registryBase : Ownable} (x : Imports) :
    (∀ a : Accepted x base registryBase, ∃ decoded actionContext challenge mode,
      a.Bound decoded actionContext challenge mode) ∧
    ∀ a b : Accepted x base registryBase, CollisionFree x.keccak256 (a.hashed ++ b.hashed) →
      (a.signals = b.signals → a.env.chainId = b.env.chainId ∧ a.env.this = b.env.this ∧
        a.consumer = b.consumer ∧ a.presenter = b.presenter ∧ a.predicate = b.predicate ∧
        a.context = b.context) ∧
      ∀ decoded decoded' actionContext actionContext' challenge challenge' mode mode',
        a.Bound decoded actionContext challenge mode →
        b.Bound decoded' actionContext' challenge' mode' →
        decoded.nullifierScopeHash = decoded'.nullifierScopeHash →
        a.consumer = b.consumer ∧ actionContext = actionContext' ∧ a.predicate = b.predicate ∧
          mode = mode' := by
  refine ⟨Accepted.bound, fun a b hfree => ?_⟩
  have hscopes : ∀ decoded decoded' actionContext actionContext' challenge challenge' mode mode',
      a.Bound decoded actionContext challenge mode →
      b.Bound decoded' actionContext' challenge' mode' →
      decoded.nullifierScopeHash = decoded'.nullifierScopeHash →
      a.consumer = b.consumer ∧ actionContext = actionContext' ∧ a.predicate = b.predicate ∧
        mode = mode' := by
    intro decoded decoded' actionContext actionContext' challenge challenge' mode mode' ha hb heq
    rw [ha.scope, hb.scope] at heq
    have hpre := hfree _ (by simp [ha.hashed]) _ (by simp [hb.hashed]) heq
    have hscope := NullifierScope.preimage_injective _ hpre
    simp only [Accepted.scope, NullifierScope.mk.injEq] at hscope
    obtain ⟨hmode, -, -, hconsumer, hcontext, hpredicate⟩ := hscope
    exact ⟨hconsumer, hcontext, hpredicate, hmode⟩
  refine ⟨fun hsignals => ?_, hscopes⟩
  obtain ⟨decoded, actionContext, challenge, mode, ha⟩ := a.bound
  obtain ⟨decoded', actionContext', challenge', mode', hb⟩ := b.bound
  obtain rfl : decoded = decoded' := by
    have hdecodes := ha.decodes
    rw [hsignals, hb.decodes] at hdecodes
    exact (Except.ok.inj hdecodes).symm
  have hhash := ha.binding.symm.trans hb.binding
  have hpre := hfree _ (by simp [ha.hashed]) _ (by simp [hb.hashed]) hhash
  have hbinding := PresentationBinding.preimage_injective _ hpre
  simp only [Accepted.binding, PresentationBinding.mk.injEq] at hbinding
  obtain ⟨hpredicate, hchain, hverifier, hconsumer, hpresenter, rfl, rfl, -⟩ := hbinding
  obtain ⟨-, -, -, rfl⟩ := hscopes _ _ _ _ _ _ _ _ ha hb rfl
  exact ⟨hchain, hverifier, hconsumer, hpresenter, hpredicate,
    Subtype.ext (ha.context.trans hb.context.symm)⟩

-- A presentation to run the model with: a contract without an owner, a small hash, and a
-- registered policy whose root was published ten seconds before.
def ownerless : Ownable where
  State := Unit
  Call := Unit
  owner _ := 0
  call _ _ _ := none

def sampleImports : Imports where
  keccak256 b := BitVec.ofNat 256 (b.foldl (fun n y => (31 * n + y.toNat + 1) % 2 ^ 120) 7)
  hashTypedDataV4 _ _ hash := hash
  recover _ _ := none

def sampleBinding : PresentationBinding := ⟨9, 1, 1, 2, 3, 4, 5, 1⟩

def sampleScope : NullifierScope := ⟨1, 1, 1, 2, 4, 9⟩

-- The six identifiers are below 2 ^ 128, so their high limbs are zero.
def sampleSignals (binding : PresentationBinding) : List (BitVec 256) :=
  [1, 0, 7, 0, 8, 0, 6, 0, 9,
    0, sampleImports.keccak256 (binding.preimage sampleImports.keccak256),
    0, sampleImports.keccak256 (sampleScope.preimage sampleImports.keccak256),
    11, 3, 1, 1, 7775990]

def sampleAdapter : ZkIdentityPredicateProver.State ownerless where
  predicateVerifier := 1
  registry :=
    { ZkIdentityVersionRegistry.new () with
      circuits := fun _ => ⟨12, 0, true⟩
      issuers := fun _ => ⟨true, true⟩
      statusRoots := fun _ _ => ⟨6, false⟩
      statusRootEpoch := fun _ _ => 1
      dynamicStatusPolicies := fun _ => ⟨1, 1, 6, 7775990, 60, true, true⟩ }
  groth16 _ _ _ := some true

def sample : Accepted sampleImports ownerless ownerless where
  state := { initial () 3 with prover := 13 }
  provers _ := sampleAdapter.asProver sampleImports.keccak256
  adapter := sampleAdapter
  env := ⟨1, 2, 7776000, 1, fun _ => 0, fun _ => 0⟩
  proof := List.replicate 256 0
  signals := sampleSignals sampleBinding
  context := ⟨encodeWords [4, 5, 1], by decide⟩
  predicate := 9
  presenter := 3
  consumer := 2
  configured := rfl
  accepted := .inr ⟨true, by decide +kernel⟩

-- The same presenter ten seconds later, under another challenge.
def sampleAgain : Accepted sampleImports ownerless ownerless where
  state := { initial () 3 with prover := 13 }
  provers _ := sampleAdapter.asProver sampleImports.keccak256
  adapter := sampleAdapter
  env := ⟨1, 2, 7776010, 1, fun _ => 0, fun _ => 0⟩
  proof := List.replicate 256 1
  signals := sampleSignals { sampleBinding with challenge := 6 }
  context := ⟨encodeWords [4, 6, 1], by decide⟩
  predicate := 9
  presenter := 3
  consumer := 2
  configured := rfl
  accepted := .inr ⟨true, by decide +kernel⟩

theorem collisionFree_sample :
    CollisionFree sampleImports.keccak256 (sample.hashed ++ sampleAgain.hashed) := by
  unfold CollisionFree
  decide +kernel

theorem presentations_bound_sample :
    (∃ decoded actionContext challenge mode,
      sample.Bound decoded actionContext challenge mode) ∧
    ∀ decoded decoded' actionContext actionContext' challenge challenge' mode mode',
      sample.Bound decoded actionContext challenge mode →
      sampleAgain.Bound decoded' actionContext' challenge' mode' →
      actionContext = actionContext' ∧ mode = mode' := by
  obtain ⟨hbound, hpairs⟩ := presentations_bound sampleImports
  refine ⟨hbound sample, ?_⟩
  intro decoded decoded' actionContext actionContext' challenge challenge' mode mode' ha hb
  have hscopes : (decodePublicSignals sample.signals).map PublicSignals.nullifierScopeHash =
      (decodePublicSignals sampleAgain.signals).map PublicSignals.nullifierScopeHash := by
    decide +kernel
  rw [ha.decodes, hb.decodes] at hscopes
  obtain ⟨-, hcontext, -, hmode⟩ := (hpairs sample sampleAgain collisionFree_sample).2 _ _ _ _ _ _
    _ _ ha hb (Except.ok.inj hscopes)
  exact ⟨hcontext, hmode⟩

end Ubi2.Contracts.PredicateVerifier
