import Ubi2.Contracts.Issuance
import Ubi2.Contracts.PredicateVerifier

namespace Ubi2.Contracts.ZkIdentitySelfIssuanceBridge

open Ubi2.Lib.Evm Ubi2.Lib.Encode Ubi2.Lib.Except Ubi2.Lib.Abi ZkIdentityEncoding
open PredicateVerifier (Imports)

structure SelfIssuanceAuthorization where
  subject : Address
  duplicateKey : Bytes32
  credentialCommitment : BitVec 256
  issuerKeyId : Bytes32
  expectedStatusId : BitVec 32
  expectedEpoch : BitVec 32
  deadline : BitVec 64
  selfConfigId : Bytes32
deriving DecidableEq, Repr

-- 10 minutes in seconds.
def MAX_AUTHORIZATION_LIFETIME : BitVec 256 := 600#256

def AUTHORIZATION_TYPEHASH (keccak256 : Keccak256) : Bytes32 :=
  keccakText keccak256
    "SelfIssuanceAuthorization(address subject,bytes32 duplicateKey,uint256 credentialCommitment,bytes32 issuerKeyId,uint32 expectedStatusId,uint32 expectedEpoch,uint64 deadline,bytes32 selfConfigId)"

-- All of it is immutable.
structure State where
  registry : Address
  issuerKeyId : Bytes32
  verificationAuthority : Address
  selfConfigId : Bytes32
deriving DecidableEq, Repr

inductive Error where
  | InvalidRegistry
  | InvalidIssuerKeyId
  | InactiveIssuerKey (issuerKeyId : Bytes32)
  | InvalidVerificationAuthority
  | InvalidSelfConfigId
  | SubjectMismatch (expected caller : Address)
  | AuthorizationExpired (deadline : BitVec 64) (currentTimestamp : BitVec 256)
  | AuthorizationDeadlineTooFar (deadline : BitVec 64) (maximumDeadline : BitVec 256)
  | AuthorizationIssuerKeyMismatch (expected provided : Bytes32)
  | AuthorizationSelfConfigMismatch (expected provided : Bytes32)
  | UnauthorizedVerificationSigner (recovered : Address)
  | RecoveryReverted
  | RegistryReverted (e : ZkIdentityIssuanceRegistry.Error)
  | Panic
deriving DecidableEq, Repr

inductive Event where
  | SelfCredentialIssued (issuerKeyId : Bytes32) (statusId : BitVec 32)
      (credentialCommitment : BitVec 256) (issuedAtEpoch : BitVec 32)
deriving DecidableEq, Repr

variable {base : Ownable}

-- The constructor, with what it finds at the address of the registry.
def new (env : Env) (found : ZkIdentityIssuanceRegistry.State base) (registry : Address)
    (issuerKeyId : Bytes32) (verificationAuthority : Address) (selfConfigId : Bytes32) :
    Except Error State := do
  revertIf (registry = 0 ∨ env.codeLength registry = 0) .InvalidRegistry
  revertIf (issuerKeyId = 0) .InvalidIssuerKeyId
  revertIf (verificationAuthority = 0) .InvalidVerificationAuthority
  revertIf (selfConfigId = 0) .InvalidSelfConfigId
  let issuer := found.issuerKeys issuerKeyId
  revertIf (issuer.registered = false ∨ issuer.active = false) (.InactiveIssuerKey issuerKeyId)
  pure { registry, issuerKeyId, verificationAuthority, selfConfigId }

def authorizationStructHash (keccak256 : Keccak256) (authorization : SelfIssuanceAuthorization) :
    Bytes32 :=
  keccak256 (encodeWords [AUTHORIZATION_TYPEHASH keccak256, authorization.subject.setWidth 256,
    authorization.duplicateKey, authorization.credentialCommitment, authorization.issuerKeyId,
    authorization.expectedStatusId.setWidth 256, authorization.expectedEpoch.setWidth 256,
    authorization.deadline.setWidth 256, authorization.selfConfigId])

def hashAuthorization (x : Imports) (env : Env) (authorization : SelfIssuanceAuthorization) :
    Bytes32 :=
  x.hashTypedDataV4 env.this env.chainId (authorizationStructHash x.keccak256 authorization)

-- The latest deadline there may be. The addition is checked.
def maximumDeadline (env : Env) : Except Error (BitVec 256) := do
  revertIf (BitVec.allOnes 256 - MAX_AUTHORIZATION_LIFETIME < env.timestamp) .Panic
  pure (env.timestamp + MAX_AUTHORIZATION_LIFETIME)

def recover (x : Imports) (digest : Bytes32) (signature : List Byte) : Except Error Address :=
  match x.recover digest signature with
  | some signer => .ok signer
  | none => .error .RecoveryReverted

-- What an allocation returns to its caller is in its event.
def returned : ZkIdentityIssuanceRegistry.Event → BitVec 32 × BitVec 32
  | .CredentialAllocated _ statusId _ issuedAtEpoch => (statusId, issuedAtEpoch)
  | _ => (0, 0)

namespace State

variable (s : State) (x : Imports) (env : Env)

-- The registry is called by the bridge.
def toRegistry : Env :=
  { env with this := s.registry, sender := env.this }

def allocation (authorization : SelfIssuanceAuthorization) :
    ZkIdentityIssuanceRegistry.Call base :=
  .allocateCredential s.issuerKeyId authorization.duplicateKey authorization.credentialCommitment
    authorization.expectedStatusId authorization.expectedEpoch

-- The checks on what is signed and on who signed it.
def authorize (authorization : SelfIssuanceAuthorization) (signature : List Byte) :
    Except Error Unit := do
  revertIf (authorization.subject ≠ env.sender) (.SubjectMismatch authorization.subject env.sender)
  revertIf (authorization.issuerKeyId ≠ s.issuerKeyId)
    (.AuthorizationIssuerKeyMismatch s.issuerKeyId authorization.issuerKeyId)
  revertIf (authorization.selfConfigId ≠ s.selfConfigId)
    (.AuthorizationSelfConfigMismatch s.selfConfigId authorization.selfConfigId)
  revertIf (authorization.deadline = 0 ∨ authorization.deadline.setWidth 256 < env.timestamp)
    (.AuthorizationExpired authorization.deadline env.timestamp)
  let latest ← maximumDeadline env
  revertIf (latest < authorization.deadline.setWidth 256)
    (.AuthorizationDeadlineTooFar authorization.deadline latest)
  let recovered ← recover x (hashAuthorization x env authorization) signature
  revertIf (recovered ≠ s.verificationAuthority) (.UnauthorizedVerificationSigner recovered)

def issue (registry : ZkIdentityIssuanceRegistry.State base)
    (authorization : SelfIssuanceAuthorization) (signature : List Byte) :
    Except Error (ZkIdentityIssuanceRegistry.State base × ZkIdentityIssuanceRegistry.Event ×
      Event) := do
  s.authorize x env authorization signature
  let (registry, allocated) ← (registry.allocateCredential (s.toRegistry env) s.issuerKeyId
    authorization.duplicateKey authorization.credentialCommitment authorization.expectedStatusId
    authorization.expectedEpoch).mapError .RegistryReverted
  let (statusId, issuedAtEpoch) := returned allocated
  pure (registry, allocated, .SelfCredentialIssued s.issuerKeyId statusId
    authorization.credentialCommitment issuedAtEpoch)

end State

end Ubi2.Contracts.ZkIdentitySelfIssuanceBridge

namespace Ubi2.Contracts.ZkIdentityIssuanceRegistry

open Ubi2.Lib Ubi2.Lib.Evm Ubi2.Lib.Except

variable {base : Ownable} {s s' : State base} {env : Env} {call : Call base}
variable {event : Option Event} {i key : Bytes32} {c : BitVec 256} {id epoch : BitVec 32}

namespace State

-- An allocation has the slot and the epoch that it was asked for.
theorem allocateCredential_returns {e : Event}
    (h : s.allocateCredential env i key c id epoch = .ok (s', e)) :
    e = .CredentialAllocated i id c epoch ∧ epoch.toNat = env.timestamp.toNat / EPOCH.toNat ∧
      (s.issuances key).statusId = 0 ∧ s.credentialCommitmentUsed c = false ∧
      (s.issuanceAuthorities i env.sender).registered = true := by
  simp only [allocateCredential, activeIssuanceAuthority, currentEpoch, bind_eq_ok, revertIf_eq_ok,
    exists_const, pure_eq_ok, activeIssuerKey_eq_ok, not_not, Bool.not_eq_true,
    Bool.not_eq_false] at h
  obtain ⟨issuer, -, authorization, ⟨hregistered, -, -⟩, -, -, -, hkey, -, hused, -, hid, issuedAt,
    ⟨hwide, hissuedAt⟩, hepoch, heq⟩ := h
  cases heq
  refine ⟨by rw [hid, hepoch], ?_, hkey, hused, hregistered⟩
  rw [hepoch, ← hissuedAt, BitVec.toNat_setWidth, BitVec.toNat_udiv]
  refine Nat.mod_eq_of_lt ?_
  have hle := BitVec.le_def.mp (BitVec.not_lt.mp hwide)
  rw [BitVec.toNat_udiv] at hle
  exact Nat.lt_of_le_of_lt hle (by decide)

-- Only the owner's call makes an account an authority.
theorem authorities_execute (h : s.execute env call = .ok (s', event)) (a : Address)
    (hnew : (s'.issuanceAuthorities i a).registered = true) :
    (s.issuanceAuthorities i a).registered = true ∨ call = .authorizeIssuanceAuthority i a := by
  have hset : ∀ {x : IssuanceAuthority} {j : Bytes32} {b : Address},
      (set₂ s.issuanceAuthorities j b x i a).registered = true →
      (s.issuanceAuthorities i a).registered = true ∨ i = j ∧ a = b := by
    intro x j b hx
    rw [set₂_apply] at hx
    split_ifs at hx with heq
    · exact Or.inr heq
    · exact Or.inl hx
  cases call with
  | authorizeIssuanceAuthority j b =>
    simp only [execute, emitted_eq_ok, authorizeIssuanceAuthority, bind_eq_ok, pure_eq_ok] at h
    obtain ⟨e, ⟨-, -, -, -, -, -, -, -, heq⟩, -⟩ := h
    cases heq
    obtain hold | ⟨rfl, rfl⟩ := hset hnew
    · exact Or.inl hold
    · exact Or.inr rfl
  | retireIssuanceAuthority j b =>
    simp only [execute, emitted_eq_ok, retireIssuanceAuthority, activeIssuanceAuthority, bind_eq_ok,
      revertIf_eq_ok, exists_const, pure_eq_ok, Bool.not_eq_false] at h
    obtain ⟨e, ⟨-, -, -, -, authorization, ⟨hregistered, -, -⟩, heq⟩, -⟩ := h
    cases heq
    obtain hold | ⟨rfl, rfl⟩ := hset hnew
    · exact Or.inl hold
    · exact Or.inl hregistered
  | ownership call =>
    simp only [execute, ownableCall] at h
    split at h
    · cases h
      exact Or.inl hnew
    · cases h
  | registerIssuerKey j =>
    simp only [execute, emitted_eq_ok, registerIssuerKey, bind_eq_ok, pure_eq_ok] at h
    obtain ⟨e, ⟨-, -, -, -, -, -, heq⟩, -⟩ := h
    cases heq
    exact Or.inl hnew
  | retireIssuerKey j =>
    simp only [execute, emitted_eq_ok, retireIssuerKey, bind_eq_ok, pure_eq_ok] at h
    obtain ⟨e, ⟨-, -, issuer, -, heq⟩, -⟩ := h
    cases heq
    exact Or.inl hnew
  | authorizeStatusPublisher j b =>
    simp only [execute, emitted_eq_ok, authorizeStatusPublisher, bind_eq_ok, pure_eq_ok] at h
    obtain ⟨e, ⟨-, -, -, -, -, -, -, -, heq⟩, -⟩ := h
    cases heq
    exact Or.inl hnew
  | retireStatusPublisher j b =>
    simp only [execute, emitted_eq_ok, retireStatusPublisher, bind_eq_ok, pure_eq_ok] at h
    obtain ⟨e, ⟨-, -, -, -, publisher, -, heq⟩, -⟩ := h
    cases heq
    exact Or.inl hnew
  | allocateCredential j key c id epoch =>
    simp only [execute, emitted_eq_ok, allocateCredential, bind_eq_ok, revertIf_eq_ok,
      exists_const, pure_eq_ok] at h
    obtain ⟨e, ⟨issuer, -, -, -, -, -, -, -, -, -, -, -, issuedAt, -, -, heq⟩, -⟩ := h
    cases heq
    exact Or.inl hnew
  | publishStatusSnapshot j next root =>
    simp only [execute, emitted_eq_ok, publishStatusSnapshot, bind_eq_ok, revertIf_eq_ok,
      exists_const, pure_eq_ok] at h
    obtain ⟨e, ⟨issuer, -, -, -, -, -, -, -, -, -, -, -, heq⟩, -⟩ := h
    cases heq
    exact Or.inl hnew
  | revokeStatusSnapshot j id =>
    simp only [execute, emitted_eq_ok, revokeStatusSnapshot, bind_eq_ok, revertIf_eq_ok,
      exists_const, pure_eq_ok] at h
    obtain ⟨e, ⟨-, -, -, -, -, -, heq⟩, -⟩ := h
    cases heq
    exact Or.inl hnew

end State

end Ubi2.Contracts.ZkIdentityIssuanceRegistry

namespace Ubi2.Contracts.ZkIdentityIssuanceRegistry

open Ubi2.Lib Ubi2.Lib.Evm Ubi2.Lib.Except

variable {base : Ownable}

-- Whoever may allocate, and has, was made an authority by a call of the history.
structure Appointed (w : World base) : Prop where
  authorities : ∀ i a, (w.state.issuanceAuthorities i a).registered = true →
    ∃ e ∈ w.history, e.call = .authorizeIssuanceAuthority i a
  allocators : ∀ e ∈ w.history, ∀ i key c id epoch,
    e.call = .allocateCredential i key c id epoch →
      ∃ e' ∈ w.history, e'.call = .authorizeIssuanceAuthority i e.env.sender

theorem Coherent.call {w : World base} (h : Coherent w) (env : Env) (call : Call base) :
    Coherent (w.call env call) := by
  rw [World.call]
  split
  · next s' event hexecute => exact h.step (State.execute_step hexecute)
  · exact h

theorem appointed_new (ownership : base.State) : Appointed ⟨new ownership, []⟩ := by
  refine ⟨fun i a h => ?_, fun e he => ?_⟩
  · cases h
  · cases he

theorem Appointed.call {w : World base} (h : Appointed w) (env : Env) (call : Call base) :
    Appointed (w.call env call) := by
  rw [World.call]
  split
  · next s' event hexecute =>
    have hkept : ∀ {c : Call base}, (∃ e ∈ w.history, e.call = c) →
        ∃ e ∈ w.history ++ [⟨env, call, event⟩], e.call = c := by
      intro c hc
      obtain ⟨e, he, hcall⟩ := hc
      exact ⟨e, List.mem_append_left _ he, hcall⟩
    refine ⟨fun i a hnew => ?_, fun e he i key c id epoch hcall => ?_⟩
    · obtain hold | hcall := State.authorities_execute hexecute a hnew
      · exact hkept (h.authorities i a hold)
      · exact ⟨⟨env, call, event⟩, List.mem_append_right _ (List.mem_singleton_self _), hcall⟩
    · rcases List.mem_append.mp he with he | he
      · exact hkept (h.allocators e he i key c id epoch hcall)
      · rw [List.mem_singleton.mp he] at hcall ⊢
        dsimp only at hcall ⊢
        rw [hcall] at hexecute
        simp only [State.execute, State.emitted_eq_ok] at hexecute
        obtain ⟨e', hallocate, -⟩ := hexecute
        obtain ⟨-, -, -, -, hregistered⟩ := State.allocateCredential_returns hallocate
        exact hkept (h.authorities i env.sender hregistered)
  · exact h

end Ubi2.Contracts.ZkIdentityIssuanceRegistry

namespace Ubi2.Contracts.ZkIdentitySelfIssuanceBridge

open Ubi2.Lib Ubi2.Lib.Evm Ubi2.Lib.Encode Ubi2.Lib.Except
open PredicateVerifier (Imports)
open ZkIdentityIssuanceRegistry (Executed Allocated Coherent Appointed EPOCH)

-- An issue that went through, with the bridge that it went through.
structure Issued where
  env : Env
  bridge : State
  authorization : SelfIssuanceAuthorization
  signature : List Byte

-- The registry with the bridges to it and what they have issued, in its order.
structure World (base : Ownable) where
  registry : ZkIdentityIssuanceRegistry.World base
  bridges : Address → Option State
  issued : List Issued

-- A call of the registry by any other account, a new bridge at `env.this`, or an issue there.
inductive Action (base : Ownable) where
  | call (env : Env) (call : ZkIdentityIssuanceRegistry.Call base)
  | deploy (env : Env) (issuerKeyId : Bytes32) (verificationAuthority : Address)
      (selfConfigId : Bytes32)
  | issue (env : Env) (authorization : SelfIssuanceAuthorization) (signature : List Byte)

variable {base : Ownable}

-- A bridge has no other calls, and the account of a new one has called nothing before.
def World.act (registry : Address) (x : Imports) (w : World base) : Action base → World base
  | .call env call =>
    if (w.bridges env.sender).isSome then w
    else { w with registry := w.registry.call env call }
  | .deploy env issuerKeyId verificationAuthority selfConfigId =>
    if (w.bridges env.this).isSome ∨ ∃ e ∈ w.registry.history, e.env.sender = env.this then w
    else
      match new env w.registry.state registry issuerKeyId verificationAuthority selfConfigId with
      | .error _ => w
      | .ok bridge => { w with bridges := Function.update w.bridges env.this (some bridge) }
  | .issue env authorization signature =>
    match w.bridges env.this with
    | none => w
    | some bridge =>
      match bridge.issue x env w.registry.state authorization signature with
      | .error _ => w
      | .ok (state, event, _) =>
        { w with
          registry := ⟨state, w.registry.history ++
            [⟨bridge.toRegistry env, bridge.allocation authorization, some event⟩]⟩
          issued := w.issued ++ [⟨env, bridge, authorization, signature⟩] }

def run (registry : Address) (x : Imports) (ownership : base.State) (actions : List (Action base)) :
    World base :=
  actions.foldl (World.act registry x) ⟨⟨ZkIdentityIssuanceRegistry.new ownership, []⟩,
    fun _ => none, []⟩

-- The call of the registry that an issue makes.
def Issued.executed (i : Issued) : Executed base where
  env := i.bridge.toRegistry i.env
  call := i.bridge.allocation i.authorization
  event := some (.CredentialAllocated i.bridge.issuerKeyId i.authorization.expectedStatusId
    i.authorization.credentialCommitment i.authorization.expectedEpoch)

-- What the authority has signed, for whom and for when.
structure Issued.Authorized (x : Imports) (i : Issued) : Prop where
  subject : i.authorization.subject = i.env.sender
  issuerKeyId : i.authorization.issuerKeyId = i.bridge.issuerKeyId
  selfConfigId : i.authorization.selfConfigId = i.bridge.selfConfigId
  deadline : i.env.timestamp.toNat ≤ i.authorization.deadline.toNat ∧
    i.authorization.deadline.toNat ≤ i.env.timestamp.toNat + 600
  signed : x.recover (hashAuthorization x i.env i.authorization) i.signature =
    some i.bridge.verificationAuthority
  epoch : i.authorization.expectedEpoch.toNat = i.env.timestamp.toNat / EPOCH.toNat

section
variable {s : State} {x : Imports} {env : Env} {authorization : SelfIssuanceAuthorization}
variable {signature : List Byte} {r r' : ZkIdentityIssuanceRegistry.State base}
variable {e : ZkIdentityIssuanceRegistry.Event} {e' : Event}

theorem maximumDeadline_eq_ok {latest : BitVec 256} (h : maximumDeadline env = .ok latest) :
    latest.toNat = env.timestamp.toNat + 600 := by
  simp only [maximumDeadline, bind_eq_ok, revertIf_eq_ok, exists_const, pure_eq_ok] at h
  obtain ⟨hroom, rfl⟩ := h
  have hle := BitVec.le_def.mp (BitVec.not_lt.mp hroom)
  have hmax : (BitVec.allOnes 256 - MAX_AUTHORIZATION_LIFETIME).toNat = 2 ^ 256 - 601 := by decide
  have hlifetime : MAX_AUTHORIZATION_LIFETIME.toNat = 600 := rfl
  rw [BitVec.toNat_add, hlifetime]
  omega

theorem recover_eq_ok {digest : Bytes32} {signer : Address}
    (h : recover x digest signature = .ok signer) : x.recover digest signature = some signer := by
  unfold recover at h
  cases hrecovered : x.recover digest signature with
  | none =>
    rw [hrecovered] at h
    cases h
  | some recovered =>
    rw [hrecovered] at h
    exact congrArg some (Except.ok.inj h)

-- An issue that goes through is authorized, and is this one call of the registry.
theorem issue_spec (h : s.issue x env r authorization signature = .ok (r', e, e')) :
    Issued.Authorized x ⟨env, s, authorization, signature⟩ ∧
    e = .CredentialAllocated s.issuerKeyId authorization.expectedStatusId
      authorization.credentialCommitment authorization.expectedEpoch ∧
    r.execute (s.toRegistry env) (s.allocation authorization) = .ok (r', some e) ∧
    (r.issuances authorization.duplicateKey).statusId = 0 ∧
    r.credentialCommitmentUsed authorization.credentialCommitment = false := by
  simp only [State.issue, State.authorize, bind_eq_ok, revertIf_eq_ok, exists_const, pure_eq_ok,
    mapError_eq_ok, not_not, not_or] at h
  obtain ⟨⟨hsubject, hkey, hconfig, ⟨-, hexpired⟩, latest, hlatest, hfar, signer, hsigner,
    hauthority⟩, ⟨r₁, e₁⟩, hallocate, heq⟩ := h
  cases heq
  obtain ⟨hevent, hepoch, hunused, hfresh, -⟩ :=
    ZkIdentityIssuanceRegistry.State.allocateCredential_returns hallocate
  have hdeadline : (authorization.deadline.setWidth 256).toNat = authorization.deadline.toNat :=
    BitVec.toNat_setWidth_of_le (by decide)
  refine ⟨⟨hsubject, hkey, hconfig, ⟨?_, ?_⟩, ?_, hepoch⟩, hevent, ?_, hunused, hfresh⟩
  · have hle := BitVec.le_def.mp (BitVec.not_lt.mp hexpired)
    rwa [hdeadline] at hle
  · have hle := BitVec.le_def.mp (BitVec.not_lt.mp hfar)
    rwa [hdeadline, maximumDeadline_eq_ok hlatest] at hle
  · rw [← hauthority]
    exact recover_eq_ok hsigner
  · simp only [State.allocation, ZkIdentityIssuanceRegistry.State.execute,
      ZkIdentityIssuanceRegistry.State.emitted_eq_ok]
    exact ⟨_, hallocate, rfl⟩

end

-- The registry as it is with its history, and the bridges as what they have been called for.
structure Bridged (x : Imports) (w : World base) : Prop where
  coherent : Coherent w.registry
  appointed : Appointed w.registry
  sent : (w.registry.history.filter fun e => (w.bridges e.env.sender).isSome) =
    w.issued.map Issued.executed
  issued : ∀ i ∈ w.issued, w.bridges i.env.this = some i.bridge ∧ i.Authorized x

namespace Bridged

variable {x : Imports} {w : World base} {env : Env} {registry : Address}

theorem start (ownership : base.State) :
    Bridged x ⟨⟨ZkIdentityIssuanceRegistry.new ownership, []⟩, fun _ => none, []⟩ := by
  refine ⟨.new ownership, ZkIdentityIssuanceRegistry.appointed_new ownership, rfl, fun i hi => ?_⟩
  cases hi

theorem call (h : Bridged x w) {call : ZkIdentityIssuanceRegistry.Call base}
    (hother : (w.bridges env.sender).isSome = false) :
    Bridged x { w with registry := w.registry.call env call } := by
  refine ⟨h.coherent.call env call, h.appointed.call env call, ?_, h.issued⟩
  rw [← h.sent, ZkIdentityIssuanceRegistry.World.call]
  split
  · rw [List.filter_append, List.filter_cons_of_neg (by simp [hother]), List.filter_nil,
      List.append_nil]
  · rfl

theorem deploy (h : Bridged x w) {bridge : State} (hnew : (w.bridges env.this).isSome = false)
    (hquiet : ∀ e ∈ w.registry.history, e.env.sender ≠ env.this) :
    Bridged x { w with bridges := Function.update w.bridges env.this (some bridge) } := by
  refine ⟨h.coherent, h.appointed, ?_, fun i hi => ?_⟩
  · rw [← h.sent]
    refine List.filter_congr fun e he => ?_
    exact congrArg Option.isSome (Function.update_of_ne (hquiet e he) _ _)
  · obtain ⟨hbridge, hauthorized⟩ := h.issued i hi
    have hne : i.env.this ≠ env.this := by
      intro heq
      rw [← heq, hbridge] at hnew
      cases hnew
    exact ⟨(Function.update_of_ne hne _ _).trans hbridge, hauthorized⟩

theorem issue (h : Bridged x w) {bridge : State} {authorization : SelfIssuanceAuthorization}
    {signature : List Byte} {r : ZkIdentityIssuanceRegistry.State base}
    {e : ZkIdentityIssuanceRegistry.Event} {e' : Event} (hbridge : w.bridges env.this = some bridge)
    (hissue : bridge.issue x env w.registry.state authorization signature = .ok (r, e, e')) :
    Bridged x { w with
      registry := ⟨r, w.registry.history ++
        [⟨bridge.toRegistry env, bridge.allocation authorization, some e⟩]⟩
      issued := w.issued ++ [⟨env, bridge, authorization, signature⟩] } := by
  obtain ⟨hauthorized, hevent, hexecute, -, -⟩ := issue_spec hissue
  have hcall : (⟨r, w.registry.history ++
      [⟨bridge.toRegistry env, bridge.allocation authorization, some e⟩]⟩ :
        ZkIdentityIssuanceRegistry.World base) =
      w.registry.call (bridge.toRegistry env) (bridge.allocation authorization) := by
    rw [ZkIdentityIssuanceRegistry.World.call, hexecute]
  refine ⟨?_, ?_, ?_, fun i hi => ?_⟩
  · rw [hcall]
    exact h.coherent.call _ _
  · rw [hcall]
    exact h.appointed.call _ _
  · have hsender : (w.bridges (bridge.toRegistry env).sender).isSome = true :=
      congrArg Option.isSome hbridge
    dsimp only
    rw [List.filter_append, h.sent, List.map_append, List.filter_cons, if_pos hsender,
      List.filter_nil, hevent]
    rfl
  · rcases List.mem_append.mp hi with hi | hi
    · exact h.issued i hi
    · rw [List.mem_singleton.mp hi]
      exact ⟨hbridge, hauthorized⟩

theorem act (h : Bridged x w) (action : Action base) : Bridged x (w.act registry x action) := by
  cases action with
  | call env call =>
    rw [World.act]
    split_ifs with hbridge
    · exact h
    · exact h.call (by simpa using hbridge)
  | deploy env issuerKeyId verificationAuthority selfConfigId =>
    rw [World.act]
    split_ifs with htaken
    · exact h
    · obtain ⟨hnew, hquiet⟩ := not_or.mp htaken
      split
      · exact h
      · exact h.deploy (by simpa using hnew) fun e he heq => hquiet ⟨e, he, heq⟩
  | issue env authorization signature =>
    rw [World.act]
    split
    · exact h
    · next bridge hbridge =>
      split
      · exact h
      · next r e e' hissue => exact h.issue hbridge hissue

end Bridged

theorem bridged_run (registry : Address) (x : Imports) (ownership : base.State)
    (actions : List (Action base)) : Bridged x (run registry x ownership actions) :=
  Run.foldl_invariant (fun _ action h => h.act action) actions (.start ownership)

-- What an issue leaves in the registry.
def Issued.record (i : Issued) : ZkIdentityIssuanceRegistry.Issuance where
  issuerKeyId := i.bridge.issuerKeyId
  credentialCommitment := i.authorization.credentialCommitment
  statusId := i.authorization.expectedStatusId
  issuedAtEpoch := i.authorization.expectedEpoch

-- What holds of the registry, its bridges and all that they have issued.
structure IssuanceLaws (x : Imports) (w : World base) : Prop where
  sent : (w.registry.history.filter fun e => (w.bridges e.env.sender).isSome) =
    w.issued.map Issued.executed
  authorized : ∀ i ∈ w.issued, w.bridges i.env.this = some i.bridge ∧ i.Authorized x
  recorded : ∀ i ∈ w.issued,
    w.registry.state.issuances i.authorization.duplicateKey = i.record ∧
      w.registry.state.credentialCommitmentAt i.bridge.issuerKeyId
        i.authorization.expectedStatusId = i.authorization.credentialCommitment
  duplicateKeys : (w.issued.map fun i => i.authorization.duplicateKey).Nodup
  commitments : (w.issued.map fun i => i.authorization.credentialCommitment).Nodup
  spent : ∀ i ∈ w.issued, ∀ (bridge : State) (env : Env) authorization signature r,
    authorization.duplicateKey = i.authorization.duplicateKey ∨
      authorization.credentialCommitment = i.authorization.credentialCommitment →
    bridge.issue x env w.registry.state authorization signature ≠ .ok r
  exclusive : ∀ key, (∀ e ∈ w.registry.history, ∀ a,
      e.call = .authorizeIssuanceAuthority key a → (w.bridges a).isSome) →
    ∀ e ∈ w.registry.history, ∀ duplicateKey c id epoch,
      e.call = .allocateCredential key duplicateKey c id epoch →
        ∃ i ∈ w.issued, e = i.executed

def Issued.allocated (i : Issued) : ZkIdentityIssuanceRegistry.Allocation where
  issuerKeyId := i.bridge.issuerKeyId
  duplicateKey := i.authorization.duplicateKey
  credentialCommitment := i.authorization.credentialCommitment
  statusId := i.authorization.expectedStatusId
  issuedAtEpoch := i.authorization.expectedEpoch

-- The issues are allocations of the registry, in its order.
theorem Bridged.allocations {x : Imports} {w : World base} (h : Bridged x w) :
    (w.issued.map Issued.allocated).Sublist w.registry.allocations := by
  let executed : Issued → Executed base := Issued.executed
  have hfilter : ((w.issued.map executed).filterMap Executed.allocation?).Sublist
      w.registry.allocations := by
    rw [← h.sent]
    exact List.filter_sublist.filterMap _
  rw [List.filterMap_map] at hfilter
  have hmap : w.issued.filterMap (Executed.allocation? ∘ executed) =
      w.issued.map Issued.allocated := congrFun List.filterMap_eq_map' w.issued
  rwa [hmap] at hfilter

-- A bridge keeps no record of what it has issued, and needs none: the registry takes each
-- duplicate key and each commitment once, so that an authorization is used at most once, by
-- whichever bridge. Where an issuer key has been given to bridges only, every credential of it was
-- signed for the account that asked for it, at most ten minutes before the deadline.
theorem run_issuanceLaws (registry : Address) (x : Imports) (ownership : base.State)
    (actions : List (Action base)) : IssuanceLaws x (run registry x ownership actions) := by
  have hbridged := bridged_run registry x ownership actions
  generalize run registry x ownership actions = w at *
  have hallocated := hbridged.coherent.allocated
  have hsub := hbridged.allocations
  have hmem : ∀ i ∈ w.issued, i.allocated ∈ w.registry.allocations :=
    fun i hi => hsub.subset (List.mem_map_of_mem hi)
  constructor
  case sent => exact hbridged.sent
  case authorized => exact hbridged.issued
  case recorded =>
    intro i hi
    exact ⟨hallocated.issuances _ (hmem i hi), hallocated.commitmentAt _ (hmem i hi)⟩
  case duplicateKeys =>
    have hnodup := hallocated.duplicateKeys.sublist (hsub.map _)
    rwa [List.map_map] at hnodup
  case commitments =>
    have hnodup := hallocated.commitments.sublist (hsub.map _)
    rwa [List.map_map] at hnodup
  case spent =>
    intro i hi bridge env authorization signature r hsame hissue
    obtain ⟨-, -, -, hunused, hfresh⟩ := issue_spec hissue
    rcases hsame with hkey | hcommitment
    · have hrecord : w.registry.state.issuances i.authorization.duplicateKey = _ :=
        hallocated.issuances _ (hmem i hi)
      rw [hkey, hrecord] at hunused
      exact hallocated.statusId_ne_zero (hmem i hi) hunused
    · rw [hcommitment] at hfresh
      have hused := (hallocated.used i.authorization.credentialCommitment).mpr
        (List.mem_map_of_mem (hmem i hi))
      rw [hfresh] at hused
      cases hused
  case exclusive =>
    intro key hbridges e he duplicateKey c id epoch hcall
    obtain ⟨e', he', hcall'⟩ :=
      hbridged.appointed.allocators e he key duplicateKey c id epoch hcall
    have hsent : e ∈ w.issued.map Issued.executed := by
      rw [← hbridged.sent]
      exact List.mem_filter.mpr ⟨he, hbridges e' he' e.env.sender hcall'⟩
    obtain ⟨i, hi, rfl⟩ := List.mem_map.mp hsent
    exact ⟨i, hi, rfl⟩

def soleOwner : Ownable where
  State := Unit
  Call := Unit
  owner _ := 1
  call _ _ _ := none

-- The owner registers a key and appoints the bridge at 3, whose authority is 5. Account 8 issues,
-- and fails to issue again.
def rehearsal : List (Action soleOwner) :=
  let env : Env := ⟨2, 1, EPOCH, 1, fun _ => 1, fun _ => 0⟩
  let authorization : SelfIssuanceAuthorization := ⟨8, 7, 9, 4, 1, 1, 7776600, 6⟩
  let signature := List.replicate 65 1
  [.call env (.registerIssuerKey 4), .deploy { env with this := 3 } 4 5 6,
    .call env (.authorizeIssuanceAuthority 4 3),
    .issue { env with this := 3, sender := 8 } authorization signature,
    .issue { env with this := 3, sender := 8 } authorization signature]

example : (run 2 ⟨fun _ => 0, fun _ _ hash => hash,
    fun _ signature => if signature.length = 65 then some 5 else none⟩ () rehearsal).issued.map
    (fun i => (i.env.sender, i.authorization.duplicateKey)) = [(8, 7)] := by decide +kernel

end Ubi2.Contracts.ZkIdentitySelfIssuanceBridge
