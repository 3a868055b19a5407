import Ubi2.Contracts.ZkIdentityIssuanceRegistry
import Ubi2.Lib.Numbered
import Ubi2.Lib.Run

namespace Ubi2.Contracts.ZkIdentityIssuanceRegistry

open Ubi2.Lib Ubi2.Lib.Evm Ubi2.Lib.Except

variable {base : Ownable} {s s' : State base} {env : Env}

-- An allocation as the history shows it: the duplicate key is in the call only.
structure Allocation where
  issuerKeyId : Bytes32
  duplicateKey : Bytes32
  credentialCommitment : BitVec 256
  statusId : BitVec 32
  issuedAtEpoch : BitVec 32
deriving DecidableEq, Repr

structure Publication where
  issuerKeyId : Bytes32
  snapshotId : BitVec 32
  root : Bytes32
  activatedThroughStatusId : BitVec 32
deriving DecidableEq, Repr

def Executed.allocation? : Executed base → Option Allocation
  | ⟨_, .allocateCredential _ duplicateKey _ _ _,
      some (.CredentialAllocated issuerKeyId statusId credentialCommitment issuedAtEpoch)⟩ =>
    some { issuerKeyId, duplicateKey, credentialCommitment, statusId, issuedAtEpoch }
  | _ => none

def Executed.publication? : Executed base → Option Publication
  | ⟨_, _, some (.StatusSnapshotPublished issuerKeyId snapshotId root
      activatedThroughStatusId _ _)⟩ =>
    some { issuerKeyId, snapshotId, root, activatedThroughStatusId }
  | _ => none

namespace World

def allocations (w : World base) : List Allocation :=
  w.history.filterMap Executed.allocation?

def allocationsOf (w : World base) (issuerKeyId : Bytes32) : List Allocation :=
  w.allocations.filter fun a => a.issuerKeyId = issuerKeyId

def publications (w : World base) : List Publication :=
  w.history.filterMap Executed.publication?

def publicationsOf (w : World base) (issuerKeyId : Bytes32) : List Publication :=
  w.publications.filter fun p => p.issuerKeyId = issuerKeyId

end World

-- What one call does to the issuers, their slots and their snapshots. Calls about the
-- authorities, the publishers and the owner leave these as they are.
inductive Step (s s' : State base) : Call base → Option Event → Prop where
  | registered (i : Bytes32) (hnew : (s.issuerKeys i).registered = false)
      (hs : s' = { s with issuerKeys := Function.update s.issuerKeys i ⟨true, true, 1⟩ }) :
      Step s s' (.registerIssuerKey i) (some (.IssuerKeyRegistered i))
  | retired (i : Bytes32) (hregistered : (s.issuerKeys i).registered = true)
      (hs : s' = { s with
        issuerKeys :=
          Function.update s.issuerKeys i { s.issuerKeys i with active := false } }) :
      Step s s' (.retireIssuerKey i) (some (.IssuerKeyRetired i))
  | allocated (a : Allocation) (expectedStatusId expectedEpoch : BitVec 32)
      (hregistered : (s.issuerKeys a.issuerKeyId).registered = true)
      (hactive : (s.issuerKeys a.issuerKeyId).active = true)
      (hkey : (s.issuances a.duplicateKey).statusId = 0)
      (hcommitment : s.credentialCommitmentUsed a.credentialCommitment = false)
      (hslots : ¬0xFFFFFFFF#64 < (s.issuerKeys a.issuerKeyId).nextStatusId)
      (hid : a.statusId = (s.issuerKeys a.issuerKeyId).nextStatusId.setWidth 32)
      (hs : s' = { s with
        issuerKeys := Function.update s.issuerKeys a.issuerKeyId
          { s.issuerKeys a.issuerKeyId with
            nextStatusId := (s.issuerKeys a.issuerKeyId).nextStatusId + 1 }
        issuances := Function.update s.issuances a.duplicateKey
          ⟨a.issuerKeyId, a.credentialCommitment, a.statusId, a.issuedAtEpoch⟩
        credentialCommitmentUsed :=
          Function.update s.credentialCommitmentUsed a.credentialCommitment true
        credentialCommitmentAt :=
          set₂ s.credentialCommitmentAt a.issuerKeyId a.statusId a.credentialCommitment }) :
      Step s s' (.allocateCredential a.issuerKeyId a.duplicateKey a.credentialCommitment
        expectedStatusId expectedEpoch)
        (some (.CredentialAllocated a.issuerKeyId a.statusId a.credentialCommitment
          a.issuedAtEpoch))
  | published (p : Publication) (publishedAt : BitVec 64) (publisher : Address)
      (expectedNextStatusId : BitVec 64)
      (hregistered : (s.issuerKeys p.issuerKeyId).registered = true)
      (hactive : (s.issuerKeys p.issuerKeyId).active = true)
      (hroot : p.root ≠ 0)
      (hnew : s.statusSnapshotIdForRoot p.issuerKeyId p.root = 0)
      (hlatest : s.latestStatusSnapshotId p.issuerKeyId ≠ 0xFFFFFFFF#32)
      (hid : p.snapshotId = s.latestStatusSnapshotId p.issuerKeyId + 1)
      (hactivated : p.activatedThroughStatusId =
        ((s.issuerKeys p.issuerKeyId).nextStatusId - 1).setWidth 32)
      (hs : s' = { s with
        latestStatusSnapshotId :=
          Function.update s.latestStatusSnapshotId p.issuerKeyId p.snapshotId
        statusSnapshotIdForRoot :=
          set₂ s.statusSnapshotIdForRoot p.issuerKeyId p.root p.snapshotId
        statusSnapshots := set₂ s.statusSnapshots p.issuerKeyId p.snapshotId
          ⟨p.root, p.activatedThroughStatusId, publishedAt, false⟩ }) :
      Step s s' (.publishStatusSnapshot p.issuerKeyId expectedNextStatusId p.root)
        (some (.StatusSnapshotPublished p.issuerKeyId p.snapshotId p.root
          p.activatedThroughStatusId publishedAt publisher))
  | revoked (i : Bytes32) (id : BitVec 32) (root : Bytes32)
      (hroot : (s.statusSnapshots i id).root ≠ 0)
      (hs : s' = { s with
        statusSnapshots :=
          set₂ s.statusSnapshots i id { s.statusSnapshots i id with revoked := true } }) :
      Step s s' (.revokeStatusSnapshot i id) (some (.StatusSnapshotRevoked i id root))
  | unrelated (call : Call base) (event : Option Event)
      (hallocation : ∀ env, (Executed.allocation? ⟨env, call, event⟩) = none)
      (hpublication : ∀ env, (Executed.publication? ⟨env, call, event⟩) = none)
      (hretire : ∀ i, call ≠ .retireIssuerKey i)
      (hrevoke : ∀ i id, call ≠ .revokeStatusSnapshot i id)
      (hkeys : s'.issuerKeys = s.issuerKeys) (hissuances : s'.issuances = s.issuances)
      (hused : s'.credentialCommitmentUsed = s.credentialCommitmentUsed)
      (hat : s'.credentialCommitmentAt = s.credentialCommitmentAt)
      (hlatest : s'.latestStatusSnapshotId = s.latestStatusSnapshotId)
      (hsnapshots : s'.statusSnapshots = s.statusSnapshots)
      (hroots : s'.statusSnapshotIdForRoot = s.statusSnapshotIdForRoot) :
      Step s s' call event

namespace State

theorem activeIssuerKey_eq_ok {i : Bytes32} {issuer : IssuerKey} :
    s.activeIssuerKey i = .ok issuer ↔
      (s.issuerKeys i).registered = true ∧ (s.issuerKeys i).active = true ∧
        issuer = s.issuerKeys i := by
  simp only [activeIssuerKey, registeredIssuerKey, bind_eq_ok, revertIf_eq_ok, exists_const,
    pure_eq_ok, Bool.not_eq_false]
  constructor
  · rintro ⟨issuer', ⟨hregistered, rfl⟩, hactive, rfl⟩
    exact ⟨hregistered, hactive, rfl⟩
  · rintro ⟨hregistered, hactive, rfl⟩
    exact ⟨_, ⟨hregistered, rfl⟩, hactive, rfl⟩

theorem emitted_eq_ok {result : Except Error (State base × Event)} {event : Option Event} :
    emitted result = .ok (s', event) ↔ ∃ e, result = .ok (s', e) ∧ some e = event := by
  rw [emitted, map_eq_ok]
  constructor
  · rintro ⟨⟨s, e⟩, hresult, heq⟩
    cases heq
    exact ⟨e, hresult, rfl⟩
  · rintro ⟨e, hresult, rfl⟩
    exact ⟨(s', e), hresult, rfl⟩

-- One call is one step.
theorem execute_step {call : Call base} {event : Option Event}
    (h : s.execute env call = .ok (s', event)) : Step s s' call event := by
  cases call with
  | ownership call =>
    simp only [execute, ownableCall] at h
    split at h
    · cases h
      exact .unrelated _ _ (fun _ => rfl) (fun _ => rfl) (by simp) (by simp) rfl rfl rfl rfl rfl rfl rfl
    · cases h
  | registerIssuerKey i =>
    simp only [execute, emitted_eq_ok, registerIssuerKey, onlyOwner, bind_eq_ok, revertIf_eq_ok,
      exists_const, pure_eq_ok, Bool.not_eq_true] at h
    obtain ⟨e, ⟨-, -, hnew, heq⟩, rfl⟩ := h
    cases heq
    exact .registered i hnew rfl
  | retireIssuerKey i =>
    simp only [execute, emitted_eq_ok, retireIssuerKey, onlyOwner, bind_eq_ok, revertIf_eq_ok,
      exists_const, pure_eq_ok, activeIssuerKey_eq_ok] at h
    obtain ⟨e, ⟨-, issuer, ⟨hregistered, -, rfl⟩, heq⟩, rfl⟩ := h
    cases heq
    exact .retired i hregistered rfl
  | authorizeIssuanceAuthority i authority =>
    simp only [execute, emitted_eq_ok, authorizeIssuanceAuthority, bind_eq_ok, pure_eq_ok] at h
    obtain ⟨e, ⟨-, -, -, -, -, -, -, -, heq⟩, rfl⟩ := h
    cases heq
    exact .unrelated _ _ (fun _ => rfl) (fun _ => rfl) (by simp) (by simp) rfl rfl rfl rfl rfl rfl rfl
  | retireIssuanceAuthority i authority =>
    simp only [execute, emitted_eq_ok, retireIssuanceAuthority, bind_eq_ok, pure_eq_ok] at h
    obtain ⟨e, ⟨-, -, -, -, _, -, heq⟩, rfl⟩ := h
    cases heq
    exact .unrelated _ _ (fun _ => rfl) (fun _ => rfl) (by simp) (by simp) rfl rfl rfl rfl rfl rfl rfl
  | authorizeStatusPublisher i publisher =>
    simp only [execute, emitted_eq_ok, authorizeStatusPublisher, bind_eq_ok, pure_eq_ok] at h
    obtain ⟨e, ⟨-, -, -, -, -, -, -, -, heq⟩, rfl⟩ := h
    cases heq
    exact .unrelated _ _ (fun _ => rfl) (fun _ => rfl) (by simp) (by simp) rfl rfl rfl rfl rfl rfl rfl
  | retireStatusPublisher i publisher =>
    simp only [execute, emitted_eq_ok, retireStatusPublisher, bind_eq_ok, pure_eq_ok] at h
    obtain ⟨e, ⟨-, -, -, -, _, -, heq⟩, rfl⟩ := h
    cases heq
    exact .unrelated _ _ (fun _ => rfl) (fun _ => rfl) (by simp) (by simp) rfl rfl rfl rfl rfl rfl rfl
  | allocateCredential i key commitment expectedStatusId expectedEpoch =>
    simp only [execute, emitted_eq_ok, allocateCredential, bind_eq_ok, revertIf_eq_ok,
      exists_const, pure_eq_ok, activeIssuerKey_eq_ok, not_not, Bool.not_eq_true] at h
    obtain ⟨e, ⟨issuer, ⟨hregistered, hactive, rfl⟩, -, -, -, -, -, hkey, -, hused, hslots, -,
      epoch, -, -, heq⟩, rfl⟩ := h
    cases heq
    exact .allocated ⟨i, key, commitment, _, epoch⟩ _ _ hregistered hactive hkey hused hslots
      rfl rfl
  | publishStatusSnapshot i expectedNextStatusId root =>
    simp only [execute, emitted_eq_ok, publishStatusSnapshot, bind_eq_ok, revertIf_eq_ok,
      exists_const, pure_eq_ok, activeIssuerKey_eq_ok, not_not, not_or] at h
    obtain ⟨e, ⟨issuer, ⟨hregistered, hactive, rfl⟩, -, -, -, -, hroot, -, -, hnew, hlatest, -,
      heq⟩, rfl⟩ := h
    cases heq
    exact .published ⟨i, _, root, _⟩ _ _ _ hregistered hactive hroot.1 hnew hlatest rfl rfl rfl
  | revokeStatusSnapshot i id =>
    simp only [execute, emitted_eq_ok, revokeStatusSnapshot, bind_eq_ok, revertIf_eq_ok,
      exists_const, pure_eq_ok] at h
    obtain ⟨e, ⟨-, -, -, -, hroot, -, heq⟩, rfl⟩ := h
    cases heq
    exact .revoked i id _ hroot rfl

end State

-- What a run does to the list of the records of one kind.
theorem run_invariant {P : World base → Prop} {ownership : base.State}
    (hnew : P ⟨new ownership, []⟩)
    (hstep : ∀ (w : World base) env call s' event, Step w.state s' call event → P w →
      P ⟨s', w.history ++ [⟨env, call, event⟩]⟩)
    (calls : List (Env × Call base)) : P (run ownership calls) := by
  refine Run.foldl_invariant ?_ calls hnew
  intro w c hw
  rw [World.call]
  split
  · next s' event hexecute => exact hstep w c.1 c.2 s' event (State.execute_step hexecute) hw
  · exact hw

abbrev ofIssuer (i : Bytes32) (as : List Allocation) : List Allocation :=
  as.filter fun a => a.issuerKeyId = i

theorem ofIssuer_append (i : Bytes32) (as : List Allocation) (a : Allocation) :
    ofIssuer i (as ++ [a]) = ofIssuer i as ++ if a.issuerKeyId = i then [a] else [] := by
  simp [ofIssuer, List.filter_append, List.filter_cons]

-- What the mappings say about the allocations made so far.
structure Allocated (s : State base) (as : List Allocation) : Prop where
  idle : ∀ i, (s.issuerKeys i).registered = false →
    (s.issuerKeys i).nextStatusId = 0 ∧ (s.issuerKeys i).active = false ∧ ofIssuer i as = []
  next : ∀ i, (s.issuerKeys i).registered = true →
    (s.issuerKeys i).nextStatusId.toNat = 1 + (ofIssuer i as).length
  slots : ∀ i, (s.issuerKeys i).nextStatusId.toNat ≤ 2 ^ 32
  numbered : ∀ i, Numbered 1 (fun a => a.statusId.toNat) (ofIssuer i as)
  issuances : ∀ a ∈ as, s.issuances a.duplicateKey =
    ⟨a.issuerKeyId, a.credentialCommitment, a.statusId, a.issuedAtEpoch⟩
  used : ∀ c, s.credentialCommitmentUsed c = true ↔ c ∈ as.map (·.credentialCommitment)
  commitmentAt : ∀ a ∈ as,
    s.credentialCommitmentAt a.issuerKeyId a.statusId = a.credentialCommitment
  duplicateKeys : (as.map (·.duplicateKey)).Nodup
  commitments : (as.map (·.credentialCommitment)).Nodup

namespace Allocated

variable {as : List Allocation}

theorem new (ownership : base.State) : Allocated (new ownership) [] where
  idle _ _ := ⟨rfl, rfl, rfl⟩
  next _ h := by cases h
  slots _ := by simp [ZkIdentityIssuanceRegistry.new]
  numbered _ := .nil
  issuances _ h := by cases h
  used _ := by simp [ZkIdentityIssuanceRegistry.new]
  commitmentAt _ h := by cases h
  duplicateKeys := List.nodup_nil
  commitments := List.nodup_nil

-- Only the issuers, the issuances and the commitments matter.
theorem congr (h : Allocated s as) (hkeys : s'.issuerKeys = s.issuerKeys)
    (hissuances : s'.issuances = s.issuances)
    (hused : s'.credentialCommitmentUsed = s.credentialCommitmentUsed)
    (hat : s'.credentialCommitmentAt = s.credentialCommitmentAt) : Allocated s' as where
  idle := by rw [hkeys]; exact h.idle
  next := by rw [hkeys]; exact h.next
  slots := by rw [hkeys]; exact h.slots
  numbered := h.numbered
  issuances := by rw [hissuances]; exact h.issuances
  used := by rw [hused]; exact h.used
  commitmentAt := by rw [hat]; exact h.commitmentAt
  duplicateKeys := h.duplicateKeys
  commitments := h.commitments

theorem registerIssuerKey (h : Allocated s as) {i : Bytes32}
    (hnew : (s.issuerKeys i).registered = false) :
    Allocated { s with issuerKeys := Function.update s.issuerKeys i ⟨true, true, 1⟩ } as := by
  refine { h with idle := ?_, next := ?_, slots := ?_ }
  · intro j hj
    rcases eq_or_ne j i with rfl | hne
    · simp at hj
    · simp only [Function.update_of_ne hne] at hj ⊢
      exact h.idle j hj
  · intro j hj
    rcases eq_or_ne j i with rfl | hne
    · simp [(h.idle j hnew).2.2]
    · simp only [Function.update_of_ne hne] at hj ⊢
      exact h.next j hj
  · intro j
    rcases eq_or_ne j i with rfl | hne
    · simp
    · simp only [Function.update_of_ne hne]
      exact h.slots j

theorem retireIssuerKey (h : Allocated s as) {i : Bytes32}
    (hregistered : (s.issuerKeys i).registered = true) :
    Allocated { s with
      issuerKeys := Function.update s.issuerKeys i
        { s.issuerKeys i with active := false } } as := by
  refine { h with idle := ?_, next := ?_, slots := ?_ }
  · intro j hj
    rcases eq_or_ne j i with rfl | hne
    · simp [hregistered] at hj
    · simp only [Function.update_of_ne hne] at hj ⊢
      exact h.idle j hj
  · intro j hj
    rcases eq_or_ne j i with rfl | hne
    · simpa using h.next j hregistered
    · simp only [Function.update_of_ne hne] at hj ⊢
      exact h.next j hj
  · intro j
    rcases eq_or_ne j i with rfl | hne
    · simpa using h.slots j
    · simp only [Function.update_of_ne hne]
      exact h.slots j

-- The slot of an allocation is never zero.
theorem statusId_ne_zero (h : Allocated s as) {a : Allocation} (ha : a ∈ as) :
    a.statusId ≠ 0 := by
  intro hzero
  have hbounds := (h.numbered a.issuerKeyId).bounds (List.mem_filter.mpr ⟨ha, by simp⟩)
  simp only [hzero] at hbounds
  exact absurd hbounds.1 (by decide)

theorem allocateCredential (h : Allocated s as) {a : Allocation}
    (hregistered : (s.issuerKeys a.issuerKeyId).registered = true)
    (hkey : (s.issuances a.duplicateKey).statusId = 0)
    (hcommitment : s.credentialCommitmentUsed a.credentialCommitment = false)
    (hslots : ¬0xFFFFFFFF#64 < (s.issuerKeys a.issuerKeyId).nextStatusId)
    (hid : a.statusId = (s.issuerKeys a.issuerKeyId).nextStatusId.setWidth 32) :
    Allocated { s with
      issuerKeys := Function.update s.issuerKeys a.issuerKeyId
        { s.issuerKeys a.issuerKeyId with
          nextStatusId := (s.issuerKeys a.issuerKeyId).nextStatusId + 1 }
      issuances := Function.update s.issuances a.duplicateKey
        ⟨a.issuerKeyId, a.credentialCommitment, a.statusId, a.issuedAtEpoch⟩
      credentialCommitmentUsed :=
        Function.update s.credentialCommitmentUsed a.credentialCommitment true
      credentialCommitmentAt :=
        set₂ s.credentialCommitmentAt a.issuerKeyId a.statusId a.credentialCommitment }
      (as ++ [a]) := by
  have hnext := h.next a.issuerKeyId hregistered
  have hlt : (s.issuerKeys a.issuerKeyId).nextStatusId.toNat < 2 ^ 32 := by
    simpa [BitVec.lt_def, Nat.lt_succ_iff] using hslots
  have hstatus : a.statusId.toNat = 1 + (ofIssuer a.issuerKeyId as).length := by
    rw [hid, BitVec.toNat_setWidth, Nat.mod_eq_of_lt hlt, hnext]
  have hsucc : ((s.issuerKeys a.issuerKeyId).nextStatusId + 1).toNat =
      (s.issuerKeys a.issuerKeyId).nextStatusId.toNat + 1 :=
    Word.toNat_succ_of_ne_max (by omega)
  have hfreshKey : ∀ b ∈ as, b.duplicateKey ≠ a.duplicateKey := by
    intro b hb heq
    have hused := h.issuances b hb
    rw [heq] at hused
    rw [hused] at hkey
    exact h.statusId_ne_zero hb hkey
  have hfreshCommitment : a.credentialCommitment ∉ as.map (·.credentialCommitment) := by
    rw [← h.used, hcommitment]
    decide
  constructor
  case idle =>
    intro j hj
    rcases eq_or_ne j a.issuerKeyId with rfl | hne
    · simp [hregistered] at hj
    · simp only [Function.update_of_ne hne] at hj ⊢
      simpa [ofIssuer_append, hne.symm] using h.idle j hj
  case next =>
    intro j hj
    rcases eq_or_ne j a.issuerKeyId with rfl | hne
    · simp only [Function.update_self, ofIssuer_append, if_true, List.length_append,
        List.length_singleton, hsucc]
      omega
    · simp only [Function.update_of_ne hne] at hj ⊢
      simpa [ofIssuer_append, hne.symm] using h.next j hj
  case slots =>
    intro j
    rcases eq_or_ne j a.issuerKeyId with rfl | hne
    · simp only [Function.update_self, hsucc]
      omega
    · simp only [Function.update_of_ne hne]
      exact h.slots j
  case numbered =>
    intro j
    rw [ofIssuer_append]
    split
    · next heq =>
      subst heq
      exact (h.numbered _).concat hstatus
    · simpa using h.numbered j
  case issuances =>
    intro b hb
    rcases List.mem_append.mp hb with hold | hnew
    · simp only [Function.update_of_ne (hfreshKey b hold)]
      exact h.issuances b hold
    · obtain rfl := List.mem_singleton.mp hnew
      simp
  case used =>
    intro c
    simp only [Function.update_apply, List.map_append, List.mem_append, ← h.used c]
    split <;> simp_all
  case commitmentAt =>
    intro b hb
    rcases List.mem_append.mp hb with hold | hnew
    · refine (set₂_of_ne ?_).trans (h.commitmentAt b hold)
      intro hissuer hstatusId
      have hbound := (h.numbered b.issuerKeyId).bounds (List.mem_filter.mpr ⟨hold, by simp⟩)
      rw [hstatusId, hstatus, hissuer] at hbound
      omega
    · obtain rfl := List.mem_singleton.mp hnew
      simp
  case duplicateKeys =>
    simp only [List.map_append, List.map_cons, List.map_nil]
    refine List.nodup_append'.mpr ⟨h.duplicateKeys, List.nodup_singleton _, ?_⟩
    simpa using hfreshKey
  case commitments =>
    simp only [List.map_append, List.map_cons, List.map_nil]
    refine List.nodup_append'.mpr ⟨h.commitments, List.nodup_singleton _, ?_⟩
    simpa using hfreshCommitment

end Allocated

abbrev snapshotsOf (i : Bytes32) (ps : List Publication) : List Publication :=
  ps.filter fun p => p.issuerKeyId = i

theorem snapshotsOf_append (i : Bytes32) (ps : List Publication) (p : Publication) :
    snapshotsOf i (ps ++ [p]) = snapshotsOf i ps ++ if p.issuerKeyId = i then [p] else [] := by
  simp [snapshotsOf, List.filter_append, List.filter_cons]

-- What the mappings say about the snapshots published so far.
structure Published (s : State base) (as : List Allocation) (ps : List Publication) :
    Prop where
  latest : ∀ i, (s.latestStatusSnapshotId i).toNat = (snapshotsOf i ps).length
  numbered : ∀ i, Numbered 1 (fun p => p.snapshotId.toNat) (snapshotsOf i ps)
  stored : ∀ p ∈ ps, (s.statusSnapshots p.issuerKeyId p.snapshotId).root = p.root ∧
    (s.statusSnapshots p.issuerKeyId p.snapshotId).activatedThroughStatusId =
      p.activatedThroughStatusId
  known : ∀ i id, (s.statusSnapshots i id).root ≠ 0 →
    ∃ p ∈ ps, p.issuerKeyId = i ∧ p.snapshotId = id
  nonzero : ∀ p ∈ ps, p.root ≠ 0
  rootId : ∀ p ∈ ps, s.statusSnapshotIdForRoot p.issuerKeyId p.root = p.snapshotId
  sorted : ∀ i, (snapshotsOf i ps).Pairwise fun p q =>
    p.activatedThroughStatusId.toNat ≤ q.activatedThroughStatusId.toNat
  covered : ∀ p ∈ ps, p.activatedThroughStatusId.toNat ≤ (ofIssuer p.issuerKeyId as).length

namespace Published

variable {as : List Allocation} {ps : List Publication}

theorem new (ownership : base.State) : Published (new ownership) [] [] where
  latest _ := rfl
  numbered _ := .nil
  stored _ h := by cases h
  known _ _ h := absurd rfl h
  nonzero _ h := by cases h
  rootId _ h := by cases h
  sorted _ := List.Pairwise.nil
  covered _ h := by cases h

-- More allocations do no harm, and of the snapshots only the roots and the ids matter.
theorem mono (h : Published s as ps) {as' : List Allocation}
    (hlatest : s'.latestStatusSnapshotId = s.latestStatusSnapshotId)
    (hroots : s'.statusSnapshotIdForRoot = s.statusSnapshotIdForRoot)
    (hroot : ∀ i id, (s'.statusSnapshots i id).root = (s.statusSnapshots i id).root)
    (hactivated : ∀ i id, (s'.statusSnapshots i id).activatedThroughStatusId =
      (s.statusSnapshots i id).activatedThroughStatusId)
    (has : ∀ i, (ofIssuer i as).length ≤ (ofIssuer i as').length) : Published s' as' ps where
  latest := by rw [hlatest]; exact h.latest
  numbered := h.numbered
  stored p hp := by rw [hroot, hactivated]; exact h.stored p hp
  known i id := by rw [hroot]; exact h.known i id
  nonzero := h.nonzero
  rootId := by rw [hroots]; exact h.rootId
  sorted := h.sorted
  covered p hp := (h.covered p hp).trans (has _)

theorem bounds (h : Published s as ps) {p : Publication} (hp : p ∈ ps) :
    1 ≤ p.snapshotId.toNat ∧
      p.snapshotId.toNat ≤ (s.latestStatusSnapshotId p.issuerKeyId).toNat := by
  have hbounds := (h.numbered p.issuerKeyId).bounds (List.mem_filter.mpr ⟨hp, by simp⟩)
  rw [h.latest]
  omega

theorem publishStatusSnapshot (h : Published s as ps) (ha : Allocated s as) {p : Publication}
    (publishedAt : BitVec 64)
    (hregistered : (s.issuerKeys p.issuerKeyId).registered = true) (hroot : p.root ≠ 0)
    (hnew : s.statusSnapshotIdForRoot p.issuerKeyId p.root = 0)
    (hlatest : s.latestStatusSnapshotId p.issuerKeyId ≠ 0xFFFFFFFF#32)
    (hid : p.snapshotId = s.latestStatusSnapshotId p.issuerKeyId + 1)
    (hactivated : p.activatedThroughStatusId =
      ((s.issuerKeys p.issuerKeyId).nextStatusId - 1).setWidth 32) :
    Published { s with
      latestStatusSnapshotId :=
        Function.update s.latestStatusSnapshotId p.issuerKeyId p.snapshotId
      statusSnapshotIdForRoot :=
        set₂ s.statusSnapshotIdForRoot p.issuerKeyId p.root p.snapshotId
      statusSnapshots := set₂ s.statusSnapshots p.issuerKeyId p.snapshotId
        ⟨p.root, p.activatedThroughStatusId, publishedAt, false⟩ }
      as (ps ++ [p]) := by
  have hlen := h.latest p.issuerKeyId
  have hsnapshot : p.snapshotId.toNat = 1 + (snapshotsOf p.issuerKeyId ps).length := by
    have hlt : (s.latestStatusSnapshotId p.issuerKeyId).toNat + 1 < 2 ^ 32 := by
      have hne : (s.latestStatusSnapshotId p.issuerKeyId).toNat ≠ 0xFFFFFFFF := fun heq =>
        hlatest (BitVec.eq_of_toNat_eq heq)
      have hbound := (s.latestStatusSnapshotId p.issuerKeyId).isLt
      omega
    have hsucc : (s.latestStatusSnapshotId p.issuerKeyId + 1).toNat =
        (s.latestStatusSnapshotId p.issuerKeyId).toNat + 1 := Word.toNat_succ_of_ne_max hlt
    rw [hid, hsucc]
    omega
  have hcovered : p.activatedThroughStatusId.toNat = (ofIssuer p.issuerKeyId as).length := by
    have hnext := ha.next p.issuerKeyId hregistered
    have hslots := ha.slots p.issuerKeyId
    have hsub : ((s.issuerKeys p.issuerKeyId).nextStatusId - 1).toNat =
        (s.issuerKeys p.issuerKeyId).nextStatusId.toNat - 1 := by
      refine Word.toNat_sub_of_le ?_
      rw [BitVec.le_def, hnext]
      simp
    rw [hactivated, BitVec.toNat_setWidth, hsub, Nat.mod_eq_of_lt (by omega), hnext]
    omega
  have hbefore : ∀ q ∈ ps, q.issuerKeyId = p.issuerKeyId →
      q.snapshotId.toNat < p.snapshotId.toNat := by
    intro q hq hissuer
    have hbounds := h.bounds hq
    rw [hissuer] at hbounds
    omega
  constructor
  case latest =>
    intro j
    rw [snapshotsOf_append]
    rcases eq_or_ne j p.issuerKeyId with rfl | hne
    · simp only [Function.update_self, if_true, List.length_append, List.length_singleton]
      omega
    · simp only [Function.update_of_ne hne, if_neg hne.symm, List.append_nil]
      exact h.latest j
  case numbered =>
    intro j
    rw [snapshotsOf_append]
    split
    · next heq =>
      subst heq
      exact (h.numbered _).concat hsnapshot
    · simpa using h.numbered j
  case stored =>
    intro q hq
    rcases List.mem_append.mp hq with hold | hlast
    · have hne : q.issuerKeyId = p.issuerKeyId → q.snapshotId ≠ p.snapshotId := by
        intro hissuer heq
        have hlt := hbefore q hold hissuer
        rw [heq] at hlt
        omega
      simp only [set₂_of_ne hne]
      exact h.stored q hold
    · obtain rfl := List.mem_singleton.mp hlast
      simp
  case known =>
    intro j id hstored
    simp only [set₂_apply] at hstored
    split at hstored
    · next heq => exact ⟨p, by simp, heq.1.symm, heq.2.symm⟩
    · obtain ⟨q, hq, hkey⟩ := h.known j id hstored
      exact ⟨q, List.mem_append_left _ hq, hkey⟩
  case nonzero =>
    intro q hq
    rcases List.mem_append.mp hq with hold | hlast
    · exact h.nonzero q hold
    · obtain rfl := List.mem_singleton.mp hlast
      exact hroot
  case rootId =>
    intro q hq
    rcases List.mem_append.mp hq with hold | hlast
    · refine (set₂_of_ne ?_).trans (h.rootId q hold)
      intro hissuer hsame
      have hzero := h.rootId q hold
      rw [hissuer, hsame, hnew] at hzero
      have hbounds := (h.bounds hold).1
      rw [← hzero] at hbounds
      exact absurd hbounds (by decide)
    · obtain rfl := List.mem_singleton.mp hlast
      simp
  case sorted =>
    intro j
    rw [snapshotsOf_append]
    split
    · next heq =>
      subst heq
      refine List.pairwise_append.mpr ⟨h.sorted _, List.pairwise_singleton _ _, ?_⟩
      intro q hq q' hq'
      obtain ⟨hmem, hissuer⟩ := List.mem_filter.mp hq
      obtain rfl := List.mem_singleton.mp hq'
      rw [hcovered, ← of_decide_eq_true hissuer]
      exact h.covered q hmem
    · simpa using h.sorted j
  case covered =>
    intro q hq
    rcases List.mem_append.mp hq with hold | hlast
    · exact h.covered q hold
    · obtain rfl := List.mem_singleton.mp hlast
      exact hcovered.le

end Published

namespace State

def Retired (s : State base) (i : Bytes32) : Prop :=
  (s.issuerKeys i).registered = true ∧ (s.issuerKeys i).active = false

def Revoked (s : State base) (i : Bytes32) (id : BitVec 32) : Prop :=
  (s.statusSnapshots i id).root ≠ 0 ∧ (s.statusSnapshots i id).revoked = true

end State

namespace Step

variable {call : Call base} {event : Option Event}

-- A retired issuer cannot be registered again, and no other call activates an issuer.
theorem keeps_retired (hs : Step s s' call event) {i : Bytes32} (h : s.Retired i) :
    s'.Retired i := by
  obtain ⟨hregistered, hinactive⟩ := h
  cases hs with
  | registered j hnew hs =>
    subst hs
    have hne : i ≠ j := by
      rintro rfl
      rw [hregistered] at hnew
      cases hnew
    simpa [State.Retired, hne] using ⟨hregistered, hinactive⟩
  | retired j hj hs =>
    subst hs
    rcases eq_or_ne i j with rfl | hne
    · simpa [State.Retired] using hregistered
    · simpa [State.Retired, hne] using ⟨hregistered, hinactive⟩
  | allocated a _ _ hj hactive _ _ _ _ hs =>
    subst hs
    have hne : i ≠ a.issuerKeyId := by
      rintro rfl
      rw [hactive] at hinactive
      cases hinactive
    simpa [State.Retired, hne] using ⟨hregistered, hinactive⟩
  | published _ _ _ _ _ _ _ _ _ _ _ hs =>
    subst hs
    exact ⟨hregistered, hinactive⟩
  | revoked _ _ _ _ hs =>
    subst hs
    exact ⟨hregistered, hinactive⟩
  | unrelated _ _ _ _ _ _ hkeys _ _ _ _ _ _ =>
    rw [State.Retired, hkeys]
    exact ⟨hregistered, hinactive⟩

-- A publication takes an id that no snapshot has, so it cannot clear the mark.
theorem keeps_revoked (hs : Step s s' call event) {as : List Allocation}
    {ps : List Publication} (hp : Published s as ps) {i : Bytes32} {id : BitVec 32}
    (h : s.Revoked i id) : s'.Revoked i id := by
  cases hs with
  | registered _ _ hs =>
    subst hs
    exact h
  | retired _ _ hs =>
    subst hs
    exact h
  | allocated _ _ _ _ _ _ _ _ _ hs =>
    subst hs
    exact h
  | published p _ _ _ _ _ _ _ hlatest hid _ hs =>
    subst hs
    have hne : i = p.issuerKeyId → id ≠ p.snapshotId := by
      rintro rfl rfl
      obtain ⟨q, hq, hissuer, hsame⟩ := hp.known _ _ h.1
      have hbounds := hp.bounds hq
      have hne : (s.latestStatusSnapshotId p.issuerKeyId).toNat ≠ 0xFFFFFFFF := fun heq =>
        hlatest (BitVec.eq_of_toNat_eq heq)
      have hbound := (s.latestStatusSnapshotId p.issuerKeyId).isLt
      have hsucc : (s.latestStatusSnapshotId p.issuerKeyId + 1).toNat =
          (s.latestStatusSnapshotId p.issuerKeyId).toNat + 1 :=
        Word.toNat_succ_of_ne_max (by omega)
      rw [hsame, hissuer, hid, hsucc] at hbounds
      omega
    simpa only [State.Revoked, set₂_of_ne hne] using h
  | revoked j id' _ _ hs =>
    subst hs
    simp only [State.Revoked, set₂_apply]
    split
    · next heq =>
      obtain ⟨rfl, rfl⟩ := heq
      exact ⟨h.1, rfl⟩
    · exact h
  | unrelated _ _ _ _ _ _ _ _ _ _ _ hsnapshots _ =>
    rw [State.Revoked, hsnapshots]
    exact h

theorem retires {i : Bytes32} (hs : Step s s' (.retireIssuerKey i) event) : s'.Retired i := by
  cases hs with
  | retired _ hregistered hs =>
    subst hs
    simpa [State.Retired] using hregistered
  | unrelated _ _ _ _ hretire => exact absurd rfl (hretire i)

theorem revokes {i : Bytes32} {id : BitVec 32}
    (hs : Step s s' (.revokeStatusSnapshot i id) event) : s'.Revoked i id := by
  cases hs with
  | revoked _ _ _ hroot hs =>
    subst hs
    simpa [State.Revoked] using hroot
  | unrelated _ _ _ _ _ hrevoke => exact absurd rfl (hrevoke i id)

end Step

-- The mappings mirror the history, and what the history retired or revoked is closed.
structure Coherent (w : World base) : Prop where
  allocated : Allocated w.state w.allocations
  published : Published w.state w.allocations w.publications
  retired : ∀ e ∈ w.history, ∀ i, e.call = .retireIssuerKey i → w.state.Retired i
  revoked : ∀ e ∈ w.history, ∀ i id, e.call = .revokeStatusSnapshot i id →
    w.state.Revoked i id

namespace Coherent

theorem new (ownership : base.State) :
    Coherent (⟨ZkIdentityIssuanceRegistry.new ownership, []⟩ : World base) where
  allocated := .new ownership
  published := .new ownership
  retired _ h := by cases h
  revoked _ h := by cases h

theorem records (w : World base) (e : Executed base) :
    World.allocations ⟨s', w.history ++ [e]⟩ = w.allocations ++ e.allocation?.toList ∧
      World.publications ⟨s', w.history ++ [e]⟩ = w.publications ++ e.publication?.toList := by
  constructor
  · cases h : e.allocation? <;> simp [World.allocations, h]
  · cases h : e.publication? <;> simp [World.publications, h]

theorem step {w : World base} {call : Call base} {event : Option Event} (hw : Coherent w)
    (hs : Step w.state s' call event) :
    Coherent (⟨s', w.history ++ [⟨env, call, event⟩]⟩ : World base) := by
  have hboth : Allocated s' (w.allocations ++ (Executed.allocation? ⟨env, call, event⟩).toList) ∧
      Published s' (w.allocations ++ (Executed.allocation? ⟨env, call, event⟩).toList)
        (w.publications ++ (Executed.publication? ⟨env, call, event⟩).toList) := by
    obtain ⟨ha, hp, -, -⟩ := hw
    cases hs with
    | registered i hnew hs =>
      subst hs
      simp only [Executed.allocation?, Executed.publication?, Option.toList_none,
        List.append_nil]
      exact ⟨ha.registerIssuerKey hnew,
        hp.mono rfl rfl (fun _ _ => rfl) (fun _ _ => rfl) fun _ => le_rfl⟩
    | retired i hregistered hs =>
      subst hs
      simp only [Executed.allocation?, Executed.publication?, Option.toList_none,
        List.append_nil]
      exact ⟨ha.retireIssuerKey hregistered,
        hp.mono rfl rfl (fun _ _ => rfl) (fun _ _ => rfl) fun _ => le_rfl⟩
    | allocated a _ _ hregistered _ hkey hcommitment hslots hid hs =>
      subst hs
      simp only [Executed.allocation?, Executed.publication?, Option.toList_none,
        Option.toList_some, List.append_nil]
      refine ⟨ha.allocateCredential hregistered hkey hcommitment hslots hid,
        hp.mono rfl rfl (fun _ _ => rfl) (fun _ _ => rfl) fun i => ?_⟩
      rw [ofIssuer_append, List.length_append]
      exact Nat.le_add_right _ _
    | published p publishedAt _ _ hregistered _ hroot hnew hlatest hid hactivated hs =>
      subst hs
      simp only [Executed.allocation?, Executed.publication?, Option.toList_none,
        Option.toList_some, List.append_nil]
      exact ⟨ha.congr rfl rfl rfl rfl,
        hp.publishStatusSnapshot ha publishedAt hregistered hroot hnew hlatest hid hactivated⟩
    | revoked i id _ _ hs =>
      subst hs
      simp only [Executed.allocation?, Executed.publication?, Option.toList_none,
        List.append_nil]
      refine ⟨ha.congr rfl rfl rfl rfl, hp.mono rfl rfl ?_ ?_ fun _ => le_rfl⟩
      · intro j id'
        simp only [set₂_apply]
        split
        · next heq => rw [heq.1, heq.2]
        · rfl
      · intro j id'
        simp only [set₂_apply]
        split
        · next heq => rw [heq.1, heq.2]
        · rfl
    | unrelated _ _ hallocation hpublication _ _ hkeys hissuances hused hat hlatest hsnapshots
        hroots =>
      rw [hallocation, hpublication]
      simp only [Option.toList_none, List.append_nil]
      exact ⟨ha.congr hkeys hissuances hused hat,
        hp.mono hlatest hroots (fun _ _ => by rw [hsnapshots]) (fun _ _ => by rw [hsnapshots])
          fun _ => le_rfl⟩
  obtain ⟨hallocations, hpublications⟩ := @records _ s' w ⟨env, call, event⟩
  constructor
  case allocated => exact hallocations ▸ hboth.1
  case published => exact hallocations ▸ hpublications ▸ hboth.2
  case retired =>
    intro e he i hcall
    rcases List.mem_append.mp he with hold | hlast
    · exact hs.keeps_retired (hw.retired e hold i hcall)
    · obtain rfl := List.mem_singleton.mp hlast
      subst hcall
      exact hs.retires
  case revoked =>
    intro e he i id hcall
    rcases List.mem_append.mp he with hold | hlast
    · exact hs.keeps_revoked hw.published (hw.revoked e hold i id hcall)
    · obtain rfl := List.mem_singleton.mp hlast
      subst hcall
      exact hs.revokes

theorem run (ownership : base.State) (calls : List (Env × Call base)) :
    Coherent (run ownership calls) :=
  run_invariant (new ownership) (fun _ _ _ _ _ hs hw => hw.step hs) calls

end Coherent

namespace Published

variable {as : List Allocation} {ps : List Publication}

-- The snapshots that are stored are those up to the latest id.
theorem stored_iff (h : Published s as ps) (i : Bytes32) (id : BitVec 32) :
    (s.statusSnapshots i id).root ≠ 0 ↔
      1 ≤ id.toNat ∧ id.toNat ≤ (s.latestStatusSnapshotId i).toNat := by
  constructor
  · intro hroot
    obtain ⟨p, hp, rfl, rfl⟩ := h.known i id hroot
    exact h.bounds hp
  · rintro ⟨hlow, hhigh⟩
    rw [h.latest] at hhigh
    obtain ⟨p, hp, hid⟩ := List.mem_map.mp ((h.numbered i).mem_map_iff.mpr ⟨hlow, by omega⟩)
    obtain ⟨hmem, hissuer⟩ := List.mem_filter.mp hp
    obtain rfl := of_decide_eq_true hissuer
    obtain rfl := BitVec.eq_of_toNat_eq hid
    rw [(h.stored p hmem).1]
    exact h.nonzero p hmem

-- A root is looked up under the one snapshot that has it.
theorem root_unique (h : Published s as ps) {i : Bytes32} {id id' : BitVec 32}
    (hroot : (s.statusSnapshots i id).root ≠ 0)
    (heq : (s.statusSnapshots i id).root = (s.statusSnapshots i id').root) : id = id' := by
  obtain ⟨p, hp, rfl, rfl⟩ := h.known i id hroot
  obtain ⟨q, hq, hissuer, rfl⟩ := h.known _ id' (heq ▸ hroot)
  have hstored := (h.stored q hq).1
  rw [hissuer, ← heq, (h.stored p hp).1] at hstored
  rw [← h.rootId p hp, ← h.rootId q hq, ← hstored, hissuer]

-- Of two snapshots, the later one covers at least the slots of the earlier one.
theorem activated_mono (h : Published s as ps) {i : Bytes32} {id id' : BitVec 32}
    (hroot : (s.statusSnapshots i id).root ≠ 0) (hroot' : (s.statusSnapshots i id').root ≠ 0)
    (hle : id.toNat ≤ id'.toNat) :
    (s.statusSnapshots i id).activatedThroughStatusId.toNat ≤
      (s.statusSnapshots i id').activatedThroughStatusId.toNat := by
  obtain ⟨p, hp, rfl, rfl⟩ := h.known i id hroot
  obtain ⟨q, hq, hissuer, rfl⟩ := h.known _ id' hroot'
  have hp' : p ∈ snapshotsOf p.issuerKeyId ps := List.mem_filter.mpr ⟨hp, by simp⟩
  have hq' : q ∈ snapshotsOf p.issuerKeyId ps := List.mem_filter.mpr ⟨hq, by simpa using hissuer⟩
  have hqs := (h.stored q hq).2
  rw [hissuer] at hqs
  rw [(h.stored p hp).2, hqs]
  obtain ⟨j, hj, hpj⟩ := List.getElem_of_mem hp'
  obtain ⟨k, hk, hqk⟩ := List.getElem_of_mem hq'
  have hpid := (h.numbered p.issuerKeyId).getElem hj
  have hqid := (h.numbered p.issuerKeyId).getElem hk
  rw [hpj] at hpid
  rw [hqk] at hqid
  rcases (by omega : j < k ∨ j = k) with hlt | rfl
  · have hpair := List.pairwise_iff_getElem.mp (h.sorted p.issuerKeyId) j k hj hk hlt
    rwa [hpj, hqk] at hpair
  · rw [← hpj, ← hqk]

end Published

namespace Allocated

variable {as : List Allocation}

theorem nextStatusId_sub_one (h : Allocated s as) (i : Bytes32) :
    (s.issuerKeys i).nextStatusId.toNat - 1 = (ofIssuer i as).length := by
  cases hregistered : (s.issuerKeys i).registered with
  | false =>
    obtain ⟨hzero, -, hnone⟩ := h.idle i hregistered
    rw [hzero, hnone]
    rfl
  | true =>
    rw [h.next i hregistered]
    omega

end Allocated

namespace State

theorem Retired.not_accepted {i : Bytes32} (h : s.Retired i) (id : BitVec 32) (root : Bytes32) :
    s.isStatusSnapshotAccepted i id root = false := by
  rw [isStatusSnapshotAccepted, if_pos h.2]

theorem Revoked.not_accepted {i : Bytes32} {id : BitVec 32} (h : s.Revoked i id)
    (root : Bytes32) : s.isStatusSnapshotAccepted i id root = false := by
  simp [isStatusSnapshotAccepted, h.2]

theorem Retired.not_active {i : Bytes32} (h : s.Retired i) (issuer : IssuerKey) :
    s.activeIssuerKey i ≠ .ok issuer := by
  intro hok
  obtain ⟨-, hactive, -⟩ := activeIssuerKey_eq_ok.mp hok
  rw [h.2] at hactive
  cases hactive

theorem Retired.not_allocated {i : Bytes32} (h : s.Retired i) (env : Env) (key : Bytes32)
    (commitment : BitVec 256) (id epoch : BitVec 32) (r : State base × Event) :
    s.allocateCredential env i key commitment id epoch ≠ .ok r := by
  intro hok
  rw [allocateCredential, bind_eq_ok] at hok
  obtain ⟨issuer, hissuer, -⟩ := hok
  exact h.not_active issuer hissuer

theorem Retired.not_published {i : Bytes32} (h : s.Retired i) (env : Env) (next : BitVec 64)
    (root : Bytes32) (r : State base × Event) :
    s.publishStatusSnapshot env i next root ≠ .ok r := by
  intro hok
  rw [publishStatusSnapshot, bind_eq_ok] at hok
  obtain ⟨issuer, hissuer, -⟩ := hok
  exact h.not_active issuer hissuer

end State

-- What holds of the registry and the calls behind it, for all issuers together.
structure RegistryInvariants (w : World base) : Prop where
  nextStatusId : ∀ i,
    (w.state.issuerKeys i).nextStatusId.toNat - 1 = (w.allocationsOf i).length
  statusIds : ∀ i, Numbered 1 (fun a => a.statusId.toNat) (w.allocationsOf i)
  duplicateKeys : (w.allocations.map (·.duplicateKey)).Nodup
  commitments : (w.allocations.map (·.credentialCommitment)).Nodup
  commitmentAt : ∀ a ∈ w.allocations,
    w.state.credentialCommitmentAt a.issuerKeyId a.statusId = a.credentialCommitment
  snapshotIds : ∀ i, Numbered 1 (fun p => p.snapshotId.toNat) (w.publicationsOf i)
  snapshots : ∀ i id, (w.state.statusSnapshots i id).root ≠ 0 ↔
    1 ≤ id.toNat ∧ id.toNat ≤ (w.state.latestStatusSnapshotId i).toNat
  activatedThrough : ∀ i id id', (w.state.statusSnapshots i id).root ≠ 0 →
    (w.state.statusSnapshots i id').root ≠ 0 → id.toNat ≤ id'.toNat →
    (w.state.statusSnapshots i id).activatedThroughStatusId.toNat ≤
      (w.state.statusSnapshots i id').activatedThroughStatusId.toNat
  activated_le_allocated : ∀ i id, (w.state.statusSnapshots i id).root ≠ 0 →
    (w.state.statusSnapshots i id).activatedThroughStatusId.toNat ≤ (w.allocationsOf i).length
  roots : ∀ i id id', (w.state.statusSnapshots i id).root ≠ 0 →
    (w.state.statusSnapshots i id).root = (w.state.statusSnapshots i id').root → id = id'
  revoked : ∀ e ∈ w.history, ∀ i id, e.call = .revokeStatusSnapshot i id →
    ∀ root, w.state.isStatusSnapshotAccepted i id root = false
  retired : ∀ e ∈ w.history, ∀ i, e.call = .retireIssuerKey i →
    (∀ id root, w.state.isStatusSnapshotAccepted i id root = false) ∧
    (∀ env key commitment id epoch r,
      w.state.allocateCredential env i key commitment id epoch ≠ .ok r) ∧
    ∀ env next root r, w.state.publishStatusSnapshot env i next root ≠ .ok r

theorem run_registryInvariants (ownership : base.State) (calls : List (Env × Call base)) :
    RegistryInvariants (run ownership calls) := by
  obtain ⟨ha, hp, hretired, hrevoked⟩ := Coherent.run ownership calls
  constructor
  case nextStatusId => exact ha.nextStatusId_sub_one
  case statusIds => exact ha.numbered
  case duplicateKeys => exact ha.duplicateKeys
  case commitments => exact ha.commitments
  case commitmentAt => exact ha.commitmentAt
  case snapshotIds => exact hp.numbered
  case snapshots => exact hp.stored_iff
  case activatedThrough =>
    intro i id id' hroot hroot' hle
    exact hp.activated_mono hroot hroot' hle
  case activated_le_allocated =>
    intro i id hroot
    obtain ⟨p, hmem, rfl, rfl⟩ := hp.known i id hroot
    rw [(hp.stored p hmem).2]
    exact hp.covered p hmem
  case roots =>
    intro i id id' hroot heq
    exact hp.root_unique hroot heq
  case revoked =>
    intro e he i id hcall root
    exact (hrevoked e he i id hcall).not_accepted root
  case retired =>
    intro e he i hcall
    have hi := hretired e he i hcall
    exact ⟨hi.not_accepted, hi.not_allocated, hi.not_published⟩

end Ubi2.Contracts.ZkIdentityIssuanceRegistry
