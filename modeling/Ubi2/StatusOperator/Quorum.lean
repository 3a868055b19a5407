import Ubi2.StatusOperator.CatchUp
import Ubi2.StatusOperator.Fleet

namespace Ubi2.StatusOperator

open Ubi2.Runtime Ubi2.Lib Ubi2.Lib.Except Ubi2.StatusSnapshot Ubi2.StatusSnapshot.Sdk

-- Answers about the registry and the issuer that the fleet is configured for.
structure Trusted (config : ZkIdentityStatusFleetConfig) (health : ZkIdentityStatusOperatorHealth)
    (snapshot : SnapshotWire) : Prop where
  chain : health.chainId = config.chainId.repr ∧ snapshot.chainId = config.chainId.repr
  registry : toLowerCase health.issuanceRegistry = toLowerCase config.issuanceRegistry ∧
    toLowerCase snapshot.issuanceRegistry = toLowerCase config.issuanceRegistry
  issuer : health.issuerKeyId = config.issuerKeyId ∧ snapshot.issuerKeyId = config.issuerKeyId

theorem trustMatches_iff {config : ZkIdentityStatusFleetConfig}
    {health : ZkIdentityStatusOperatorHealth} {artifact : ZkIdentityStatusOperatorArtifact} :
    trustMatches config health artifact = true ↔
      Trusted config health artifact.attestation.snapshot := by
  rw [trustMatches, decide_eq_true_iff]
  constructor
  · rintro ⟨hchain, hregistry, hissuer, hchain', hregistry', hissuer'⟩
    exact ⟨⟨hchain, hchain'⟩, ⟨hregistry, hregistry'⟩, ⟨hissuer, hissuer'⟩⟩
  · rintro ⟨⟨hchain, hchain'⟩, ⟨hregistry, hregistry'⟩, ⟨hissuer, hissuer'⟩⟩
    exact ⟨hchain, hregistry, hissuer, hchain', hregistry', hissuer'⟩

theorem checkpointMatches_iff {health : ZkIdentityStatusOperatorHealth}
    {attestation : AttestationWire} : checkpointMatches health attestation = true ↔
      health.checkpoint =
        ⟨attestation.snapshot.sourceBlockNumber, attestation.snapshot.sourceBlockHash,
          attestation.snapshotHash, attestation.snapshot.root,
          attestation.snapshot.nextStatusId⟩ := by
  rw [checkpointMatches, decide_eq_true_iff]
  constructor
  · rintro ⟨hhash, hnumber, hblock, hroot, hnext⟩
    rw [← hhash, ← hnumber, ← hblock, ← hroot, ← hnext]
  · intro h
    rw [h]
    exact ⟨rfl, rfl, rfl, rfl, rfl⟩

-- An operator whose answers were found to be its own, fresh and true to its configuration.
structure AcceptedFrom (viem : Viem) (eip : Eip712) (config : ZkIdentityStatusFleetConfig)
    (observedAtMs : Int) (fetched : List FetchedZkIdentityStatusOperator)
    (expected : ZkIdentityStatusFleetOperatorConfig) (a : AcceptedOperator) : Prop where
  answered : ∃ f ∈ fetched, f.operatorId = expected.operatorId ∧
    parseZkIdentityStatusOperatorHealth viem f.health = .ok a.health ∧
      parseZkIdentityStatusOperatorArtifact viem eip f.latest = .ok a.artifact
  attestation : a.attestation = a.artifact.attestation
  sourceBlock : a.sourceBlock = blockNumber a.attestation.snapshot
  named : a.health.operatorId = expected.operatorId ∧ a.artifact.operatorId = expected.operatorId
  trusted : Trusted config a.health a.attestation.snapshot
  started : heartbeatMs a.health ≤ observedAtMs + 60000
  fresh : observedAtMs - heartbeatMs a.health ≤ config.maxHeartbeatAgeSeconds * 1000
  healthy : a.health.state = .healthy
  current : a.health.checkpoint =
    ⟨a.attestation.snapshot.sourceBlockNumber, a.attestation.snapshot.sourceBlockHash,
      a.attestation.snapshotHash, a.attestation.snapshot.root,
      a.attestation.snapshot.nextStatusId⟩
  signed : Attests viem eip a.signer a.attestation
  configured : getAddress viem expected.signerAddress = .ok a.signer

variable {viem : Viem} {eip : Eip712} {config : ZkIdentityStatusFleetConfig} {observedAtMs : Int}
  {fetched : List FetchedZkIdentityStatusOperator}

theorem AcceptedFrom.accepted {expected : ZkIdentityStatusFleetOperatorConfig} {a : AcceptedOperator}
    (h : AcceptedFrom viem eip config observedAtMs fetched expected a) :
    AttestationAccepted eip a.attestation := by
  obtain ⟨f, -, -, -, hartifact⟩ := h.answered
  rw [h.attestation]
  exact (parseArtifact_ok hartifact).attestation

theorem acceptOperator_ok {expected : ZkIdentityStatusFleetOperatorConfig} {a : AcceptedOperator}
    (h : acceptOperator viem eip config observedAtMs expected
      (fetchedById fetched expected.operatorId) = .ok a) :
    AcceptedFrom viem eip config observedAtMs fetched expected a := by
  simp only [acceptOperator, bind_eq_ok, revertIf_eq_ok, orAlert, orThrow, mapError_eq_ok] at h
  obtain ⟨f, hanswers, ⟨health, artifact⟩, hparse, -, -, -, -, -, hnamed, healthSigner, -,
    expectedSigner, hexpected, -, htrusted, -, hskew, -, hstale, -, hstate, -, hcheckpoint,
    signer, hsigner, -, hsame, h⟩ := h
  cases hfetched : fetchedById fetched expected.operatorId with
  | none =>
    rw [hfetched] at hanswers
    cases hanswers
  | some g =>
    obtain ⟨hf, hid⟩ := Keyed.last_mem hfetched
    rw [hfetched, answers, check_eq_ok, Except.ok.injEq] at hanswers
    obtain ⟨-, rfl⟩ := hanswers
    cases h
    simp only [parseAnswers, bind_eq_ok] at hparse
    obtain ⟨_, hhealth, _, hartifact, hpair⟩ := hparse
    cases hpair
    rw [not_or, not_not, not_not] at hnamed htrusted
    simp only [recoverSigner, bind_eq_ok] at hsigner
    obtain ⟨recovered, hrecovered, hsigner⟩ := hsigner
    exact
      { answered := ⟨g, hf, hid, hhealth, hartifact⟩
        attestation := rfl
        sourceBlock := rfl
        named := hnamed
        trusted := trustMatches_iff.mp htrusted.2
        started := Int.not_lt.mp hskew
        fresh := Int.not_lt.mp hstale
        healthy := not_not.mp hstate
        current := checkpointMatches_iff.mp (not_not.mp hcheckpoint)
        signed := ⟨recovered, hrecovered, hsigner⟩
        configured := not_not.mp hsame ▸ hexpected }

-- Without an alert every configured operator was accepted.
theorem acceptOperators_ok {operators : List ZkIdentityStatusFleetOperatorConfig}
    {accepted : List AcceptedOperator}
    (h : acceptOperators viem eip config fetched observedAtMs operators = .ok ([], accepted)) :
    List.Forall₂ (AcceptedFrom viem eip config observedAtMs fetched) operators accepted := by
  induction operators generalizing accepted with
  | nil =>
    rw [acceptOperators, Except.ok.injEq, Prod.mk.injEq] at h
    rw [← h.2]
    exact .nil
  | cons expected rest ih =>
    rw [acceptOperators] at h
    split at h
    · rename_i operator hoperator
      simp only [bind_eq_ok] at h
      obtain ⟨⟨alerts, others⟩, hrest, h⟩ := h
      rw [Except.ok.injEq, Prod.mk.injEq] at h
      obtain ⟨rfl, rfl⟩ := h
      exact .cons (acceptOperator_ok hoperator) (ih hrest)
    · simp only [bind_eq_ok] at h
      obtain ⟨⟨alerts, others⟩, -, h⟩ := h
      cases h
    · cases h

section

variable {accepted : List AcceptedOperator}

theorem highestBlock_spec (accepted : List AcceptedOperator) :
    (∀ a ∈ accepted, a.sourceBlock ≤ highestBlock accepted) ∧
      (accepted ≠ [] → ∃ a ∈ accepted, a.sourceBlock = highestBlock accepted) := by
  have hfold : ∀ (l : List AcceptedOperator) (n : Nat),
      let highest := l.foldl (fun highest operator =>
        if operator.sourceBlock > highest then operator.sourceBlock else highest) n
      n ≤ highest ∧ (∀ a ∈ l, a.sourceBlock ≤ highest) ∧
        (highest = n ∨ ∃ a ∈ l, a.sourceBlock = highest) := by
    intro l
    induction l with
    | nil => exact fun n => ⟨Nat.le_refl _, nofun, .inl rfl⟩
    | cons head rest ih =>
      intro n
      obtain ⟨hle, hall, hmem⟩ := ih (if head.sourceBlock > n then head.sourceBlock else n)
      have hnext : n ≤ (if head.sourceBlock > n then head.sourceBlock else n) ∧
          head.sourceBlock ≤ (if head.sourceBlock > n then head.sourceBlock else n) := by
        split <;> omega
      refine ⟨hnext.1.trans hle, fun a ha => ?_, ?_⟩
      · rcases List.mem_cons.mp ha with rfl | ha
        · exact hnext.2.trans hle
        · exact hall a ha
      · rcases hmem with heq | ⟨a, ha, heq⟩
        · rw [List.foldl_cons, heq]
          split
          · exact .inr ⟨head, List.mem_cons_self, rfl⟩
          · exact .inl rfl
        · exact .inr ⟨a, List.mem_cons_of_mem _ ha, heq⟩
  obtain ⟨-, hall, hmem⟩ := hfold accepted 0
  refine ⟨hall, fun hne => ?_⟩
  rcases hmem with hzero | hmem
  · obtain ⟨a, rest, rfl⟩ := List.exists_cons_of_ne_nil hne
    have hle := hall a List.mem_cons_self
    have heq : a.sourceBlock = 0 := by omega
    exact ⟨a, List.mem_cons_self, heq.trans hzero.symm⟩
  · exact hmem

-- Accepted operators, a reference block, and no alert that one of them lags or that they disagree.
structure InLine (config : ZkIdentityStatusFleetConfig) (accepted : List AcceptedOperator)
    (reference : Option ReferenceFinalizedBlock) : Prop where
  below : ∀ a ∈ accepted, a.sourceBlock ≤ highestBlock accepted
  attained : ∃ a ∈ accepted, a.sourceBlock = highestBlock accepted
  within : ∀ a ∈ accepted, highestBlock accepted ≤ a.sourceBlock + config.maxBlockLag
  reference : ∃ r, reference = some r ∧ (highestBlock accepted : Int) ≤ r.number ∧
    r.number ≤ highestBlock accepted + config.maxBlockLag
  agree : ∀ a ∈ accepted, ∀ b ∈ accepted, a.sourceBlock = b.sourceBlock →
    a.attestation.snapshotHash = b.attestation.snapshotHash

theorem referenceAlerts_nil {reference : Option ReferenceFinalizedBlock}
    (h : referenceAlerts viem config accepted reference = []) : ∃ r, reference = some r ∧
      (highestBlock accepted : Int) ≤ r.number ∧
        r.number ≤ highestBlock accepted + config.maxBlockLag := by
  cases reference with
  | none => cases h
  | some r =>
    rw [referenceAlerts] at h
    split at h
    · cases h
    split at h
    · cases h
    rename_i hbehind
    split at h
    · cases h
    split at h
    · cases h
    rename_i hlag
    exact ⟨r, rfl, by omega, by omega⟩

theorem divergenceAlerts_nil (h : divergenceAlerts accepted = []) :
    ∀ a ∈ accepted, ∀ b ∈ accepted, a.sourceBlock = b.sourceBlock →
      a.attestation.snapshotHash = b.attestation.snapshotHash := by
  intro a ha b hb hblock
  rw [divergenceAlerts, List.map_eq_nil_iff, List.filter_eq_nil_iff] at h
  have ha' : a ∈ accepted.filter fun c => c.sourceBlock = a.sourceBlock :=
    List.mem_filter.mpr ⟨ha, decide_eq_true rfl⟩
  have hb' : b ∈ accepted.filter fun c => c.sourceBlock = a.sourceBlock :=
    List.mem_filter.mpr ⟨hb, decide_eq_true hblock.symm⟩
  have hgroup := h (a.sourceBlock, accepted.filter fun c => c.sourceBlock = a.sourceBlock)
    (Keyed.mem_group.mpr ⟨rfl, List.ne_nil_of_mem ha'⟩)
  rw [decide_eq_true_iff, Nat.not_lt] at hgroup
  have hmem : ∀ {c : AcceptedOperator}, c ∈ (accepted.filter fun c => c.sourceBlock = a.sourceBlock) →
      c.attestation.snapshotHash ∈ ((accepted.filter fun c => c.sourceBlock = a.sourceBlock).map
        fun operator => operator.attestation.snapshotHash).dedup :=
    fun hc => List.mem_dedup.mpr (List.mem_map_of_mem hc)
  have hone : ∀ {l : List String} {x y : String}, l.length ≤ 1 → x ∈ l → y ∈ l → x = y := by
    rintro (_ | ⟨z, _ | _⟩) x y hlength hx hy
    · cases hx
    · exact (List.mem_singleton.mp hx).trans (List.mem_singleton.mp hy).symm
    · simp at hlength
  exact hone hgroup (hmem ha') (hmem hb')

end

end Ubi2.StatusOperator
