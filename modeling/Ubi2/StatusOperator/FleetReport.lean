import Ubi2.StatusOperator.Quorum
import Ubi2.StatusSnapshot.OneFormat

namespace Ubi2.StatusOperator

open Ubi2.Runtime Ubi2.Lib Ubi2.Lib.Except Ubi2.StatusSnapshot Ubi2.StatusSnapshot.Sdk

-- Two snapshots that are one, or of which the two texts have one hash.
def SameSnapshot (eip : Eip712) (s t : SnapshotWire) : Prop :=
  s = t ∨ (s.json.compact ≠ t.json.compact ∧
    eip.keccak256 s.json.compact = eip.keccak256 t.json.compact)

variable {viem : Viem} {eip : Eip712} {config : ZkIdentityStatusFleetConfig} {observedAtMs : Int}
  {fetched fetched' : List FetchedZkIdentityStatusOperator}
  {reference : Option ReferenceFinalizedBlock} {accepted : List AcceptedOperator}

theorem sameSnapshot_of_hashOf {s t : SnapshotWire} (h : hashOf eip s = hashOf eip t) :
    SameSnapshot eip s t := by
  have hhash : eip.keccak256 s.json.compact = eip.keccak256 t.json.compact :=
    bytesToHex_injective (by decide) h
  by_cases hsame : s = t
  · exact .inl hsame
  · exact .inr ⟨fun htext => hsame (compact_snapshot_inj.mp htext), hhash⟩

theorem sameSnapshot_of_accepted {w w' : AttestationWire} (h : AttestationAccepted eip w)
    (h' : AttestationAccepted eip w') (hhash : w.snapshotHash = w'.snapshotHash) :
    SameSnapshot eip w.snapshot w'.snapshot := by
  rw [h.snapshotHash, h'.snapshotHash] at hhash
  exact sameSnapshot_of_hashOf hhash

theorem candidateGroup_mem {group : List AcceptedOperator}
    (h : candidateGroup config accepted = some group) : ∀ a ∈ group, a ∈ accepted := by
  rw [candidateGroup] at h
  have hsorted := (List.mergeSort_perm _ _).mem_iff.mp (List.mem_of_head? h)
  obtain ⟨⟨hash, group'⟩, hgroup, rfl⟩ := List.mem_map.mp (List.mem_of_mem_filter hsorted)
  obtain ⟨rfl, -⟩ := Keyed.mem_group.mp hgroup
  exact fun a ha => List.mem_of_mem_filter ha

-- A quorum of configured signers, each of which attests one snapshot.
structure QuorumFor (viem : Viem) (eip : Eip712) (config : ZkIdentityStatusFleetConfig)
    (accepted : List AcceptedOperator) (snapshot : SnapshotWire) (signers : List String) :
    Prop where
  distinct : signers.Nodup
  enough : config.threshold ≤ signers.length
  configured : ∀ signer ∈ signers, ∃ operator ∈ config.operators,
    getAddress viem operator.signerAddress = .ok signer
  attested : ∀ signer ∈ signers, ∃ a ∈ accepted, Attests viem eip signer a.attestation ∧
    a.attestation.snapshotHash = hashOf eip snapshot ∧
    SameSnapshot eip a.attestation.snapshot snapshot

-- What is published is the snapshot of an accepted operator.
structure PublishedFrom (eip : Eip712) (accepted : List AcceptedOperator) (snapshot : SnapshotWire)
    (signers : List String) (candidate : ZkIdentityStatusFleetCandidate)
    (publication : ZkIdentityStatusFleetPublication) : Prop where
  reported : ∃ a ∈ accepted, a.attestation.snapshot = snapshot
  candidate : candidate = ⟨snapshot.sourceBlockNumber, snapshot.sourceBlockHash,
    hashOf eip snapshot, signers⟩
  publication : publication = ⟨snapshot.issuerKeyId, snapshot.nextStatusId.repr, snapshot.root⟩

theorem reconcileGroup_ok {group : List AcceptedOperator}
    {candidate : ZkIdentityStatusFleetCandidate}
    {publication : ZkIdentityStatusFleetPublication}
    (hall : ∀ a ∈ accepted, AttestationAccepted eip a.attestation)
    (hgroup : ∀ a ∈ group, a ∈ accepted)
    (h : reconcileGroup viem eip config group = .ok (candidate, publication)) :
    ∃ snapshot signers, QuorumFor viem eip config accepted snapshot signers ∧
      PublishedFrom eip accepted snapshot signers candidate publication := by
  simp only [reconcileGroup, bind_eq_ok, Except.ok.injEq, Prod.mk.injEq] at h
  obtain ⟨r, hr, normalized, hnormalized, rfl, rfl⟩ := h
  have hdocuments : (group.map fun operator => operator.attestation.document) =
      (group.map AcceptedOperator.attestation).map AttestationWire.document := by
    rw [List.map_map]
    rfl
  rw [hdocuments] at hr
  have hreconciled := reconcile_ok (by
    intro w hw
    obtain ⟨a, ha, rfl⟩ := List.mem_map.mp hw
    exact hall a (hgroup a ha)) hr
  obtain ⟨w, hw, hsnapshot, hhash⟩ := hreconciled.published
  obtain ⟨a, ha, rfl⟩ := List.mem_map.mp hw
  have haccepted := hall a (hgroup a ha)
  have hhashOf : r.snapshotHash = hashOf eip r.snapshot := by
    rw [hhash, hsnapshot, haccepted.snapshotHash]
  refine ⟨r.snapshot, r.signers, ⟨hreconciled.distinct, hreconciled.quorum, ?_, ?_⟩, ?_⟩
  · intro signer hsigner
    obtain ⟨address, haddress, hget⟩ := hreconciled.configured signer hsigner
    obtain ⟨operator, hoperator, rfl⟩ := List.mem_map.mp haddress
    exact ⟨operator, hoperator, hget⟩
  · intro signer hsigner
    obtain ⟨w', hw', hattests⟩ := hreconciled.signed signer hsigner
    obtain ⟨b, hb, rfl⟩ := List.mem_map.mp hw'
    have hagree := hreconciled.agree _ hw' _ hw
    have hb' := hall b (hgroup b hb)
    refine ⟨b, hgroup b hb, hattests, ?_, ?_⟩
    · rw [hagree, ← hhash, hhashOf]
    · rw [hsnapshot]
      exact sameSnapshot_of_accepted hb' haccepted hagree
  · obtain ⟨hissuer, hnext, hroot⟩ := publication_ok hnormalized
    have hsnapshot' : Accepted r.snapshot := hsnapshot ▸ haccepted.snapshot
    refine ⟨⟨a, hgroup a ha, hsnapshot.symm⟩, ?_, ?_⟩
    · rw [hhashOf]
    · obtain ⟨⟨_, hissuerText, -⟩, -⟩ := hsnapshot'.issuerKeyId
      obtain ⟨⟨_, hrootText, -⟩, -⟩ := hsnapshot'.root
      rw [hissuer, hnext, hroot, hissuerText.toLowerCase, hrootText.toLowerCase]

theorem quorum_some {candidate : ZkIdentityStatusFleetCandidate}
    {publication : ZkIdentityStatusFleetPublication} {alerts : List ZkIdentityStatusFleetAlert}
    (hall : ∀ a ∈ accepted, AttestationAccepted eip a.attestation)
    (h : quorum viem eip config accepted = (alerts, some (candidate, publication))) :
    ∃ snapshot signers, QuorumFor viem eip config accepted snapshot signers ∧
      PublishedFrom eip accepted snapshot signers candidate publication := by
  rw [quorum] at h
  split at h
  · cases h
  rename_i group hgroup
  split at h
  · rename_i result hreconcile
    cases h
    exact reconcileGroup_ok hall (candidateGroup_mem hgroup) hreconcile
  · cases h

-- Every configured operator was accepted, they are in line, and a quorum of them is published.
structure Agreed (viem : Viem) (eip : Eip712) (config : ZkIdentityStatusFleetConfig)
    (observedAtMs : Int) (fetched : List FetchedZkIdentityStatusOperator)
    (reference : Option ReferenceFinalizedBlock) (accepted : List AcceptedOperator)
    (candidate : ZkIdentityStatusFleetCandidate) (publication : ZkIdentityStatusFleetPublication) :
    Prop where
  operators : List.Forall₂ (AcceptedFrom viem eip config observedAtMs fetched) config.operators
    accepted
  inLine : InLine config accepted reference
  same : ∀ a ∈ accepted, ∀ b ∈ accepted, a.sourceBlock = b.sourceBlock →
    SameSnapshot eip a.attestation.snapshot b.attestation.snapshot
  quorum : ∃ snapshot signers, QuorumFor viem eip config accepted snapshot signers ∧
    PublishedFrom eip accepted snapshot signers candidate publication

theorem lagAlerts_nil (h : lagAlerts config accepted = []) :
    ∀ a ∈ accepted, highestBlock accepted ≤ a.sourceBlock + config.maxBlockLag := by
  intro a ha
  rw [lagAlerts, List.map_eq_nil_iff, List.filter_eq_nil_iff] at h
  have hlag := h a ha
  rw [decide_eq_true_iff] at hlag
  omega

theorem evaluate_ok {report : ZkIdentityStatusFleetReport}
    (h : evaluateZkIdentityStatusOperatorFleet viem eip config fetched reference observedAtMs =
      .ok report) {publication : ZkIdentityStatusFleetPublication}
    (hpublication : report.publication = some publication) :
    (fetched.map FetchedZkIdentityStatusOperator.operatorId).Nodup ∧
      ∃ accepted candidate, report.candidate = some candidate ∧
        Agreed viem eip config observedAtMs fetched reference accepted candidate publication := by
  simp only [evaluateZkIdentityStatusOperatorFleet, bind_eq_ok] at h
  obtain ⟨observedAt, -, ⟨operatorAlerts, accepted⟩, haccept, h⟩ := h
  cases hquorum : quorum viem eip config accepted with
  | mk quorumAlerts result =>
    simp only [hquorum, Except.ok.injEq] at h
    rw [← h] at hpublication ⊢
    simp only [Option.ite_none_right_eq_some, Bool.and_eq_true, List.isEmpty_iff,
      List.append_eq_nil_iff] at hpublication ⊢
    obtain ⟨⟨⟨⟨⟨⟨⟨hduplicates, hoperators⟩, hreference⟩, hlag⟩, hdivergence⟩, hnone⟩, -⟩,
      hresult⟩ := hpublication
    subst hoperators hnone
    obtain ⟨⟨candidate, p⟩, rfl, rfl⟩ := Option.map_eq_some_iff.mp hresult
    have hforall := acceptOperators_ok haccept
    have hall : ∀ a ∈ accepted, AttestationAccepted eip a.attestation := by
      intro a ha
      obtain ⟨expected, -, hfrom⟩ := forall₂_right hforall a ha
      exact hfrom.accepted
    obtain ⟨snapshot, signers, hfor, hfrom⟩ := quorum_some hall hquorum
    obtain ⟨someone, hmem, -⟩ := hfrom.reported
    have hsomeone : accepted ≠ [] := List.ne_nil_of_mem hmem
    have hinLine : InLine config accepted reference :=
      ⟨(highestBlock_spec accepted).1, (highestBlock_spec accepted).2 hsomeone,
        lagAlerts_nil hlag, referenceAlerts_nil hreference, divergenceAlerts_nil hdivergence⟩
    refine ⟨?_, accepted, candidate, ?_, hforall, hinLine, ?_, snapshot, signers, hfor, hfrom⟩
    · by_contra hno
      rw [if_neg hno] at hduplicates
      cases hduplicates
    · simp [hduplicates, hreference, hlag, hdivergence]
    · exact fun a ha b hb hblock => sameSnapshot_of_accepted (hall a ha) (hall b hb)
        (hinLine.agree a ha b hb hblock)

theorem acceptOperators_congr {operators : List ZkIdentityStatusFleetOperatorConfig}
    (h : ∀ operatorId, fetchedById fetched operatorId = fetchedById fetched' operatorId) :
    acceptOperators viem eip config fetched observedAtMs operators =
      acceptOperators viem eip config fetched' observedAtMs operators := by
  induction operators with
  | nil => rfl
  | cons expected rest ih => rw [acceptOperators, acceptOperators, ih, h]

-- Answers under distinct ids are evaluated alike in any order.
theorem evaluate_perm (hperm : fetched.Perm fetched')
    (hnodup : (fetched.map FetchedZkIdentityStatusOperator.operatorId).Nodup) :
    evaluateZkIdentityStatusOperatorFleet viem eip config fetched reference observedAtMs =
      evaluateZkIdentityStatusOperatorFleet viem eip config fetched' reference observedAtMs := by
  have hnodup' := (hperm.map FetchedZkIdentityStatusOperator.operatorId).nodup_iff.mp hnodup
  rw [evaluateZkIdentityStatusOperatorFleet, evaluateZkIdentityStatusOperatorFleet,
    acceptOperators_congr fun operatorId => Keyed.last_perm hperm hnodup, if_pos hnodup,
    if_pos hnodup']

-- What a fleet publishes, which is nothing where it fails.
def published (result : Except String ZkIdentityStatusFleetReport) :
    Option ZkIdentityStatusFleetCandidate × Option ZkIdentityStatusFleetPublication :=
  match result with
  | .ok report => (report.candidate, report.publication)
  | .error _ => (none, none)

theorem published_of_duplicates
    (hdup : ¬(fetched.map FetchedZkIdentityStatusOperator.operatorId).Nodup) :
    published (evaluateZkIdentityStatusOperatorFleet viem eip config fetched reference
      observedAtMs) = (none, none) := by
  cases h : evaluateZkIdentityStatusOperatorFleet viem eip config fetched reference
    observedAtMs with
  | error => rfl
  | ok report =>
    simp only [evaluateZkIdentityStatusOperatorFleet, bind_eq_ok] at h
    obtain ⟨observedAt, -, ⟨operatorAlerts, accepted⟩, -, h⟩ := h
    rw [Except.ok.injEq] at h
    rw [← h, published]
    simp [hdup]

-- A fleet publishes a quorum of accepted operators, whatever the order of their answers.
theorem fleet_publishes_agreed_quorum (viem : Viem) (eip : Eip712)
    (config : ZkIdentityStatusFleetConfig) (fetched : List FetchedZkIdentityStatusOperator)
    (reference : Option ReferenceFinalizedBlock) (observedAtMs : Int) :
    (∀ report publication,
      evaluateZkIdentityStatusOperatorFleet viem eip config fetched reference observedAtMs =
          .ok report → report.publication = some publication →
        ∃ accepted candidate, report.candidate = some candidate ∧
          Agreed viem eip config observedAtMs fetched reference accepted candidate publication) ∧
    ∀ fetched', fetched.Perm fetched' →
      published (evaluateZkIdentityStatusOperatorFleet viem eip config fetched reference
          observedAtMs) =
        published (evaluateZkIdentityStatusOperatorFleet viem eip config fetched' reference
          observedAtMs) ∧
      ((fetched.map FetchedZkIdentityStatusOperator.operatorId).Nodup →
        evaluateZkIdentityStatusOperatorFleet viem eip config fetched reference observedAtMs =
          evaluateZkIdentityStatusOperatorFleet viem eip config fetched' reference
            observedAtMs) := by
  refine ⟨fun report publication h hpublication => (evaluate_ok h hpublication).2, ?_⟩
  intro fetched' hperm
  refine ⟨?_, evaluate_perm hperm⟩
  by_cases hnodup : (fetched.map FetchedZkIdentityStatusOperator.operatorId).Nodup
  · rw [evaluate_perm hperm hnodup]
  · have hnodup' := fun h =>
      hnodup ((hperm.map FetchedZkIdentityStatusOperator.operatorId).nodup_iff.mpr h)
    rw [published_of_duplicates hnodup, published_of_duplicates hnodup']

-- A fleet of three, of which two have signed the block 100 and one the block 104.
def fleetSnapshot (n : Nat) : SnapshotWire where
  schema := ZK_IDENTITY_STATUS_SNAPSHOT_SCHEMA
  chainId := (84532).repr
  issuanceRegistry := bytesToHex 0x11#160
  issuerKeyId := bytesToHex 0x22#256
  sourceBlockNumber := n.repr
  sourceBlockHash := bytesToHex (BitVec.ofNat 256 (n + 1))
  sourceBlockParentHash := bytesToHex (BitVec.ofNat 256 n)
  nextStatusId := 2
  activatedThroughStatusId := 1
  root := bytesToHex 5#256
  chunks := []

-- A signature is the address that made it, in 65 bytes.
def fleetEip : Eip712 where
  keccak256 := fun text => if text = (fleetSnapshot 100).json.compact then 1#256 else 2#256
  hashTypedData := fun _ => 1#256
  recoverTypedDataAddress := fun _ signature => .ok (BitVec.ofNat 160 (bigIntOfHex signature))

inductive Member where
  | a
  | b
  | c

def fleetKey : Member → Address
  | .a => 1#160
  | .b => 2#160
  | .c => 3#160

def fleetId : Member → String
  | .a => "operator-a"
  | .b => "operator-b"
  | .c => "operator-c"

def fleetOperator (i : Member) : ZkIdentityStatusFleetOperatorConfig :=
  ⟨fleetId i, bytesToHex (fleetKey i), "https://" ++ fleetId i⟩

def fleetConfig : ZkIdentityStatusFleetConfig where
  referenceRpcUrl := "https://reference"
  chainId := 84532
  issuanceRegistry := bytesToHex 0x11#160
  issuerKeyId := bytesToHex 0x22#256
  threshold := 2
  maxHeartbeatAgeSeconds := 60
  maxBlockLag := 4
  requestTimeoutMs := 1000
  operators := [fleetOperator .a, fleetOperator .b, fleetOperator .c]

def fleetAttestation (i : Member) (n : Nat) : AttestationWire where
  schema := ZK_IDENTITY_STATUS_ATTESTATION_SCHEMA
  version := ZK_IDENTITY_STATUS_ATTESTATION_VERSION
  snapshot := fleetSnapshot n
  snapshotHash := hashOf fleetEip (fleetSnapshot n)
  signature := bytesToHex ((fleetKey i).setWidth' (by decide : 160 ≤ 520))

def fleetArtifact (i : Member) (n : Nat) : ZkIdentityStatusOperatorArtifact :=
  ⟨ZK_IDENTITY_STATUS_OPERATOR_ARTIFACT_SCHEMA, fleetId i, fleetAttestation i n⟩

def fleetHealth (i : Member) (n : Nat) : ZkIdentityStatusOperatorHealth where
  schema := ZK_IDENTITY_STATUS_OPERATOR_HEALTH_SCHEMA
  operatorId := fleetId i
  state := .healthy
  observedAt := "1970-01-01T00:00:00.000Z"
  consecutiveFailures := 0
  chainId := (84532).repr
  issuanceRegistry := bytesToHex 0x11#160
  issuerKeyId := bytesToHex 0x22#256
  signerAddress := bytesToHex (fleetKey i)
  checkpoint := ⟨n.repr, bytesToHex (BitVec.ofNat 256 (n + 1)), hashOf fleetEip (fleetSnapshot n),
    bytesToHex 5#256, 2⟩
  errorCode := none

def fleetAnswer (i : Member) (n : Nat) : FetchedZkIdentityStatusOperator where
  operatorId := fleetId i
  health := (fleetHealth i n).document
  latest := (fleetArtifact i n).document
  immutableArtifact := (fleetArtifact i n).document
  immutableCacheControl := some "public, immutable"

def fleetAnswers : List FetchedZkIdentityStatusOperator :=
  [fleetAnswer .a 100, fleetAnswer .b 100, fleetAnswer .c 104]

def fleetReference : ReferenceFinalizedBlock := ⟨108, bytesToHex 7#256⟩

def acceptedFleet (i : Member) (n : Nat) : AcceptedOperator where
  operatorId := fleetId i
  health := fleetHealth i n
  artifact := fleetArtifact i n
  attestation := fleetAttestation i n
  signer := bytesToHex (fleetKey i)
  sourceBlock := n

theorem accepted_fleetSnapshot {n : Nat} (hn : n < 1000) : Accepted (fleetSnapshot n) where
  schema := rfl
  chainId := ⟨84532, by decide, by decide, rfl⟩
  issuanceRegistry := ⟨_, by decide, rfl⟩
  issuerKeyId := ⟨isBytes32_bytesToHex _, bytesToHex_ne_zero.mpr (by decide)⟩
  sourceBlockNumber := ⟨n, by rw [U64_MAX]; omega, rfl⟩
  sourceBlockHash := by
    refine ⟨isBytes32_bytesToHex _, bytesToHex_ne_zero.mpr fun hzero => ?_⟩
    have hvalue := congrArg BitVec.toNat hzero
    rw [BitVec.toNat_ofNat, Nat.mod_eq_of_lt (by omega)] at hvalue
    exact absurd hvalue (Nat.succ_ne_zero n)
  sourceBlockParentHash := isBytes32_bytesToHex _
  nextPos := Nat.succ_pos 1
  nextBound := (by decide : 2 ≤ ZK_IDENTITY_MAX_NEXT_STATUS_ID)
  activated := rfl
  root := by
    refine ⟨isBytes32_bytesToHex _, bytesToHex_ne_zero.mpr (by decide), ?_⟩
    show bigIntOfHex (bytesToHex 5#256) < _
    rw [bigInt_bytesToHex (by decide)]
    decide
  chunks := nofun
  sorted := .nil
  empty := nofun

theorem isSignature_fleet (i : Member) (n : Nat) : IsSignature (fleetAttestation i n).signature := by
  have htext := hexText_bytesToHex ((fleetKey i).setWidth' (by decide : 160 ≤ 520))
  refine ⟨?_, htext.toLowerCase⟩
  rw [isSignature, decide_eq_true_iff]
  refine ⟨htext.isHexText, ?_⟩
  rw [fleetAttestation, byteCount, htext.length, Hex.length_fixed]

theorem isOperatorId_fleet (i : Member) : isOperatorId (fleetId i) = true := by
  cases i <;> decide

theorem keccak256_fleet (text : String) : fleetEip.keccak256 text ≠ ZERO_HASH := by
  simp only [fleetEip]
  split <;> decide

theorem accepted_fleetAttestation (i : Member) {n : Nat} (hn : n < 1000) :
    AttestationAccepted fleetEip (fleetAttestation i n) where
  schema := rfl
  version := rfl
  snapshot := accepted_fleetSnapshot hn
  snapshotHash := rfl
  nonzero := keccak256_fleet _
  signature := isSignature_fleet i n

theorem accepted_fleetArtifact (i : Member) {n : Nat} (hn : n < 1000) :
    ArtifactAccepted fleetEip (fleetArtifact i n) where
  schema := rfl
  operatorId := isOperatorId_fleet i
  attestation := accepted_fleetAttestation i hn

theorem fleetKey_ne (i : Member) : fleetKey i ≠ ZERO_ADDRESS := by
  cases i <;> decide

theorem accepted_fleetHealth (i : Member) {n : Nat} (hn : n < 1000) :
    HealthAccepted plainViem (fleetHealth i n) where
  schema := rfl
  operatorId := isOperatorId_fleet i
  observedAt := (by decide : (IsoTime.canonical "1970-01-01T00:00:00.000Z").isSome = true)
  consecutiveFailures := (by decide : (0 : Int) ≤ MAX_SAFE_INTEGER)
  errorCode := nofun
  agrees := rfl
  chainId := ⟨84532, by decide, by decide, rfl⟩
  issuanceRegistry := isAddress_plain (by decide)
  issuerKeyId := isBytes32_bytesToHex _
  signerAddress := isAddress_plain (fleetKey_ne i)
  sourceBlockNumber := ⟨n, by rw [U64_MAX]; omega, rfl⟩
  sourceBlockHash := isBytes32_bytesToHex _
  snapshotHash := isBytes32_bytesToHex _
  root := isBytes32_bytesToHex _
  nextPos := Nat.succ_pos 1
  nextBound := (by decide : (2 : Int) ≤ MAX_SAFE_INTEGER)

theorem checksummed_fleetHealth (i : Member) (n : Nat) :
    (fleetHealth i n).checksummed plainViem = fleetHealth i n := by
  have hregistry : plainViem.getAddress (bytesToHex 0x11#160) = bytesToHex 0x11#160 :=
    (hexText_bytesToHex _).toLowerCase
  have hsigner : plainViem.getAddress (bytesToHex (fleetKey i)) = bytesToHex (fleetKey i) :=
    (hexText_bytesToHex _).toLowerCase
  rw [ZkIdentityStatusOperatorHealth.checksummed]
  show { fleetHealth i n with
    issuanceRegistry := plainViem.getAddress (bytesToHex 0x11#160)
    signerAddress := plainViem.getAddress (bytesToHex (fleetKey i)) } = _
  rw [hregistry, hsigner]
  rfl

theorem getAddress_fleetKey (i : Member) :
    getAddress plainViem (bytesToHex (fleetKey i)) = .ok (bytesToHex (fleetKey i)) := by
  rw [getAddress_ok (isAddress_plain (fleetKey_ne i))]
  exact congrArg Except.ok (hexText_bytesToHex _).toLowerCase

theorem recover_fleetAttestation (i : Member) {n : Nat} (hn : n < 1000) :
    recoverZkIdentityPackedStatusAttestationSigner plainViem fleetEip
      (fleetAttestation i n).document = .ok (bytesToHex (fleetKey i)) := by
  have hchain : bigIntOfDecimal (fleetSnapshot n).chainId = 84532 := bigInt_repr _
  have hsigned : BitVec.ofNat 160 (bigIntOfHex (fleetAttestation i n).signature) = fleetKey i := by
    rw [fleetAttestation, bigInt_bytesToHex (by decide), BitVec.toNat_setWidth', BitVec.ofNat_toNat,
      BitVec.setWidth_eq]
  have htyped : ∃ typed, snapshotTypedData (fleetSnapshot n)
      (hashOf fleetEip (fleetSnapshot n)) = .ok typed := by
    rw [snapshotTypedData, hchain, if_neg (by decide)]
    exact ⟨_, rfl⟩
  obtain ⟨typed, htyped⟩ := htyped
  simp only [recoverZkIdentityPackedStatusAttestationSigner, bind_eq_ok]
  refine ⟨_, parseAttestation_document (accepted_fleetAttestation i hn), typed, htyped,
    fleetKey i, ?_, ?_⟩
  · exact congrArg Except.ok hsigned
  · exact congrArg Except.ok (hexText_bytesToHex _).toLowerCase

theorem heartbeatMs_fleet (i : Member) (n : Nat) : heartbeatMs (fleetHealth i n) = 0 :=
  (by decide : (IsoTime.canonical "1970-01-01T00:00:00.000Z").getD 0 = 0)

theorem acceptOperator_fleet (i : Member) {n : Nat} (hn : n < 1000) :
    acceptOperator plainViem fleetEip fleetConfig 0 (fleetOperator i) (some (fleetAnswer i n)) =
      .ok (acceptedFleet i n) := by
  have hartifact := accepted_fleetArtifact i hn
  have hparse := @parseArtifact_document plainViem _ _ hartifact
  have hserialize := @serializeArtifact_document plainViem _ _ hartifact
  have hhealth := parseHealth_document (accepted_fleetHealth i hn)
  rw [checksummed_fleetHealth] at hhealth
  simp only [acceptOperator, bind_eq_ok, revertIf_eq_ok, orAlert, orThrow, mapError_eq_ok]
  refine ⟨fleetAnswer i n, rfl, (fleetHealth i n, fleetArtifact i n), ?_, (), ?_, (), ?_, (), ?_,
    _, getAddress_fleetKey i, _, getAddress_fleetKey i, (), ?_, (), ?_, (), ?_, (), ?_, (), ?_,
    bytesToHex (fleetKey i), ?_, (), ?_, ?_⟩
  · simp only [parseAnswers, bind_eq_ok]
    exact ⟨_, hhealth, _, hparse, rfl⟩
  · rw [not_or, not_not]
    exact ⟨Bool.false_ne_true, (by decide : isImmutable "public, immutable" = true)⟩
  · simp only [checkImmutable, bind_eq_ok, revertIf_eq_ok]
    exact ⟨_, hparse, _, hserialize, _, hserialize, not_not.mpr rfl⟩
  · rw [not_or, not_not, not_not]
    exact ⟨rfl, rfl⟩
  · rw [not_or, not_not, not_not]
    exact ⟨rfl, decide_eq_true ⟨rfl, rfl, rfl, rfl, rfl, rfl⟩⟩
  · rw [heartbeatMs_fleet]
    decide
  · rw [heartbeatMs_fleet]
    decide
  · exact not_not.mpr rfl
  · exact not_not.mpr (decide_eq_true ⟨rfl, rfl, rfl, rfl, rfl⟩)
  · simp only [recoverSigner, bind_eq_ok]
    exact ⟨_, recover_fleetAttestation i hn, getAddress_fleetKey i⟩
  · exact not_not.mpr rfl
  · rw [acceptedFleet]
    show Except.ok _ = Except.ok _
    congr 1
    have hnumber : bigIntOfDecimal (fleetSnapshot n).sourceBlockNumber = n := bigInt_repr n
    simp only [fleetOperator, fleetArtifact, fleetAttestation, hnumber]

def acceptedAnswers : List AcceptedOperator :=
  [acceptedFleet .a 100, acceptedFleet .b 100, acceptedFleet .c 104]

theorem nodup_fleetAnswers :
    (fleetAnswers.map FetchedZkIdentityStatusOperator.operatorId).Nodup := by
  show ["operator-a", "operator-b", "operator-c"].Nodup
  decide

theorem acceptAnswer {i : Member} {n : Nat} (hn : n < 1000)
    (hmem : fleetAnswer i n ∈ fleetAnswers) :
    acceptOperator plainViem fleetEip fleetConfig 0 (fleetOperator i)
      (fetchedById fleetAnswers (fleetOperator i).operatorId) = .ok (acceptedFleet i n) := by
  have hfetched : fetchedById fleetAnswers (fleetOperator i).operatorId = some (fleetAnswer i n) :=
    (Keyed.last_eq_some nodup_fleetAnswers).mpr ⟨hmem, rfl⟩
  rw [hfetched]
  exact acceptOperator_fleet i hn

theorem acceptOperators_fleet :
    acceptOperators plainViem fleetEip fleetConfig fleetAnswers 0 fleetConfig.operators =
      .ok ([], acceptedAnswers) := by
  have hmem : ∀ answer ∈ fleetAnswers, answer ∈ fleetAnswers := fun _ => id
  simp only [fleetAnswers, List.forall_mem_cons] at hmem
  obtain ⟨ha, hb, hc, -⟩ := hmem
  show acceptOperators _ _ _ _ _ [fleetOperator .a, fleetOperator .b, fleetOperator .c] = _
  simp only [acceptOperators, acceptAnswer (by decide) ha, acceptAnswer (by decide) hb,
    acceptAnswer (by decide) hc]
  rfl

theorem hashOf_fleet (n : Nat) : hashOf fleetEip (fleetSnapshot n) =
    if n = 100 then bytesToHex 1#256 else bytesToHex 2#256 := by
  have hiff : (fleetSnapshot n).json.compact = (fleetSnapshot 100).json.compact ↔ n = 100 := by
    rw [compact_snapshot_inj]
    constructor
    · intro h
      have hnumber := congrArg (fun w => bigIntOfDecimal w.sourceBlockNumber) h
      simpa [fleetSnapshot, bigInt_repr] using hnumber
    · rintro rfl
      rfl
  simp only [hashOf, fleetEip, apply_ite bytesToHex, hiff]

theorem candidateGroup_fleet : candidateGroup fleetConfig acceptedAnswers =
    some [acceptedFleet .a 100, acceptedFleet .b 100] := by
  have hne : bytesToHex 1#256 ≠ bytesToHex 2#256 := fun h =>
    absurd (bytesToHex_injective (by decide) h) (by decide)
  have hhash : ∀ i n, (acceptedFleet i n).attestation.snapshotHash =
      if n = 100 then bytesToHex 1#256 else bytesToHex 2#256 := fun _ n => hashOf_fleet n
  have hthreshold : fleetConfig.threshold = 2 := rfl
  simp [candidateGroup, acceptedAnswers, Keyed.group, Keyed.push, hhash, hne, hthreshold]

theorem canonicalSignerAddress_fleetKey (i : Member) (label : String) :
    canonicalSignerAddress plainViem (bytesToHex (fleetKey i)) label =
      .ok (bytesToHex (fleetKey i)) := by
  have haddress := isAddress_plain (fleetKey_ne i)
  rw [canonicalSignerAddress, if_neg, getAddress_fleetKey]
  rintro (hno | hzero)
  · exact hno haddress.1
  · exact haddress.2 hzero

theorem reconcileAttestation_fleet {expected signers : List String} {first : Option AttestationWire}
    (i : Member) (hfirst : ∀ w ∈ first, w.snapshotHash = hashOf fleetEip (fleetSnapshot 100))
    (hexpected : bytesToHex (fleetKey i) ∈ expected)
    (hsigners : bytesToHex (fleetKey i) ∉ signers) :
    reconcileAttestation plainViem fleetEip expected (first, signers)
      (fleetAttestation i 100).document =
        .ok (some (first.getD (fleetAttestation i 100)), signers ++ [bytesToHex (fleetKey i)]) := by
  have hown : (fleetAttestation i 100).snapshotHash = hashOf fleetEip (fleetSnapshot 100) := rfl
  simp only [reconcileAttestation, bind_eq_ok, revertIf_eq_ok]
  refine ⟨_, parseAttestation_document (accepted_fleetAttestation i (by decide)), (), ?_, _,
    recover_fleetAttestation i (by decide), _, canonicalSignerAddress_fleetKey i _, (),
    not_not.mpr hexpected, (), hsigners, rfl⟩
  cases first with
  | none => exact Bool.false_ne_true
  | some w =>
    rw [Option.any_some, decide_eq_true_iff, hown, hfirst w rfl]
    exact not_not.mpr rfl

def fleetSigners : List String :=
  [bytesToHex (fleetKey .a), bytesToHex (fleetKey .b)].mergeSort fun a b => decide (a ≤ b)

theorem reconcile_fleet :
    reconcileZkIdentityPackedStatusSnapshots plainViem fleetEip
      ([acceptedFleet .a 100, acceptedFleet .b 100].map fun operator => operator.attestation.document)
      (fleetConfig.operators.map ZkIdentityStatusFleetOperatorConfig.signerAddress) 2 =
        .ok ⟨fleetSnapshot 100, hashOf fleetEip (fleetSnapshot 100), fleetSigners⟩ := by
  have hnodup : [bytesToHex (fleetKey .a), bytesToHex (fleetKey .b), bytesToHex (fleetKey .c)].Nodup :=
    (by decide : [fleetKey .a, fleetKey .b, fleetKey .c].Nodup).map (bytesToHex_injective (by decide))
  have hne : bytesToHex (fleetKey .b) ∉ [bytesToHex (fleetKey .a)] := fun hmem =>
    absurd (bytesToHex_injective (by decide) (List.mem_singleton.mp hmem)) (by decide)
  have hnone : ∀ w ∈ (none : Option AttestationWire),
      w.snapshotHash = hashOf fleetEip (fleetSnapshot 100) := fun w hw =>
    absurd hw (Option.not_mem_none w)
  have hfirst : ∀ w ∈ some (fleetAttestation .a 100),
      w.snapshotHash = hashOf fleetEip (fleetSnapshot 100) := by
    intro w hw
    rw [← Option.mem_some_iff.mp hw]
    rfl
  simp only [reconcileZkIdentityPackedStatusSnapshots, bind_eq_ok, revertIf_eq_ok]
  refine ⟨[bytesToHex (fleetKey .a), bytesToHex (fleetKey .b), bytesToHex (fleetKey .c)], ?_, (),
    not_not.mpr hnodup, (), by decide, (), by decide, (some (fleetAttestation .a 100),
      [bytesToHex (fleetKey .a), bytesToHex (fleetKey .b)]), ?_, rfl⟩
  · show [bytesToHex (fleetKey .a), bytesToHex (fleetKey .b), bytesToHex (fleetKey .c)].mapM _ = _
    rw [mapM_eq_ok]
    exact .cons (canonicalSignerAddress_fleetKey .a _) (.cons (canonicalSignerAddress_fleetKey .b _)
      (.cons (canonicalSignerAddress_fleetKey .c _) .nil))
  · simp only [List.map_cons, List.map_nil, List.foldlM_cons, List.foldlM_nil, bind_eq_ok]
    exact ⟨_, reconcileAttestation_fleet .a hnone (by simp) List.not_mem_nil, _,
      reconcileAttestation_fleet .b hfirst (by simp) hne, rfl⟩

theorem nonZeroBytes32_hash {x : Hash} (hx : x ≠ ZERO_HASH) (label : String) :
    nonZeroBytes32 plainViem (bytesToHex x) label = .ok (bytesToHex x) := by
  rw [nonZeroBytes32, (hexText_bytesToHex x).toLowerCase, if_neg,
    if_neg (bytesToHex_ne_zero.mpr hx)]
  rw [not_or, not_not, not_not]
  exact isBytes_bytesToHex plainViem x

def fleetPublication : ZkIdentityStatusFleetPublication :=
  ⟨bytesToHex 0x22#256, (2).repr, bytesToHex 5#256⟩

theorem reconcileGroup_fleet : ∃ candidate,
    reconcileGroup plainViem fleetEip fleetConfig [acceptedFleet .a 100, acceptedFleet .b 100] =
      .ok (candidate, fleetPublication) := by
  have hpublication : reconciledZkIdentityStatusPublication plainViem
      ⟨fleetSnapshot 100, hashOf fleetEip (fleetSnapshot 100), fleetSigners⟩ =
        .ok ⟨bytesToHex 0x22#256, 2, bytesToHex 5#256⟩ := by
    simp only [reconciledZkIdentityStatusPublication, normalizeZkIdentityStatusSnapshotPublication,
      bind_eq_ok, revertIf_eq_ok]
    refine ⟨_, nonZeroBytes32_hash (by decide) _, _, nonZeroBytes32_hash (by decide) _, (), ?_,
      (), by decide, rfl⟩
    rw [bigInt_bytesToHex (by decide)]
    decide
  refine ⟨⟨(100).repr, bytesToHex 101#256, hashOf fleetEip (fleetSnapshot 100), fleetSigners⟩, ?_⟩
  simp only [reconcileGroup, bind_eq_ok]
  exact ⟨_, reconcile_fleet, _, hpublication, rfl⟩

theorem evaluate_fleet : ∃ report,
    evaluateZkIdentityStatusOperatorFleet plainViem fleetEip fleetConfig fleetAnswers
        (some fleetReference) 0 = .ok report ∧ report.publication = some fleetPublication := by
  obtain ⟨candidate, hreconcile⟩ := reconcileGroup_fleet
  have hquorum : quorum plainViem fleetEip fleetConfig acceptedAnswers =
      ([], some (candidate, fleetPublication)) := by
    rw [quorum, candidateGroup_fleet]
    simp only [hreconcile]
  have hhighest : highestBlock acceptedAnswers = 104 := rfl
  have hreference : referenceAlerts plainViem fleetConfig acceptedAnswers
      (some fleetReference) = [] := by
    obtain ⟨hhex, hsize⟩ := isBytes_bytesToHex plainViem 7#256
    have hlag : fleetConfig.maxBlockLag = 4 := rfl
    rw [referenceAlerts, hhighest, hlag]
    simp [fleetReference, hhex, hsize, bigInt_bytesToHex]
  have hlag : lagAlerts fleetConfig acceptedAnswers = [] := by
    rw [lagAlerts, hhighest]
    rfl
  have hdivergence : divergenceAlerts acceptedAnswers = [] := by
    have hblock : ∀ i n, (acceptedFleet i n).sourceBlock = n := fun _ _ => rfl
    have hhash : ∀ i n, (acceptedFleet i n).attestation.snapshotHash =
      hashOf fleetEip (fleetSnapshot n) := fun _ n => rfl
    simp [divergenceAlerts, acceptedAnswers, Keyed.group, Keyed.push, hblock, hhash]
  have htime : isoTime 0 = .ok "1970-01-01T00:00:00.000Z" := by decide
  refine ⟨⟨ZK_IDENTITY_STATUS_FLEET_REPORT_SCHEMA, "1970-01-01T00:00:00.000Z", true, [],
    some candidate, some fleetPublication⟩, ?_, rfl⟩
  simp only [evaluateZkIdentityStatusOperatorFleet, bind_eq_ok]
  refine ⟨_, htime, _, acceptOperators_fleet, ?_⟩
  simp only [hquorum, hreference, hlag, hdivergence, if_pos nodup_fleetAnswers]
  rfl

theorem fleet_publishes_agreed_quorum_sample :
    (∃ accepted candidate, Agreed plainViem fleetEip fleetConfig 0 fleetAnswers
      (some fleetReference) accepted candidate fleetPublication) ∧
    evaluateZkIdentityStatusOperatorFleet plainViem fleetEip fleetConfig fleetAnswers
        (some fleetReference) 0 =
      evaluateZkIdentityStatusOperatorFleet plainViem fleetEip fleetConfig fleetAnswers.reverse
        (some fleetReference) 0 := by
  obtain ⟨report, hreport, hpublication⟩ := evaluate_fleet
  obtain ⟨hagreed, horder⟩ := fleet_publishes_agreed_quorum plainViem fleetEip fleetConfig
    fleetAnswers (some fleetReference) 0
  obtain ⟨accepted, candidate, -, h⟩ := hagreed report fleetPublication hreport hpublication
  exact ⟨⟨accepted, candidate, h⟩,
    (horder _ (List.reverse_perm fleetAnswers).symm).2 nodup_fleetAnswers⟩

-- The block that is published is behind the reference block by twice the allowed lag.
theorem fleet_publishes_agreed_quorum_fails : ∃ report,
    evaluateZkIdentityStatusOperatorFleet plainViem fleetEip fleetConfig fleetAnswers
        (some fleetReference) 0 = .ok report ∧ report.publication.isSome = true ∧
      ∃ expected ∈ fleetConfig.operators, ∃ a,
        AcceptedFrom plainViem fleetEip fleetConfig 0 fleetAnswers expected a ∧
          (a.sourceBlock : Int) + fleetConfig.maxBlockLag < fleetReference.number := by
  obtain ⟨report, hreport, hpublication⟩ := evaluate_fleet
  refine ⟨report, hreport, ?_, fleetOperator .a, List.mem_cons_self, acceptedFleet .a 100, ?_, ?_⟩
  · rw [hpublication]
    rfl
  · exact acceptOperator_ok (acceptAnswer (by decide) List.mem_cons_self)
  · show ((100 : Nat) : Int) + (4 : Nat) < 108
    decide

end Ubi2.StatusOperator
