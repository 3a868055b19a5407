import Ubi2.StatusOperator.Commit
import Ubi2.StatusSnapshot.Served

namespace Ubi2.StatusOperator

open Ubi2.Runtime Ubi2.Lib Ubi2.Lib.Except Ubi2.StatusSnapshot Ubi2.StatusSnapshot.Sdk
open PackedStatusSnapshotBuilder ZkIdentityStatusOperatorStore

variable {viem : Viem} {eip : Eip712} {json : JSON} {poseidon : Poseidon} {fromStr : FromStr}
  {identity : ZkIdentityStatusOperatorIdentity}

-- What the configuration of an operator has been checked for.
structure Valid (viem : Viem) (identity : ZkIdentityStatusOperatorIdentity) : Prop where
  operatorId : isOperatorId identity.operatorId = true
  chainId : (identity.chainId : Int) ≤ MAX_SAFE_INTEGER
  issuanceRegistry : viem.isAddress identity.issuanceRegistry = true
  issuerKeyId : viem.isHex identity.issuerKeyId = true
  signerAddress : IsAddress viem identity.signerAddress

-- The identity that a cycle works with.
def ZkIdentityStatusOperatorIdentity.checksummed (viem : Viem)
    (identity : ZkIdentityStatusOperatorIdentity) : ZkIdentityStatusOperatorIdentity :=
  { identity with signerAddress := viem.getAddress identity.signerAddress }

theorem Valid.checksummed (hviem : Checksums viem) (h : Valid viem identity) :
    Valid viem (identity.checksummed viem) :=
  { h with
    signerAddress := isAddress_getAddress hviem h.signerAddress.text h.signerAddress.2 }

theorem getAddress_ok {value : String} (h : IsAddress viem value) :
    getAddress viem value = .ok (viem.getAddress value) := by
  rw [getAddress, if_neg (not_not.mpr h.text)]

theorem isErrorCode_text (code : ZkIdentityStatusOperatorErrorCode) :
    isErrorCode code.text = true := by
  cases code <;> decide

theorem checkpointHealth_ok {w : SnapshotWire} {observedAt : String}
    {state : ZkIdentityStatusOperatorState} {failures : Nat}
    {code : Option ZkIdentityStatusOperatorErrorCode} (hvalid : Valid viem identity)
    (h : Own poseidon identity w) (htime : (IsoTime.canonical observedAt).isSome = true)
    (hagrees : agrees state failures (code.map ZkIdentityStatusOperatorErrorCode.text) = true) :
    ∃ health, checkpointHealth viem eip identity w observedAt state failures code = .ok health ∧
      ((failures : Int) ≤ MAX_SAFE_INTEGER → HealthAccepted viem health) := by
  have haccepted := h.accepted
  have hnext := haccepted.nextBound
  obtain ⟨registry, hregistry, hregistryText⟩ := haccepted.issuanceRegistry
  have hregistryOk : IsAddress viem w.issuanceRegistry := by
    have htext := hexText_bytesToHex registry
    rw [hregistryText]
    refine ⟨?_, ?_⟩
    · rw [Viem.isAddress, decide_eq_true_iff, isAddressText, decide_eq_true_iff]
      exact ⟨⟨htext.isHexText, by rw [htext.length, Hex.length_fixed]⟩, .inl htext.toLowerCase⟩
    · rw [bigInt_bytesToHex (by decide)]
      exact fun hzero => hregistry (BitVec.eq_of_toNat_eq hzero)
  rw [checkpointHealth, snapshotHash_document haccepted]
  refine ⟨_, rfl, fun hfailures => ?_⟩
  exact
    { schema := rfl
      operatorId := hvalid.operatorId
      observedAt := htime
      consecutiveFailures := hfailures
      errorCode := by
        intro text htext
        obtain ⟨code, -, rfl⟩ := Option.map_eq_some_iff.mp htext
        exact isErrorCode_text code
      agrees := hagrees
      chainId := haccepted.chainId
      issuanceRegistry := hregistryOk
      issuerKeyId := haccepted.issuerKeyId.1
      signerAddress := hvalid.signerAddress
      sourceBlockNumber := haccepted.sourceBlockNumber
      sourceBlockHash := haccepted.sourceBlockHash.1
      snapshotHash := isBytes32_bytesToHex _
      root := haccepted.root.1
      nextPos := haccepted.nextPos
      nextBound := by
        rw [ZK_IDENTITY_MAX_NEXT_STATUS_ID] at hnext
        show (w.nextStatusId : Int) ≤ MAX_SAFE_INTEGER
        rw [MAX_SAFE_INTEGER]
        omega }

section

variable {checkpoint : SnapshotWire} {latest : Option ZkIdentityStatusOperatorArtifact}
  {disk : StoreDisk} {C : StoreDisk → Prop}

-- The health file is written, or refused for its contents. The other files stay.
theorem wp_writeHealth {Q : ZkIdentityStatusOperatorHealth → StoreDisk → Prop}
    {E : String → StoreDisk → Prop} {health : ZkIdentityStatusOperatorHealth}
    (hviem : Checksums viem) (h : Kept viem eip poseidon identity checkpoint latest disk)
    (hQ : ∀ parsed d, Kept viem eip poseidon identity checkpoint latest d →
      (disk.outcomes = [] → d.outcomes = []) → Q parsed d)
    (hE : disk.outcomes ≠ [] ∨ ¬HealthAccepted viem health → ∀ e d,
      Kept viem eip poseidon identity checkpoint latest d → (disk.outcomes = [] → d.outcomes = []) →
        E e d)
    (hC : disk.outcomes ≠ [] → ∀ d, Kept viem eip poseidon identity checkpoint latest d → C d) :
    (writeHealth viem health.document).wp Q E C disk := by
  have hrefused : ∀ {α : Type} {x : Except String α} {e : String}, x = .error e →
      (HealthAccepted viem health → ∃ a, x = .ok a) → ∀ e, E e disk := by
    rintro α _ e rfl hok e'
    refine hE (.inr fun haccepted => ?_) e' disk h id
    obtain ⟨_, hok⟩ := hok haccepted
    cases hok
  rw [writeHealth, Process.wp_bind, Process.wp_ofExcept]
  refine ⟨fun parsed hparsed => ?_, fun e he => hrefused he (fun haccepted => ?_) e⟩
  · rw [Process.wp_bind, Process.wp_ofExcept]
    refine ⟨fun text _ => ?_, fun e he => hrefused he (fun haccepted => ?_) e⟩
    · rw [Process.wp_bind, atomicWrite]
      refine Disk.wp_write ?_ ?_ ?_
      · rw [Process.wp_pure]
        exact hQ parsed _ (h.put_health text true) fun heq => Disk.put_outcomes heq true
      · exact fun hfaults applied => hE (.inl hfaults) _ _ (h.put_health text applied) fun heq =>
          Disk.put_outcomes heq applied
      · exact fun hfaults applied => hC hfaults _ (h.put_health text applied)
    · rw [parseHealth_document haccepted, Except.ok.injEq] at hparsed
      subst hparsed
      rw [serializeZkIdentityStatusOperatorHealth,
        parseHealth_document (haccepted.checksummed hviem)]
      exact ⟨_, rfl⟩
  · exact ⟨_, parseHealth_document haccepted⟩

theorem wp_reportHealthy {Q : ZkIdentityStatusOperatorHealth → StoreDisk → Prop}
    {E : ZkIdentityStatusOperatorErrorCode → StoreDisk → Prop} {w : SnapshotWire}
    {observedAt : String} (hviem : Checksums viem) (hvalid : Valid viem identity)
    (htime : (IsoTime.canonical observedAt).isSome = true) (hw : Own poseidon identity w)
    (h : Kept viem eip poseidon identity checkpoint latest disk)
    (hQ : ∀ health d, Kept viem eip poseidon identity checkpoint latest d →
      (disk.outcomes = [] → d.outcomes = []) → Q health d)
    (hE : disk.outcomes ≠ [] → ∀ code d, Kept viem eip poseidon identity checkpoint latest d →
      E code d)
    (hC : disk.outcomes ≠ [] → ∀ d, Kept viem eip poseidon identity checkpoint latest d → C d) :
    (reportHealthy viem eip identity w observedAt).wp Q E C disk := by
  obtain ⟨health, hhealth, haccepted⟩ := @checkpointHealth_ok _ eip _ _ _ _ .healthy 0 none hvalid hw htime rfl
  rw [reportHealthy, Process.wp_bind, wp_attempt, hhealth]
  refine ⟨?_, nofun⟩
  rintro _ ⟨⟩
  rw [Process.wp_bind, wp_within]
  refine wp_writeHealth hviem h (fun _ d hd houtcomes => hQ health d hd houtcomes) ?_ hC
  rintro (hfaults | hno) e d hd -
  · exact hE hfaults _ d hd
  · exact absurd (haccepted (by decide)) hno

theorem wp_reportDegraded {Q : ZkIdentityStatusOperatorCycleResult → StoreDisk → Prop}
    {E : String → StoreDisk → Prop} {w : SnapshotWire} {observedAt : String}
    {code : ZkIdentityStatusOperatorErrorCode} (hviem : Checksums viem)
    (hvalid : Valid viem identity) (htime : (IsoTime.canonical observedAt).isSome = true)
    (hw : Own poseidon identity w)
    (h : Kept viem eip poseidon identity checkpoint latest disk)
    (hQ : ∀ code health d, Kept viem eip poseidon identity checkpoint latest d →
      (disk.outcomes = [] → d.outcomes = []) → Q (.failed code health) d)
    (hC : disk.outcomes ≠ [] → ∀ d, Kept viem eip poseidon identity checkpoint latest d → C d) :
    (reportDegraded viem eip json identity w observedAt code).wp Q E C disk := by
  have hreport : ∀ failures,
      (Process.bind (Process.ofExcept (checkpointHealth viem eip identity w observedAt .degraded
        (failures + 1) (some code))) fun health => Process.handle (do
          let _ ← writeHealth viem health.document
          pure (ZkIdentityStatusOperatorCycleResult.failed code (some health)))
        fun _ => pure (.failed .STORAGE_FAILED none)).wp Q E C disk := by
    intro failures
    obtain ⟨health, hhealth, -⟩ := @checkpointHealth_ok _ eip _ _ _ _ .degraded
      (failures + 1) (some code) hvalid hw htime (by simp [agrees])
    have hbind : ∀ {α β : Type} (p : StoreProcess α) (f : α → StoreProcess β),
        p.bind f = p >>= f := fun _ _ => rfl
    rw [hbind, Process.wp_bind, hhealth, Process.wp_ofExcept_ok, Process.wp_handle, Process.wp_bind]
    refine wp_writeHealth hviem h ?_ ?_ hC
    · intro _ d hd houtcomes
      rw [Process.wp_pure]
      exact hQ _ _ d hd houtcomes
    · intro _ _ d hd houtcomes
      rw [Process.wp_pure]
      exact hQ _ _ d hd houtcomes
  rw [reportDegraded, Process.wp_bind, previousFailures, Process.wp_handle, Process.wp_bind,
    readHealth, Process.wp_bind, readFile, Process.wp_read]
  cases hfile : disk.files .health with
  | none => exact hreport 0
  | some text =>
    rw [Process.wp_bind, Process.wp_ofExcept]
    exact ⟨fun health _ => hreport health.consecutiveFailures, fun _ _ => hreport 0⟩

end

-- A cycle asks for the chain behind its checkpoint.
theorem matches_collectInput {b : PackedStatusSnapshotBuilder} {w : SnapshotWire}
    {input : RunZkIdentityStatusOperatorCycleInput} (hw : (b.snapshot poseidon).toWire = some w)
    (htrusted : trusts input.identity w = true) :
    Matches (collectInput input w) (b.snapshot poseidon) := by
  obtain ⟨hchain, hregistry, hissuer, hnext, hnumber, hhash, hparent⟩ := toWire_fields hw
  obtain ⟨hchain', hregistry', hissuer'⟩ := trusts_iff.mp htrusted
  have hchainId : input.identity.chainId = b.chainId := by
    rw [← bigInt_repr input.identity.chainId, ← hchain', hchain, bigInt_repr]
  refine ⟨?_, ?_, ?_, ?_, ?_⟩
  · show JsValue.integer (input.identity.chainId : Int) = _
    rw [hchainId]
    rfl
  · show toLowerCase input.identity.issuanceRegistry = _
    rw [← hregistry', hregistry, (hexText_bytesToHex _).toLowerCase]
    rfl
  · show toLowerCase input.identity.issuerKeyId = _
    rw [← hissuer', hissuer]
    rfl
  · rw [collectInput, hnumber, bigInt_repr, hhash, hparent]
    rfl
  · show (w.nextStatusId : Int) = _
    rw [hnext]
    rfl

section

variable {checkpoint next : SnapshotWire} {latest : Option ZkIdentityStatusOperatorArtifact}
  {disk : StoreDisk} {C : StoreDisk → Prop} {input : RunZkIdentityStatusOperatorCycleInput}
  {t : SourceWire}

-- What the node's answers give for a checkpoint.
def collected (viem : Viem) (input : RunZkIdentityStatusOperatorCycleInput)
    (checkpoint : SnapshotWire) : Except String SourceWire :=
  collectZkIdentityFinalizedStatusTranscript viem (collectInput input checkpoint)

-- The snapshot ends where the transcript does.
theorem Makes.blockNumber (h : Makes poseidon fromStr checkpoint t next)
    (hown : Own poseidon input.identity checkpoint) (hcollect : collected viem input checkpoint = .ok t) :
    blockNumber next = blockNumber checkpoint + t.blocks.length := by
  obtain ⟨b, -, hw⟩ := hown.made
  obtain ⟨answer, finalized, hcollected⟩ :=
    (matches_collectInput hw hown.trusted).collected hcollect
  have hfollows := hcollected.follows
  have hsource := h.source
  rw [matchesSource, decide_eq_true_iff] at hsource
  have hanchor : StatusOperator.blockNumber checkpoint = b.tip.number := by
    rw [StatusOperator.blockNumber, (toWire_fields hw).2.2.2.2.1, bigInt_repr]
  rw [StatusOperator.blockNumber, hsource.1, hfollows.tipNumber, bigInt_repr, hanchor]
  exact hfollows.length.symm

-- Of an empty transcript the builder makes the checkpoint again.
theorem advance_empty {output : String}
    (hnonzero : ∀ left right, registryNode poseidon left right ≠ 0)
    (hread : fromStr.ReadsBack) (hsource : fromStr.ReadsSource)
    (hown : Own poseidon identity checkpoint) (hempty : t.blocks = [])
    (h : advancePackedStatusSnapshotFromJson poseidon fromStr checkpoint.json.compact
      t.json.compact = some (.ok output)) : output = checkpoint.json.compact := by
  obtain ⟨b, hsound, hw⟩ := hown.made
  obtain ⟨parsed, b', next, hparsed, happly, hnext, rfl⟩ := advance_inv hsound hnonzero hread hw h
  have htext : fromStr.source t.json.compact = some t := by
    refine hsource t ⟨fun block hblock => ?_⟩
    rw [hempty] at hblock
    cases hblock
  have hblocks := ((parseSourceJson_iff htext).mp hparsed).blocks
  rw [hempty, List.mapM_nil, pure_eq_ok] at hblocks
  rw [← hblocks, applySourceBlocks, Except.ok.injEq] at happly
  have hsame : (b'.snapshot poseidon).toWire = (b.snapshot poseidon).toWire := by
    rw [← happly]
    rfl
  rw [hsame, hw, Option.some.injEq] at hnext
  rw [hnext]

theorem Makes.eq_checkpoint (hnonzero : ∀ left right, registryNode poseidon left right ≠ 0)
    (hread : fromStr.ReadsBack) (hsource : fromStr.ReadsSource)
    (h : Makes poseidon fromStr checkpoint t next) (hown : Own poseidon identity checkpoint)
    (hempty : t.blocks = []) : next = checkpoint :=
  compact_snapshot_inj.mp (advance_empty hnonzero hread hsource hown hempty
    (builder_advance.mp h.output).1)

theorem Makes.follows (hnonzero : ∀ left right, registryNode poseidon left right ≠ 0)
    (hread : fromStr.ReadsBack) (hsource : fromStr.ReadsSource)
    (h : Makes poseidon fromStr checkpoint t next) (hown : Own poseidon input.identity checkpoint)
    (hcollect : collected viem input checkpoint = .ok t) : Follows eip checkpoint next := by
  have hnumber := h.blockNumber hown hcollect
  cases hblocks : t.blocks with
  | nil =>
    rw [h.eq_checkpoint hnonzero hread hsource hown hblocks]
    exact .inr ⟨rfl, rfl⟩
  | cons block rest =>
    rw [hblocks, List.length_cons] at hnumber
    exact .inl (by omega)

theorem Makes.unique {other : SnapshotWire} (h : Makes poseidon fromStr checkpoint t next)
    (h' : Makes poseidon fromStr checkpoint t other) : other = next := by
  have hout := h'.output
  rw [h.output, Except.ok.injEq] at hout
  exact (compact_snapshot_inj.mp hout).symm

-- A cycle that has come to its end: the last artifact stands, or one of a new snapshot.
inductive Ended (viem : Viem) (eip : Eip712) (poseidon : Poseidon) (fromStr : FromStr)
    (input : RunZkIdentityStatusOperatorCycleInput) (checkpoint : SnapshotWire)
    (latest : Option ZkIdentityStatusOperatorArtifact) (a : ZkIdentityStatusOperatorArtifact)
    (disk : StoreDisk) : Prop where
  | current (t : SourceWire) (collect : collected viem input checkpoint = .ok t)
      (empty : t.blocks = []) (same : latest = some a)
      (hash : a.attestation.snapshotHash = hashOf eip checkpoint)
      (h : Kept viem eip poseidon input.identity checkpoint latest disk)
  | advanced (t : SourceWire) (next : SnapshotWire)
      (collect : collected viem input checkpoint = .ok t)
      (makes : Makes poseidon fromStr checkpoint t next)
      (hash : a.attestation.snapshotHash = hashOf eip next)
      (h : Kept viem eip poseidon input.identity next (some a) disk)

-- What a cycle leaves that comes to no end.
inductive Left (viem : Viem) (eip : Eip712) (poseidon : Poseidon) (fromStr : FromStr)
    (input : RunZkIdentityStatusOperatorCycleInput) (checkpoint : SnapshotWire)
    (latest : Option ZkIdentityStatusOperatorArtifact) (disk : StoreDisk) : Prop where
  | stayed (h : Kept viem eip poseidon input.identity checkpoint latest disk)
  | moved (t : SourceWire) (next : SnapshotWire)
      (collect : collected viem input checkpoint = .ok t)
      (makes : Makes poseidon fromStr checkpoint t next)
      (h : Stage viem eip poseidon input.identity checkpoint latest next disk)

-- Nothing that can be signed comes of the node's answers.
def Refused (viem : Viem) (eip : Eip712) (poseidon : Poseidon) (fromStr : FromStr)
    (input : RunZkIdentityStatusOperatorCycleInput) (checkpoint : SnapshotWire) : Prop :=
  ∀ t next, collected viem input checkpoint = .ok t → Makes poseidon fromStr checkpoint t next →
    ¬Signs viem eip input.identity input.signer next

theorem wp_holding {α : Type} {w : Option SnapshotWire} {p : CycleProcess α}
    {Q : α → StoreDisk → Prop}
    {E : Option SnapshotWire × ZkIdentityStatusOperatorErrorCode → StoreDisk → Prop} :
    (holding w p).wp Q E C disk ↔ p.wp Q (fun code => E (w, code)) C disk := Process.wp_handle

-- A cycle on a trusted checkpoint, after its transcript has been collected.
theorem wp_cycleBody_collected {Q : ZkIdentityStatusOperatorCycleResult → StoreDisk → Prop}
    {E : Option SnapshotWire × ZkIdentityStatusOperatorErrorCode → StoreDisk → Prop}
    {observedAt : String} (hjson : json.ReadsBack)
    (h : Kept viem eip poseidon input.identity checkpoint latest disk)
    (herror : ∀ e, collected viem input checkpoint = .error e →
      E (some checkpoint, .INGESTION_FAILED) disk)
    (hkeep : ∀ t a, collected viem input checkpoint = .ok t → t.blocks = [] → latest = some a →
      a.attestation.snapshotHash = hashOf eip checkpoint →
        (keepLatest viem eip input checkpoint a observedAt).wp Q E C disk)
    (hpublish : ∀ t, collected viem input checkpoint = .ok t →
      (publishNext viem eip json input checkpoint t observedAt).wp Q E C disk) :
    (cycleBody viem eip json input observedAt).wp Q E C disk := by
  have hown := h.own
  rw [cycleBody, Process.wp_bind, wp_holding, Process.wp_bind, wp_within]
  refine wp_readCheckpointJson hjson h ?_
  refine wp_trustedSnapshot hjson hown.accepted (fun _ => ?_) fun hno => ?_
  swap
  · rw [hown.trusted] at hno
    cases hno
  rw [Process.wp_bind, wp_holding, Process.wp_bind, wp_attempt]
  refine ⟨fun t ht => ?_, herror⟩
  rw [← collected] at ht
  rw [Process.wp_bind, wp_within]
  refine wp_readLatest hjson h ?_
  rw [Process.wp_bind, wp_attempt, snapshotHash_document hown.accepted]
  refine ⟨fun checkpointHash hcheckpoint => ?_, nofun⟩
  rw [Except.ok.injEq] at hcheckpoint
  subst hcheckpoint
  rw [Process.wp_pure]
  dsimp only
  split
  · rename_i a hcurrent
    obtain ⟨hsame, hfilter⟩ := Option.filter_eq_some_iff.mp hcurrent
    rw [Bool.and_eq_true, List.isEmpty_iff, isCurrent, decide_eq_true_iff] at hfilter
    exact hkeep t a ht hfilter.1 hsame hfilter.2.2
  · exact hpublish t ht

-- What is left to a publication is its commit.
theorem wp_publishNext {Q : ZkIdentityStatusOperatorCycleResult → StoreDisk → Prop}
    {E : Option SnapshotWire × ZkIdentityStatusOperatorErrorCode → StoreDisk → Prop}
    {observedAt : String} (hnonzero : ∀ left right, registryNode poseidon left right ≠ 0)
    (hread : fromStr.ReadsBack) (hjson : json.ReadsBack) (hviem : Checksums viem)
    (hvalid : Valid viem input.identity)
    (hbuilder : input.builder = RustPackedStatusBuilder poseidon fromStr)
    (htime : (IsoTime.canonical observedAt).isSome = true)
    (hown : Own poseidon input.identity checkpoint)
    (hrefused : (∀ next, Makes poseidon fromStr checkpoint t next →
      ¬Signs viem eip input.identity input.signer next) → ∀ code, E (some checkpoint, code) disk)
    (hcommit : ∀ next a, Own poseidon input.identity next →
      Makes poseidon fromStr checkpoint t next → Published viem eip input.identity a →
      a.attestation.snapshot = next →
      (commit viem eip json a.document).wp
        (fun durable d => Kept viem eip poseidon input.identity next (some durable) d ∧
          (d.outcomes ≠ [] → ∀ code d', Kept viem eip poseidon input.identity next (some durable) d' →
            E (some next, code) d') ∧
          (d.outcomes ≠ [] → ∀ d', Kept viem eip poseidon input.identity next (some durable) d' →
            C d') ∧
          ∀ advanced health d', Kept viem eip poseidon input.identity next (some durable) d' →
            (d.outcomes = [] → d'.outcomes = []) → Q (.ok advanced durable health) d')
        (fun _ d => E (some checkpoint, .STORAGE_FAILED) d) C disk) :
    (publishNext viem eip json input checkpoint t observedAt).wp Q E C disk := by
  rw [publishNext, Process.wp_bind, wp_holding, Process.wp_bind]
  refine wp_advanceSnapshot hnonzero hread hjson hown hbuilder (fun next hnext hmakes => ?_)
    fun code hno => hrefused (fun next hmakes => absurd hmakes (hno next)) code
  rw [Process.wp_bind]
  refine wp_signSnapshot hnext.accepted hvalid.operatorId (fun a ha hsnapshot => ?_)
    fun code hno => hrefused (fun other hother => hmakes.unique hother ▸ hno) code
  rw [Process.wp_bind, wp_within]
  refine Process.wp_mono (hcommit next a hnext hmakes ha hsnapshot) ?_ (fun _ _ hd => hd)
    fun _ hd => hd
  rintro durable d ⟨hd, hE, hC, hQ⟩
  have hsigned := (hd.published durable rfl).signed
  rw [Process.wp_pure]
  dsimp only
  rw [wp_holding, Process.wp_bind]
  refine wp_checkSigner (fun _ => ?_) fun hno => absurd hsigned hno
  rw [Process.wp_bind]
  refine wp_reportHealthy hviem hvalid htime hnext hd ?_ hE hC
  intro health d' hd' houtcomes
  rw [Process.wp_pure]
  exact hQ _ health d' hd' houtcomes

theorem wp_cycleBody {Q : ZkIdentityStatusOperatorCycleResult → StoreDisk → Prop}
    {E : Option SnapshotWire × ZkIdentityStatusOperatorErrorCode → StoreDisk → Prop}
    {observedAt : String} (hnonzero : ∀ left right, registryNode poseidon left right ≠ 0)
    (hread : fromStr.ReadsBack) (hsource : fromStr.ReadsSource) (hjson : json.ReadsBack)
    (hviem : Checksums viem) (hvalid : Valid viem input.identity)
    (hbuilder : input.builder = RustPackedStatusBuilder poseidon fromStr)
    (htime : (IsoTime.canonical observedAt).isSome = true)
    (h : Kept viem eip poseidon input.identity checkpoint latest disk)
    (hQ : ∀ advanced a health d,
      Ended viem eip poseidon fromStr input checkpoint latest a d →
        (disk.outcomes = [] → d.outcomes = []) → Q (.ok advanced a health) d)
    (hE : disk.outcomes ≠ [] ∨ Refused viem eip poseidon fromStr input checkpoint →
      ∀ w code d, Own poseidon input.identity w →
        Left viem eip poseidon fromStr input checkpoint latest d →
          (disk.outcomes = [] → d.outcomes = []) → E (some w, code) d)
    (hC : disk.outcomes ≠ [] → ∀ d, Left viem eip poseidon fromStr input checkpoint latest d → C d) :
    (cycleBody viem eip json input observedAt).wp Q E C disk := by
  have hown := h.own
  refine wp_cycleBody_collected hjson h (fun e he => ?_) (fun t a ht hempty hsame hhash => ?_)
    fun t ht => ?_
  · refine hE (.inr fun t next ht => ?_) _ _ disk hown (.stayed h) id
    rw [he] at ht
    cases ht
  · have hsigned := (h.published a hsame).signed
    rw [keepLatest, wp_holding, Process.wp_bind]
    refine wp_checkSigner (fun _ => ?_) fun hno => absurd hsigned hno
    rw [Process.wp_bind]
    refine wp_reportHealthy hviem hvalid htime hown h ?_ ?_ ?_
    · intro health d hd houtcomes
      rw [Process.wp_pure]
      exact hQ _ _ _ d (.current t ht hempty hsame hhash hd) houtcomes
    · exact fun hfaults code d hd => hE (.inl hfaults) _ _ d hown (.stayed hd)
        fun heq => absurd heq hfaults
    · exact fun hfaults d hd => hC hfaults d (.stayed hd)
  · refine wp_publishNext hnonzero hread hjson hviem hvalid hbuilder htime hown ?_ ?_
    · intro hno code
      refine hE (.inr fun t' next ht' hmakes => ?_) _ _ disk hown (.stayed h) id
      rw [ht, Except.ok.injEq] at ht'
      subst ht'
      exact hno next hmakes
    intro next a hnext hmakes ha hsnapshot
    have hfollows : Follows eip checkpoint next := hmakes.follows hnonzero hread hsource hown ht
    have hleft : ∀ d, Stage viem eip poseidon input.identity checkpoint latest
        a.attestation.snapshot d →
        Left viem eip poseidon fromStr input checkpoint latest d := by
      intro d hd
      rw [hsnapshot] at hd
      exact .moved t next ht hmakes hd
    refine wp_commit hjson h ha (hsnapshot.symm ▸ hnext) ?_ ?_ ?_
    · intro durable d hd hhash _ houtcomes
      rw [hsnapshot] at hd hhash
      have hfaulty : d.outcomes ≠ [] → disk.outcomes ≠ [] := fun hne heq => hne (houtcomes heq)
      have hleft' : ∀ d', Kept viem eip poseidon input.identity next (some durable) d' →
          Left viem eip poseidon fromStr input checkpoint latest d' :=
        fun d' hd' => .moved t next ht hmakes (.committed durable hhash hfollows hd')
      refine ⟨hd, ?_, ?_, ?_⟩
      · exact fun hfaults code d' hd' => hE (.inl (hfaulty hfaults)) _ _ d' hnext (hleft' d' hd')
          fun heq => absurd heq (hfaulty hfaults)
      · exact fun hfaults d' hd' => hC (hfaulty hfaults) d' (hleft' d' hd')
      · exact fun advanced health d' hd' houtcomes' => hQ _ _ _ d'
          (.advanced t next ht hmakes hhash hd') fun heq => houtcomes' (houtcomes heq)
    · rintro (hfaults | hno) e d hd
      · exact hE (.inl hfaults) _ _ d hown (hleft d hd) fun heq => absurd heq hfaults
      · rw [hsnapshot] at hno
        exact absurd hfollows hno
    · exact fun hfaults d hd => hC hfaults d (hleft d hd)

-- What is left keeps a checkpoint and a last artifact, and is the same with other health.
theorem Left.kept (h : Left viem eip poseidon fromStr input checkpoint latest disk) :
    ∃ w a, Kept viem eip poseidon input.identity w a disk ∧
      ∀ d, Kept viem eip poseidon input.identity w a d →
        Left viem eip poseidon fromStr input checkpoint latest d := by
  cases h with
  | stayed h => exact ⟨_, _, h, fun _ => .stayed⟩
  | moved t next collect makes h =>
    cases h with
    | before h => exact ⟨_, _, h, fun _ hd => .moved t next collect makes (.before hd)⟩
    | published a hash follows h =>
      exact ⟨_, _, h, fun _ hd => .moved t next collect makes (.published a hash follows hd)⟩
    | committed a hash follows h =>
      exact ⟨_, _, h, fun _ hd => .moved t next collect makes (.committed a hash follows hd)⟩

-- A cycle as it sees itself.
def checksummedInput (viem : Viem) (input : RunZkIdentityStatusOperatorCycleInput) :
    RunZkIdentityStatusOperatorCycleInput :=
  { input with identity := input.identity.checksummed viem }

theorem collected_checksummed : collected viem (checksummedInput viem input) checkpoint =
    collected viem input checkpoint := rfl

-- A cycle with a valid identity at a time that has a text.
theorem wp_cycle_body {Q : ZkIdentityStatusOperatorCycleResult → StoreDisk → Prop}
    {E : String → StoreDisk → Prop} (hvalid : Valid viem input.identity)
    (hnone : IsoTime.toISOString input.now = none → ∀ e, E e disk)
    (hbody : ∀ observedAt, (IsoTime.canonical observedAt).isSome = true →
      (cycleBody viem eip json (checksummedInput viem input) observedAt).wp Q
        (fun (held, code) d =>
          (match held with
          | none => pure (.failed code none)
          | some w => reportDegraded viem eip json (checksummedInput viem input).identity w observedAt
              code : StoreProcess ZkIdentityStatusOperatorCycleResult).wp Q E C d) C disk) :
    (runZkIdentityStatusOperatorCycle viem eip json input).wp Q E C disk := by
  rw [runZkIdentityStatusOperatorCycle, Process.wp_bind,
    canonicalOperatorId_ok.mpr ⟨rfl, hvalid.operatorId⟩, Process.wp_ofExcept_ok, Process.wp_bind,
    getAddress_ok hvalid.signerAddress, Process.wp_ofExcept_ok, Process.wp_bind, isoTime]
  cases htime : IsoTime.toISOString input.now with
  | none => exact hnone htime _
  | some observedAt =>
    rw [Process.wp_ofExcept_ok, Process.wp_handle]
    refine hbody observedAt ?_
    rw [IsoTime.canonical_iff.mpr htime]
    rfl

theorem wp_cycle {Q : ZkIdentityStatusOperatorCycleResult → StoreDisk → Prop}
    {E : String → StoreDisk → Prop}
    (hnonzero : ∀ left right, registryNode poseidon left right ≠ 0)
    (hread : fromStr.ReadsBack) (hsource : fromStr.ReadsSource) (hjson : json.ReadsBack)
    (hviem : Checksums viem) (hvalid : Valid viem input.identity)
    (hbuilder : input.builder = RustPackedStatusBuilder poseidon fromStr)
    (h : Kept viem eip poseidon (input.identity.checksummed viem) checkpoint latest disk)
    (hQ : ∀ advanced a health d,
      Ended viem eip poseidon fromStr (checksummedInput viem input) checkpoint latest a d →
        (disk.outcomes = [] → d.outcomes = []) → Q (.ok advanced a health) d)
    (hF : disk.outcomes ≠ [] ∨
        Refused viem eip poseidon fromStr (checksummedInput viem input) checkpoint →
      ∀ code health d,
        Left viem eip poseidon fromStr (checksummedInput viem input) checkpoint latest d →
          (disk.outcomes = [] → d.outcomes = []) → Q (.failed code health) d)
    (hE : IsoTime.toISOString input.now = none → ∀ e, E e disk)
    (hC : disk.outcomes ≠ [] → ∀ d,
      Left viem eip poseidon fromStr (checksummedInput viem input) checkpoint latest d → C d) :
    (runZkIdentityStatusOperatorCycle viem eip json input).wp Q E C disk := by
  have hvalid' : Valid viem (checksummedInput viem input).identity := hvalid.checksummed hviem
  refine wp_cycle_body hvalid hE fun observedAt htime => ?_
  refine wp_cycleBody hnonzero hread hsource hjson hviem hvalid' hbuilder htime h hQ ?_ hC
  intro hrefused w code d hw hleft houtcomes
  obtain ⟨w', a', hkept, hagain⟩ := hleft.kept
  have hfaulty : d.outcomes ≠ [] → disk.outcomes ≠ [] := fun hne heq => hne (houtcomes heq)
  refine wp_reportDegraded hviem hvalid' htime hw hkept ?_ ?_
  · exact fun code' health d' hd' houtcomes' => hF hrefused code' health d' (hagain d' hd')
      fun heq => houtcomes' (houtcomes heq)
  · exact fun hfaults d' hd' => hC (hfaulty hfaults) d' (hagain d' hd')

end

end Ubi2.StatusOperator
