import Ubi2.StatusOperator.Cycle

namespace Ubi2.StatusOperator

open Ubi2.Runtime Ubi2.Lib Ubi2.Lib.Except Ubi2.StatusSnapshot Ubi2.StatusSnapshot.Sdk
open PackedStatusSnapshotBuilder ZkIdentityStatusOperatorStore

variable {viem : Viem} {eip : Eip712} {json : JSON} {poseidon : Poseidon} {fromStr : FromStr}
  {identity : ZkIdentityStatusOperatorIdentity}

theorem trusts_iff {w : SnapshotWire} : trusts identity w = true ↔
    w.chainId = identity.chainId.repr ∧
      toLowerCase w.issuanceRegistry = toLowerCase identity.issuanceRegistry ∧
      w.issuerKeyId = toLowerCase identity.issuerKeyId := by
  rw [trusts, decide_eq_true_iff]

-- The fields of a snapshot that no block changes.
theorem trusts_congr {w w' : SnapshotWire} (hchain : w'.chainId = w.chainId)
    (hregistry : w'.issuanceRegistry = w.issuanceRegistry)
    (hissuer : w'.issuerKeyId = w.issuerKeyId) : trusts identity w' = trusts identity w := by
  rw [trusts, trusts, hchain, hregistry, hissuer]

-- The fields of a builder's snapshot in the text.
theorem toWire_fields {b : PackedStatusSnapshotBuilder} {w : SnapshotWire}
    (hw : (b.snapshot poseidon).toWire = some w) :
    w.chainId = b.chainId.repr ∧ w.issuanceRegistry = bytesToHex b.issuanceRegistry ∧
      w.issuerKeyId = bytesToHex b.issuerKeyId ∧ w.nextStatusId = b.nextStatusId ∧
      w.sourceBlockNumber = b.tip.number.repr ∧ w.sourceBlockHash = bytesToHex b.tip.hash ∧
      w.sourceBlockParentHash = bytesToHex b.tip.parentHash := by
  obtain ⟨_, -, rfl⟩ := Option.map_eq_some_iff.mp hw
  exact ⟨rfl, rfl, rfl, rfl, rfl, rfl, rfl⟩

-- A sound builder behind another, with the blocks that it took since.
theorem Own.of_applied {b b' : PackedStatusSnapshotBuilder} {w w' : SnapshotWire}
    {blocks : List FinalizedStatusBlock} (hsound : Sound poseidon b)
    (hnonzero : ∀ left right, registryNode poseidon left right ≠ 0)
    (hw : (b.snapshot poseidon).toWire = some w) (htrusted : trusts identity w = true)
    (happly : applySourceBlocks poseidon (b.onto b.tip []) blocks = .ok b')
    (hw' : (b'.snapshot poseidon).toWire = some w') : Own poseidon identity w' := by
  obtain ⟨hsound', -, hchain, hregistry, hissuer⟩ :=
    (hsound.restored hnonzero).applySourceBlocks happly
  obtain ⟨hc, hr, hi, -⟩ := toWire_fields hw
  obtain ⟨hc', hr', hi', -⟩ := toWire_fields hw'
  refine ⟨(hsound'.accepted hnonzero hw').1, ⟨b', hsound', hw'⟩, ?_⟩
  rw [← htrusted]
  refine trusts_congr ?_ ?_ ?_
  · rw [hc, hc', hchain]
    rfl
  · rw [hr, hr', hregistry]
    rfl
  · rw [hi, hi', hissuer]
    rfl

theorem builder_advance {checkpoint source output : String} :
    (RustPackedStatusBuilder poseidon fromStr).advance checkpoint source = .ok output ↔
      advancePackedStatusSnapshotFromJson poseidon fromStr checkpoint source = some (.ok output) ∧
        output.utf8ByteSize < MAX_BUFFER := by
  simp only [RustPackedStatusBuilder]
  split
  · rename_i out hout
    rw [hout, check_eq_ok, Except.ok.injEq, Option.some.injEq, Except.ok.injEq]
    constructor
    · rintro ⟨hsize, rfl⟩
      exact ⟨rfl, by omega⟩
    · rintro ⟨rfl, hsize⟩
      exact ⟨by omega, rfl⟩
  · rename_i hno
    constructor
    · intro h
      cases h
    · rintro ⟨h, -⟩
      exact absurd h (hno _)

-- What the builder has done when it has made something of its own snapshot.
theorem advance_inv {b : PackedStatusSnapshotBuilder} {w : SnapshotWire} {source output : String}
    (hsound : Sound poseidon b) (hnonzero : ∀ left right, registryNode poseidon left right ≠ 0)
    (hread : fromStr.ReadsBack) (hw : (b.snapshot poseidon).toWire = some w)
    (hout : advancePackedStatusSnapshotFromJson poseidon fromStr w.json.compact source =
      some (.ok output)) :
    ∃ parsed b' next, parseSourceJson fromStr source = .ok parsed ∧
      applySourceBlocks poseidon (b.onto b.tip []) parsed.blocks = .ok b' ∧
        (b'.snapshot poseidon).toWire = some next ∧ output = next.json.compact := by
  have htext : (b.snapshot poseidon).toJson = some w.json.compact := by
    rw [PackedStatusSnapshot.toJson, hw]
    rfl
  obtain ⟨b', hb', houtput⟩ := writeResult_iff.mp hout
  simp only [bind_eq_ok, check_eq_ok] at hb'
  obtain ⟨snapshot, hsnapshot, parsed, hparsed, -, restored, hrestored, happly⟩ := hb'
  rw [hsound.fromJson_toJson hnonzero hread htext, Except.ok.injEq] at hsnapshot
  subst hsnapshot
  rw [hsound.restore_snapshot hnonzero, Except.ok.injEq] at hrestored
  subst hrestored
  obtain ⟨next, hnext, rfl⟩ := Option.map_eq_some_iff.mp houtput
  exact ⟨parsed, b', next, hparsed, happly, hnext, rfl⟩

-- What the builder makes of a snapshot of its own is one of its own again.
theorem Own.advance {w : SnapshotWire} {source output : String}
    (hnonzero : ∀ left right, registryNode poseidon left right ≠ 0) (hread : fromStr.ReadsBack)
    (h : Own poseidon identity w)
    (hout : (RustPackedStatusBuilder poseidon fromStr).advance w.json.compact source = .ok output) :
    ∃ next, Own poseidon identity next ∧ output = next.json.compact := by
  obtain ⟨b, hsound, hw⟩ := h.made
  obtain ⟨_, b', next, -, happly, hnext, rfl⟩ :=
    advance_inv hsound hnonzero hread hw (builder_advance.mp hout).1
  exact ⟨next, Own.of_applied hsound hnonzero hw h.trusted happly hnext, rfl⟩

-- The builder makes a snapshot of a checkpoint and a transcript, at the end of the transcript.
structure Makes (poseidon : Poseidon) (fromStr : FromStr) (checkpoint : SnapshotWire)
    (transcript : SourceWire) (next : SnapshotWire) : Prop where
  output : (RustPackedStatusBuilder poseidon fromStr).advance checkpoint.json.compact
    transcript.json.compact = .ok next.json.compact
  source : matchesSource next (lastRef transcript.anchor transcript.blocks) = true

section

variable {checkpoint : SnapshotWire} {disk : StoreDisk} {C : StoreDisk → Prop}
  {input : RunZkIdentityStatusOperatorCycleInput}

theorem wp_advanceSnapshot {Q : SnapshotWire → StoreDisk → Prop}
    {E : ZkIdentityStatusOperatorErrorCode → StoreDisk → Prop} {transcript : SourceWire}
    (hnonzero : ∀ left right, registryNode poseidon left right ≠ 0) (hread : fromStr.ReadsBack)
    (hjson : json.ReadsBack) (h : Own poseidon input.identity checkpoint)
    (hbuilder : input.builder = RustPackedStatusBuilder poseidon fromStr)
    (hQ : ∀ next, Own poseidon input.identity next →
      Makes poseidon fromStr checkpoint transcript next → Q next disk)
    (hE : ∀ code, (∀ next, ¬Makes poseidon fromStr checkpoint transcript next) → E code disk) :
    (advanceSnapshot viem json input checkpoint transcript).wp Q E C disk := by
  rw [advanceSnapshot, Process.wp_bind, wp_attempt, hbuilder]
  constructor
  · intro output houtput
    obtain ⟨next, hown, rfl⟩ := h.advance hnonzero hread houtput
    have hsame : ∀ other, Makes poseidon fromStr checkpoint transcript other → other = next := by
      intro other hother
      have hout := hother.output
      rw [houtput, Except.ok.injEq] at hout
      exact (compact_snapshot_inj.mp hout).symm
    rw [Process.wp_bind]
    refine wp_trustedSnapshot hjson hown.accepted (fun _ => ?_) fun hno => ?_
    · split
      · rename_i hno
        rw [Process.wp_throw]
        refine hE _ fun other hother => hno ?_
        rw [← hsame other hother]
        exact hother.source
      · rename_i hyes
        rw [Process.wp_pure]
        exact hQ next hown ⟨houtput, not_not.mp hyes⟩
    · rw [hown.trusted] at hno
      cases hno
  · intro e he
    refine hE _ fun next hnext => ?_
    rw [hnext.output] at he
    cases he

end

-- The attestation of a snapshot under a signature.
def attestationOf (eip : Eip712) (w : SnapshotWire) (signature : String) : AttestationWire where
  schema := ZK_IDENTITY_STATUS_ATTESTATION_SCHEMA
  version := ZK_IDENTITY_STATUS_ATTESTATION_VERSION
  snapshot := w
  snapshotHash := hashOf eip w
  signature := toLowerCase signature

-- The signer signs a snapshot with the operator's key.
def Signs (viem : Viem) (eip : Eip712) (identity : ZkIdentityStatusOperatorIdentity)
    (signer : ZkIdentityStatusDigestSigner) (w : SnapshotWire) : Prop :=
  ∃ digest signature, zkIdentityPackedStatusAttestationDigest viem eip w.document = .ok digest ∧
    signer.signDigest digest = .ok signature ∧ isSignature signature = true ∧
      Signed viem eip identity (attestationOf eip w signature)

-- An attestation that is parsed has a hash that is not zero.
theorem parse_hash_nonzero {a parsed : AttestationWire}
    (h : parseZkIdentityPackedStatusAttestation viem eip a.document = .ok parsed) :
    bigIntOfHex (toLowerCase a.snapshotHash) ≠ 0 := by
  simp only [parseZkIdentityPackedStatusAttestation, bind_eq_ok, check_eq_ok] at h
  obtain ⟨fields, hfields, _, -, -, _, -, hash, hhash, -⟩ := h
  rw [object_ok] at hfields
  have hlookup : field fields "snapshotHash" = .str a.snapshotHash := by
    rw [AttestationWire.document, JsValue.obj.injEq] at hfields
    rw [← hfields]
    rfl
  rw [hlookup] at hhash
  rw [← canonicalBytes32_text hhash]
  exact (isBytes32_nonzero hhash).2

-- An attestation that a signer is recovered from is accepted.
theorem Signed.accepted {w : SnapshotWire} {signature : String} (hw : Accepted w)
    (hsignature : isSignature signature = true)
    (h : Signed viem eip identity (attestationOf eip w signature)) :
    AttestationAccepted eip (attestationOf eip w signature) := by
  obtain ⟨recovered, signer, hrecovered, -, -⟩ := h
  simp only [recoverZkIdentityPackedStatusAttestationSigner, bind_eq_ok] at hrecovered
  obtain ⟨parsed, hparsed, -⟩ := hrecovered
  have hzero := parse_hash_nonzero hparsed
  rw [attestationOf, hashOf, (hexText_bytesToHex _).toLowerCase] at hzero
  exact ⟨rfl, rfl, hw, rfl, bytesToHex_ne_zero.mp hzero, isSignature_toLowerCase hsignature⟩

theorem wp_signSnapshot {Q : ZkIdentityStatusOperatorArtifact → StoreDisk → Prop}
    {E : ZkIdentityStatusOperatorErrorCode → StoreDisk → Prop} {C : StoreDisk → Prop}
    {disk : StoreDisk} {w : SnapshotWire} {signer : ZkIdentityStatusDigestSigner} (h : Accepted w)
    (hoperator : isOperatorId identity.operatorId = true)
    (hQ : ∀ a, Published viem eip identity a → a.attestation.snapshot = w → Q a disk)
    (hE : ∀ code, ¬Signs viem eip identity signer w → E code disk) :
    (signSnapshot viem eip w identity signer).wp Q E C disk := by
  have hfail : ∀ {α : Type} {x : Except String α} {e : String}, x = .error e →
      ∀ a, x ≠ .ok a := by
    rintro α _ e rfl a ⟨⟩
  rw [signSnapshot, Process.wp_bind, wp_attempt]
  refine ⟨fun digest hdigest => ?_, fun e he => hE _ ?_⟩
  · rw [Process.wp_bind, wp_attempt]
    refine ⟨fun signature hsignature => ?_, fun e he => hE _ ?_⟩
    · rw [Process.wp_bind, wp_attempt]
      refine ⟨fun attestation hattestation => ?_, fun e he => hE _ ?_⟩
      · have hbytes : isSignature signature = true := by
          simp only [createZkIdentityPackedStatusAttestation, bind_eq_ok, check_eq_ok]
            at hattestation
          obtain ⟨_, -, hbytes, -⟩ := hattestation
          exact not_not.mp fun hno => hbytes (notSignature_iff.mpr hno)
        rw [create_document h hbytes, Except.ok.injEq] at hattestation
        subst hattestation
        rw [Process.wp_bind]
        refine wp_checkSigner (fun hsigned => ?_) fun hno code => hE code ?_
        · rw [Process.wp_pure]
          exact hQ _ ⟨⟨rfl, hoperator, hsigned.accepted h hbytes⟩, rfl, hsigned⟩ rfl
        · rintro ⟨digest', signature', hdigest', hsignature', -, hsigned⟩
          rw [hdigest, Except.ok.injEq] at hdigest'
          subst hdigest'
          rw [hsignature, Except.ok.injEq] at hsignature'
          subst hsignature'
          exact hno hsigned
      · rintro ⟨digest', signature', hdigest', hsignature', hbytes, -⟩
        rw [hdigest, Except.ok.injEq] at hdigest'
        subst hdigest'
        rw [hsignature, Except.ok.injEq] at hsignature'
        subst hsignature'
        rw [create_document h hbytes] at he
        cases he
    · rintro ⟨digest', signature', hdigest', hsignature', -⟩
      rw [hdigest, Except.ok.injEq] at hdigest'
      subst hdigest'
      exact hfail he _ hsignature'
  · rintro ⟨digest', _, hdigest', -⟩
    exact hfail he _ hdigest'

-- A snapshot that may be committed behind another.
def Follows (eip : Eip712) (checkpoint next : SnapshotWire) : Prop :=
  blockNumber checkpoint < blockNumber next ∨
    (blockNumber checkpoint = blockNumber next ∧ hashOf eip checkpoint = hashOf eip next)

theorem regresses_iff {a : ZkIdentityStatusOperatorArtifact} {checkpoint : SnapshotWire}
    (h : a.attestation.snapshotHash = hashOf eip a.attestation.snapshot) :
    ¬regresses a checkpoint (hashOf eip checkpoint) = true ↔
      Follows eip checkpoint a.attestation.snapshot := by
  rw [regresses, decide_eq_true_iff, Follows, h, eq_comm (a := hashOf eip checkpoint)]
  show ¬(blockNumber a.attestation.snapshot < blockNumber checkpoint ∨
    (blockNumber a.attestation.snapshot = blockNumber checkpoint ∧ _)) ↔ _
  constructor
  · intro hno
    rw [not_or, not_and, not_not] at hno
    rcases Nat.lt_or_eq_of_le (Nat.not_lt.mp hno.1) with hlt | heq
    · exact .inl hlt
    · exact .inr ⟨heq, hno.2 heq.symm⟩
  · rintro (hlt | ⟨heq, hsame⟩) (hbehind | ⟨hat, hne⟩)
    · omega
    · omega
    · omega
    · exact hne hsame

section

variable {checkpoint next : SnapshotWire} {latest : Option ZkIdentityStatusOperatorArtifact}
  {disk : StoreDisk}

-- How far the writes of a commit have come: the snapshot is published before it is the checkpoint.
inductive Stage (viem : Viem) (eip : Eip712) (poseidon : Poseidon)
    (identity : ZkIdentityStatusOperatorIdentity) (checkpoint : SnapshotWire)
    (latest : Option ZkIdentityStatusOperatorArtifact) (next : SnapshotWire) (disk : StoreDisk) :
    Prop where
  | before (h : Kept viem eip poseidon identity checkpoint latest disk)
  | published (a : ZkIdentityStatusOperatorArtifact)
      (hash : a.attestation.snapshotHash = hashOf eip next) (follows : Follows eip checkpoint next)
      (h : Kept viem eip poseidon identity checkpoint (some a) disk)
  | committed (a : ZkIdentityStatusOperatorArtifact)
      (hash : a.attestation.snapshotHash = hashOf eip next) (follows : Follows eip checkpoint next)
      (h : Kept viem eip poseidon identity next (some a) disk)

-- An artifact of the same snapshot that is there already stands for one that is to be stored.
theorem wp_storeArtifact {Q : String → StoreDisk → Prop} {E : String → StoreDisk → Prop}
    {C : StoreDisk → Prop} {a : ZkIdentityStatusOperatorArtifact} (hjson : json.ReadsBack)
    (h : Kept viem eip poseidon identity checkpoint latest disk)
    (ha : Published viem eip identity a)
    (hQ : ∀ b d, Published viem eip identity b →
      b.attestation.snapshotHash = a.attestation.snapshotHash →
      Kept viem eip poseidon identity checkpoint latest d → (disk.outcomes = [] → d.outcomes = []) →
      Q b.json.compact d)
    (hE : disk.outcomes ≠ [] → ∀ e d, Kept viem eip poseidon identity checkpoint latest d → E e d)
    (hC : disk.outcomes ≠ [] → ∀ d, Kept viem eip poseidon identity checkpoint latest d → C d) :
    (storeArtifact viem eip json a a.json.compact).wp Q E C disk := by
  have hhash : a.attestation.snapshotHash = bytesToHex _ := ha.accepted.attestation.snapshotHash
  rw [storeArtifact, Process.wp_bind, readFile, Process.wp_read]
  cases hfile : disk.files (artifactPath a.attestation.snapshotHash) with
  | none =>
    rw [Process.wp_bind, atomicWrite]
    refine Disk.wp_write ?_ ?_ ?_
    · rw [Process.wp_pure]
      exact hQ a _ ha rfl (h.put_artifact ha true) fun houtcomes => Disk.put_outcomes houtcomes true
    · exact fun hfaults applied => hE hfaults _ _ (h.put_artifact ha applied)
    · exact fun hfaults applied => hC hfaults _ (h.put_artifact ha applied)
  | some existing =>
    have hexisting := hfile
    rw [hhash] at hexisting
    obtain ⟨b, rfl, hb, hsame⟩ := h.artifacts _ _ hexisting
    rw [← hhash] at hsame
    rw [Process.wp_bind, parseFile_artifact hjson hb.accepted, Process.wp_ofExcept_ok, if_neg,
      serializeArtifact_document hb.accepted, Process.wp_ofExcept_ok]
    · exact hQ b disk hb hsame h id
    · rw [not_or, not_not, not_not]
      exact ⟨hb.operatorId.trans ha.operatorId.symm, hsame⟩

theorem wp_commit {Q : ZkIdentityStatusOperatorArtifact → StoreDisk → Prop}
    {E : String → StoreDisk → Prop} {C : StoreDisk → Prop} {a : ZkIdentityStatusOperatorArtifact}
    (hjson : json.ReadsBack) (h : Kept viem eip poseidon identity checkpoint latest disk)
    (ha : Published viem eip identity a) (hown : Own poseidon identity a.attestation.snapshot)
    (hQ : ∀ b d, Kept viem eip poseidon identity a.attestation.snapshot (some b) d →
      b.attestation.snapshotHash = hashOf eip a.attestation.snapshot →
      Follows eip checkpoint a.attestation.snapshot → (disk.outcomes = [] → d.outcomes = []) → Q b d)
    (hE : disk.outcomes ≠ [] ∨ ¬Follows eip checkpoint a.attestation.snapshot → ∀ e d,
      Stage viem eip poseidon identity checkpoint latest a.attestation.snapshot d → E e d)
    (hC : disk.outcomes ≠ [] → ∀ d,
      Stage viem eip poseidon identity checkpoint latest a.attestation.snapshot d → C d) :
    (commit viem eip json a.document).wp Q E C disk := by
  have haccepted := h.own.accepted
  have hhash := ha.accepted.attestation.snapshotHash
  rw [commit, Process.wp_bind, parseArtifact_document ha.accepted, Process.wp_ofExcept_ok,
    Process.wp_bind]
  refine wp_readCheckpointJson hjson h ?_
  rw [Process.wp_bind, parseFile_ok (parse_compact hjson haccepted), parse_document haccepted,
    Process.wp_ofExcept_ok, Process.wp_bind, snapshotHash_document haccepted,
    Process.wp_ofExcept_ok]
  split
  · rename_i hregresses
    rw [Process.wp_throw]
    exact hE (.inr fun hfollows => (regresses_iff hhash).mpr hfollows hregresses) _ _ (.before h)
  · rename_i hno
    have hfollows := (regresses_iff hhash).mp hno
    rw [Process.wp_bind, serializeArtifact_document ha.accepted, Process.wp_ofExcept_ok,
      Process.wp_bind]
    refine wp_storeArtifact hjson h ha ?_ (fun hfaults _ _ hd => hE (.inl hfaults) _ _ (.before hd))
      fun hfaults _ hd => hC hfaults _ (.before hd)
    intro b d hb hsame hd houtcomes
    have hbhash := hsame.trans hhash
    have hfaulty : d.outcomes ≠ [] → disk.outcomes ≠ [] := fun hne heq => hne (houtcomes heq)
    -- the write of the published artifact, and behind it that of the checkpoint
    have hlatest : ∀ applied, Stage viem eip poseidon identity checkpoint latest
        a.attestation.snapshot (d.put .latest b.json.compact applied) := by
      intro applied
      cases applied with
      | false => exact .before (hd.put_false _ _)
      | true => exact .published b hbhash hfollows (hd.put_latest hb)
    rw [Process.wp_bind, atomicWrite]
    refine Disk.wp_write ?_ (fun hfaults applied => hE (.inl (hfaulty hfaults)) _ _ (hlatest applied))
      fun hfaults applied => hC (hfaulty hfaults) _ (hlatest applied)
    rw [Process.wp_bind, serialize_document hown.accepted, Process.wp_ofExcept_ok, Process.wp_bind,
      atomicWrite]
    have hpublished := hd.put_latest hb
    have houtcomes' : disk.outcomes = [] →
        (d.put .latest b.json.compact true).outcomes = [] :=
      fun heq => Disk.put_outcomes (houtcomes heq) true
    generalize d.put .latest b.json.compact true = d' at hpublished houtcomes' ⊢
    have hcheckpoint : ∀ applied, Stage viem eip poseidon identity checkpoint latest
        a.attestation.snapshot
        (d'.put .checkpoint a.attestation.snapshot.json.compact applied) := by
      intro applied
      cases applied with
      | false => exact .published b hbhash hfollows (hpublished.put_false _ _)
      | true => exact .committed b hbhash hfollows (hpublished.put_checkpoint hown)
    have hfaulty' : d'.outcomes ≠ [] → disk.outcomes ≠ [] := fun hne heq => hne (houtcomes' heq)
    refine Disk.wp_write ?_
      (fun hfaults applied => hE (.inl (hfaulty' hfaults)) _ _ (hcheckpoint applied))
      fun hfaults applied => hC (hfaulty' hfaults) _ (hcheckpoint applied)
    rw [parseFile_artifact hjson hb.accepted, Process.wp_ofExcept_ok]
    exact hQ b _ (hpublished.put_checkpoint hown) hbhash hfollows fun heq =>
      Disk.put_outcomes (houtcomes' heq) true

end

end Ubi2.StatusOperator
