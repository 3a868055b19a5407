import Ubi2.StatusOperator.Operator
import Ubi2.StatusSnapshot.OneFormat

namespace Ubi2.StatusOperator

open Ubi2.Runtime Ubi2.Lib Ubi2.Lib.Except Ubi2.StatusSnapshot Ubi2.StatusSnapshot.Sdk
open ZkIdentityStatusOperatorStore

variable {viem : Viem} {eip : Eip712} {json : JSON} {poseidon : Poseidon}
  {identity : ZkIdentityStatusOperatorIdentity}

def blockNumber (snapshot : SnapshotWire) : Nat := bigIntOfDecimal snapshot.sourceBlockNumber

-- A snapshot that the builder has made for this operator.
structure Own (poseidon : Poseidon) (identity : ZkIdentityStatusOperatorIdentity)
    (w : SnapshotWire) : Prop where
  accepted : Accepted w
  made : ∃ b, Sound poseidon b ∧ (b.snapshot poseidon).toWire = some w
  trusted : trusts identity w = true

-- The operator's key signed.
def Signed (viem : Viem) (eip : Eip712) (identity : ZkIdentityStatusOperatorIdentity)
    (attestation : AttestationWire) : Prop :=
  ∃ recovered signer,
    recoverZkIdentityPackedStatusAttestationSigner viem eip attestation.document = .ok recovered ∧
      getAddress viem recovered = .ok signer ∧
        getAddress viem identity.signerAddress = .ok signer

structure Published (viem : Viem) (eip : Eip712) (identity : ZkIdentityStatusOperatorIdentity)
    (a : ZkIdentityStatusOperatorArtifact) : Prop where
  accepted : ArtifactAccepted eip a
  operatorId : a.operatorId = identity.operatorId
  signed : Signed viem eip identity a.attestation

-- The files of a store: its checkpoint, what it last published, and artifacts under their hashes.
structure Kept (viem : Viem) (eip : Eip712) (poseidon : Poseidon)
    (identity : ZkIdentityStatusOperatorIdentity) (checkpoint : SnapshotWire)
    (latest : Option ZkIdentityStatusOperatorArtifact) (disk : StoreDisk) : Prop where
  checkpointFile : disk.files .checkpoint = some checkpoint.json.compact
  own : Own poseidon identity checkpoint
  latestFile : disk.files .latest = latest.map fun a => a.json.compact
  published : ∀ a ∈ latest, Published viem eip identity a
  artifacts : ∀ (x : Hash) (text : String), disk.files (artifactPath (bytesToHex x)) = some text →
    ∃ a, text = a.json.compact ∧ Published viem eip identity a ∧
      a.attestation.snapshotHash = bytesToHex x

section

variable {checkpoint : SnapshotWire} {latest : Option ZkIdentityStatusOperatorArtifact}
  {disk : StoreDisk}

theorem artifactPath_ne (hash : String) : artifactPath hash ≠ .checkpoint ∧
    artifactPath hash ≠ .latest ∧ artifactPath hash ≠ .health := by
  rw [artifactPath]
  exact ⟨nofun, nofun, nofun⟩

theorem artifactPath_text {s t : String} (hs : s.toList.take 2 = ['0', 'x'])
    (ht : t.toList.take 2 = ['0', 'x']) (h : artifactPath s = artifactPath t) : s = t := by
  rw [artifactPath, artifactPath, StorePath.artifact.injEq] at h
  have htext := congrArg String.toList h
  rw [String.toList_append, String.toList_append, String.toList_ofList, String.toList_ofList,
    List.append_cancel_right_eq, String.toList_ofList] at htext
  rw [← String.toList_inj, ← List.take_append_drop 2 s.toList, ← List.take_append_drop 2 t.toList,
    hs, ht, htext]

theorem artifactPath_injective {x y : Hash}
    (h : artifactPath (bytesToHex x) = artifactPath (bytesToHex y)) : x = y := by
  have hpre : ∀ z : Hash, (bytesToHex z).toList.take 2 = ['0', 'x'] := by
    intro z
    rw [(hexText_bytesToHex z).toList]
    rfl
  exact bytesToHex_injective (by decide) (artifactPath_text (hpre x) (hpre y) h)

-- The health file is no part of it.
theorem Kept.put_health (h : Kept viem eip poseidon identity checkpoint latest disk) (text : String)
    (applied : Bool) :
    Kept viem eip poseidon identity checkpoint latest (disk.put .health text applied) := by
  have hother : ∀ path, path ≠ .health →
      (disk.put .health text applied).files path = disk.files path :=
    fun path hpath => Disk.put_other hpath applied
  refine ⟨?_, h.own, ?_, h.published, ?_⟩
  · rw [hother _ (by decide)]
    exact h.checkpointFile
  · rw [hother _ (by decide)]
    exact h.latestFile
  · intro x text'
    rw [hother _ (artifactPath_ne _).2.2]
    exact h.artifacts x text'

theorem Kept.put_artifact (h : Kept viem eip poseidon identity checkpoint latest disk)
    {a : ZkIdentityStatusOperatorArtifact} (ha : Published viem eip identity a) (applied : Bool) :
    Kept viem eip poseidon identity checkpoint latest
      (disk.put (artifactPath a.attestation.snapshotHash) a.json.compact applied) := by
  cases applied with
  | false => exact ⟨h.checkpointFile, h.own, h.latestFile, h.published, h.artifacts⟩
  | true =>
    have hother : ∀ path, path ≠ artifactPath a.attestation.snapshotHash →
        (disk.put (artifactPath a.attestation.snapshotHash) a.json.compact true).files path =
          disk.files path :=
      fun path hpath => Disk.put_other hpath true
    refine ⟨?_, h.own, ?_, h.published, ?_⟩
    · rw [hother _ (artifactPath_ne _).1.symm]
      exact h.checkpointFile
    · rw [hother _ (artifactPath_ne _).2.1.symm]
      exact h.latestFile
    · intro x text htext
      by_cases hpath : artifactPath (bytesToHex x) = artifactPath a.attestation.snapshotHash
      · have hhash : a.attestation.snapshotHash = bytesToHex _ := ha.accepted.attestation.snapshotHash
        rw [hpath, Disk.put_same, Option.some.injEq] at htext
        have hx := artifactPath_injective (hhash ▸ hpath)
        exact ⟨a, htext.symm, ha, by rw [hhash, hx]⟩
      · rw [hother _ hpath] at htext
        exact h.artifacts x text htext

theorem Kept.put_latest (h : Kept viem eip poseidon identity checkpoint latest disk)
    {a : ZkIdentityStatusOperatorArtifact} (ha : Published viem eip identity a) :
    Kept viem eip poseidon identity checkpoint (some a) (disk.put .latest a.json.compact true) := by
  have hother : ∀ path, path ≠ .latest →
      (disk.put .latest a.json.compact true).files path = disk.files path :=
    fun path hpath => Disk.put_other hpath true
  refine ⟨?_, h.own, Disk.put_same, ?_, ?_⟩
  · rw [hother _ (by decide)]
    exact h.checkpointFile
  · rintro _ ⟨⟩
    exact ha
  · intro x text
    rw [hother _ (artifactPath_ne _).2.1]
    exact h.artifacts x text

theorem Kept.put_checkpoint (h : Kept viem eip poseidon identity checkpoint latest disk)
    {next : SnapshotWire} (hnext : Own poseidon identity next) :
    Kept viem eip poseidon identity next latest
      (disk.put .checkpoint next.json.compact true) := by
  have hother : ∀ path, path ≠ .checkpoint →
      (disk.put .checkpoint next.json.compact true).files path = disk.files path :=
    fun path hpath => Disk.put_other hpath true
  refine ⟨Disk.put_same, hnext, ?_, h.published, ?_⟩
  · rw [hother _ (by decide)]
    exact h.latestFile
  · intro x text
    rw [hother _ (artifactPath_ne _).1]
    exact h.artifacts x text

-- A write that was not applied changed nothing.
theorem Kept.put_false (h : Kept viem eip poseidon identity checkpoint latest disk)
    (path : StorePath) (text : String) :
    Kept viem eip poseidon identity checkpoint latest (disk.put path text false) :=
  ⟨h.checkpointFile, h.own, h.latestFile, h.published, h.artifacts⟩

end

theorem wp_within {ε α : Type} {code : ZkIdentityStatusOperatorErrorCode}
    {p : Process StoreDisk ε α} {Q : α → StoreDisk → Prop}
    {E : ZkIdentityStatusOperatorErrorCode → StoreDisk → Prop} {C : StoreDisk → Prop}
    {disk : StoreDisk} :
    (within code p).wp Q E C disk ↔ p.wp Q (fun _ => E code) C disk :=
  Process.wp_relabel

theorem wp_attempt {α : Type} {code : ZkIdentityStatusOperatorErrorCode} {x : Except String α}
    {Q : α → StoreDisk → Prop} {E : ZkIdentityStatusOperatorErrorCode → StoreDisk → Prop}
    {C : StoreDisk → Prop} {disk : StoreDisk} :
    (attempt code x).wp Q E C disk ↔
      (∀ a, x = .ok a → Q a disk) ∧ ∀ e, x = .error e → E code disk := by
  rw [attempt, wp_within, Process.wp_ofExcept]

theorem parseFile_ok {α : Type} {parse : JsValue → Except String α} {text : String} {v : JsValue}
    (h : json.parse text = .ok v) : parseFile json parse text = parse v := by
  rw [parseFile, h]
  rfl

theorem parseFile_artifact (hjson : json.ReadsBack) {a : ZkIdentityStatusOperatorArtifact}
    (h : ArtifactAccepted eip a) :
    parseFile json (parseZkIdentityStatusOperatorArtifact viem eip) a.json.compact = .ok a := by
  have hparse : json.parse a.json.compact = .ok a.document := by
    rw [hjson _ h.exact, ofJson_artifact]
  rw [parseFile_ok hparse, parseArtifact_document h]

section

variable {checkpoint : SnapshotWire} {latest : Option ZkIdentityStatusOperatorArtifact}
  {disk : StoreDisk} {C : StoreDisk → Prop}

theorem wp_readCheckpointJson {Q : String → StoreDisk → Prop} {E : String → StoreDisk → Prop}
    (hjson : json.ReadsBack) (h : Kept viem eip poseidon identity checkpoint latest disk)
    (hQ : Q checkpoint.json.compact disk) : (readCheckpointJson viem json).wp Q E C disk := by
  have haccepted := h.own.accepted
  rw [readCheckpointJson, Process.wp_bind, readFile, Process.wp_read, h.checkpointFile]
  simp only [parseFile_ok (parse_compact hjson haccepted), serialize_document haccepted]
  exact hQ

theorem wp_readLatest {Q : Option ZkIdentityStatusOperatorArtifact → StoreDisk → Prop}
    {E : String → StoreDisk → Prop} (hjson : json.ReadsBack)
    (h : Kept viem eip poseidon identity checkpoint latest disk) (hQ : Q latest disk) :
    (readLatest viem eip json).wp Q E C disk := by
  rw [readLatest, Process.wp_bind, readFile, Process.wp_read, h.latestFile]
  cases latest with
  | none => exact hQ
  | some a =>
    simp only [Option.map_some, parseFile_artifact hjson (h.published a rfl).accepted]
    exact hQ

-- The snapshot of a text that a builder wrote for this operator.
theorem wp_trustedSnapshot {Q : SnapshotWire → StoreDisk → Prop}
    {E : ZkIdentityStatusOperatorErrorCode → StoreDisk → Prop}
    {invalid mismatch : ZkIdentityStatusOperatorErrorCode} (hjson : json.ReadsBack)
    {w : SnapshotWire} (h : Accepted w) (hQ : trusts identity w = true → Q w disk)
    (hE : trusts identity w = false → E mismatch disk) :
    (trustedSnapshot viem json w.json.compact identity invalid mismatch).wp Q E C disk := by
  rw [trustedSnapshot, Process.wp_bind, wp_attempt, parseFile_ok (parse_compact hjson h),
    parse_document h]
  refine ⟨?_, nofun⟩
  rintro _ ⟨⟩
  split
  · rename_i hno
    rw [Process.wp_throw]
    exact hE (Bool.not_eq_true _ ▸ hno)
  · rename_i hyes
    rw [Process.wp_pure]
    exact hQ (not_not.mp hyes)

theorem wp_checkSigner {Q : Unit → StoreDisk → Prop}
    {E : ZkIdentityStatusOperatorErrorCode → StoreDisk → Prop} {attestation : AttestationWire}
    (hQ : Signed viem eip identity attestation → Q () disk)
    (hE : ¬Signed viem eip identity attestation → ∀ code, E code disk) :
    (checkSigner viem eip identity attestation).wp Q E C disk := by
  have hfail : ∀ {α : Type} {x : Except String α} {e : String}, x = .error e →
      ∀ a, x ≠ .ok a := by
    rintro α _ e rfl a ⟨⟩
  rw [checkSigner, Process.wp_bind, wp_attempt]
  refine ⟨fun recovered hrecovered => ?_, fun e he => hE ?_ _⟩
  · rw [Process.wp_bind, wp_attempt]
    refine ⟨fun signer hsigner => ?_, fun e he => hE ?_ _⟩
    · rw [Process.wp_bind, wp_attempt]
      refine ⟨fun expected hexpected => ?_, fun e he => hE ?_ _⟩
      · split
        · rename_i hne
          rw [Process.wp_throw]
          refine hE ?_ _
          rintro ⟨recovered', signer', hrecovered', hsigner', hexpected'⟩
          rw [hrecovered, Except.ok.injEq] at hrecovered'
          subst hrecovered'
          rw [hsigner, Except.ok.injEq] at hsigner'
          rw [hexpected, Except.ok.injEq] at hexpected'
          exact hne (hsigner'.trans hexpected'.symm)
        · rename_i heq
          rw [Process.wp_pure]
          refine hQ ⟨recovered, signer, hrecovered, hsigner, ?_⟩
          rw [hexpected, not_not.mp heq]
      · rintro ⟨_, signer', -, -, hexpected⟩
        exact hfail he _ hexpected
    · rintro ⟨recovered', signer', hrecovered', hsigner', -⟩
      rw [hrecovered, Except.ok.injEq] at hrecovered'
      subst hrecovered'
      exact hfail he _ hsigner'
  · rintro ⟨recovered, _, hrecovered, -⟩
    exact hfail he _ hrecovered

end

end Ubi2.StatusOperator
