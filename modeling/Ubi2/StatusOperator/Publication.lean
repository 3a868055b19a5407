import Ubi2.StatusOperator.CatchUp

namespace Ubi2.StatusOperator

open Ubi2.Runtime Ubi2.Lib Ubi2.Lib.Except Ubi2.StatusSnapshot Ubi2.StatusSnapshot.Sdk
open PackedStatusSnapshotBuilder ZkIdentityStatusOperatorStore

-- What is done with a store: a restart opens it, a cycle runs on it. The writes come to what is
-- listed, so that each of the two may be cut off anywhere.
inductive Event where
  | restart (initialCheckpointJson : String) (outcomes : List WriteOutcome)
  | cycle (input : RunZkIdentityStatusOperatorCycleInput) (outcomes : List WriteOutcome)

section

variable (viem : Viem) (eip : Eip712) (json : JSON)

def Event.run (disk : StoreDisk) : Event → StoreDisk
  | restart initialCheckpointJson outcomes =>
    (initializeStore viem json initialCheckpointJson { disk with outcomes := outcomes }).2
  | cycle input outcomes =>
    (runZkIdentityStatusOperatorCycle viem eip json input { disk with outcomes := outcomes }).2

theorem Event.run_cycle {disk : StoreDisk} {input : RunZkIdentityStatusOperatorCycleInput}
    {outcomes : List WriteOutcome} : (cycle input outcomes).run viem eip json disk =
      (runZkIdentityStatusOperatorCycle viem eip json input { disk with outcomes := outcomes }).2 :=
  rfl

-- The store at first and after each event.
def stores (disk : StoreDisk) : List Event → List StoreDisk
  | [] => [disk]
  | event :: rest => disk :: stores (event.run viem eip json disk) rest

-- The artifact that is published as the latest.
def latestOf (disk : StoreDisk) : Option ZkIdentityStatusOperatorArtifact :=
  (disk.files .latest).bind fun text =>
    (parseFile json (parseZkIdentityStatusOperatorArtifact viem eip) text).toOption

end

-- A latest artifact that neither goes back behind another nor contradicts it.
def NotBehind (a a' : Option ZkIdentityStatusOperatorArtifact) : Prop :=
  ∀ x ∈ a, ∃ y ∈ a', blockNumber x.attestation.snapshot ≤ blockNumber y.attestation.snapshot ∧
    (blockNumber x.attestation.snapshot = blockNumber y.attestation.snapshot →
      x.attestation.snapshotHash = y.attestation.snapshotHash)

theorem NotBehind.refl (a : Option ZkIdentityStatusOperatorArtifact) : NotBehind a a :=
  fun x hx => ⟨x, hx, Nat.le_refl _, fun _ => rfl⟩

theorem NotBehind.trans {a b c : Option ZkIdentityStatusOperatorArtifact} (h : NotBehind a b)
    (h' : NotBehind b c) : NotBehind a c := by
  intro x hx
  obtain ⟨y, hy, hxy, hhash⟩ := h x hx
  obtain ⟨z, hz, hyz, hhash'⟩ := h' y hy
  exact ⟨z, hz, by omega, fun heq => (hhash (by omega)).trans (hhash' (by omega))⟩

variable {viem : Viem} {eip : Eip712} {json : JSON} {poseidon : Poseidon} {fromStr : FromStr}
  {identity : ZkIdentityStatusOperatorIdentity}

-- A published artifact is of the checkpoint, or of a block behind it.
def InStep (checkpoint : SnapshotWire) (latest : Option ZkIdentityStatusOperatorArtifact) : Prop :=
  ∀ a ∈ latest, a.attestation.snapshot = checkpoint ∨
    blockNumber checkpoint < blockNumber a.attestation.snapshot

-- A cycle whose range, when an artifact ahead of the checkpoint is published, ends behind that
-- artifact's block, or is the range that the artifact's snapshot is made of.
def Resumes (viem : Viem) (poseidon : Poseidon) (fromStr : FromStr) (checkpoint : SnapshotWire)
    (latest : Option ZkIdentityStatusOperatorArtifact)
    (input : RunZkIdentityStatusOperatorCycleInput) : Prop :=
  ∀ a ∈ latest, blockNumber checkpoint < blockNumber a.attestation.snapshot →
    ∀ t next, collected viem (checksummedInput viem input) checkpoint = .ok t →
      Makes poseidon fromStr checkpoint t next →
        blockNumber a.attestation.snapshot < blockNumber checkpoint + t.blocks.length ∨
          next = a.attestation.snapshot

section

variable {checkpoint : SnapshotWire} {latest : Option ZkIdentityStatusOperatorArtifact}
  {disk : StoreDisk} {input : RunZkIdentityStatusOperatorCycleInput} {S : Set SnapshotWire}

theorem Kept.with_outcomes (h : Kept viem eip poseidon identity checkpoint latest disk)
    (outcomes : List WriteOutcome) :
    Kept viem eip poseidon identity checkpoint latest { disk with outcomes := outcomes } :=
  ⟨h.checkpointFile, h.own, h.latestFile, h.published, h.artifacts⟩

theorem Kept.latest_eq (hjson : json.ReadsBack)
    (h : Kept viem eip poseidon identity checkpoint latest disk) :
    latestOf viem eip json disk = latest := by
  rw [StatusOperator.latestOf, h.latestFile]
  cases latest with
  | none => rfl
  | some a =>
    rw [Option.map_some, Option.bind_some, parseFile_artifact hjson (h.published a rfl).accepted]
    rfl

-- The snapshot of a published artifact is the one that its hash was taken of.
theorem Kept.snapshot_eq {a : ZkIdentityStatusOperatorArtifact} {next : SnapshotWire}
    (hS : Set.InjOn (hashOf eip) S)
    (h : Kept viem eip poseidon identity checkpoint (some a) disk)
    (hhash : a.attestation.snapshotHash = hashOf eip next) (ha : a.attestation.snapshot ∈ S)
    (hnext : next ∈ S) : a.attestation.snapshot = next := by
  refine hS ha hnext ?_
  rw [← hhash, (h.published a rfl).accepted.attestation.snapshotHash]

-- What a cycle publishes is not behind what was published before.
theorem notBehind_of_makes {a : ZkIdentityStatusOperatorArtifact} {next : SnapshotWire}
    {t : SourceWire} (hlib : Libraries viem json poseidon fromStr)
    (hown : Own poseidon (checksummedInput viem input).identity checkpoint)
    (haccepted : ∀ x ∈ latest, AttestationAccepted eip x.attestation)
    (hstep : InStep checkpoint latest)
    (hresumes : Resumes viem poseidon fromStr checkpoint latest input)
    (hcollect : collected viem (checksummedInput viem input) checkpoint = .ok t)
    (hmakes : Makes poseidon fromStr checkpoint t next)
    (hsnapshot : a.attestation.snapshot = next)
    (hhash : a.attestation.snapshotHash = hashOf eip next) : NotBehind latest (some a) := by
  intro x hx
  have hnumber := hmakes.blockNumber hown hcollect
  have hxhash := (haccepted x hx).snapshotHash
  refine ⟨a, rfl, ?_⟩
  rw [hsnapshot, hhash]
  rcases hstep x hx with hsame | hahead
  · -- the checkpoint is what was published
    rw [hxhash, hsame]
    refine ⟨by omega, fun heq => ?_⟩
    have hempty : t.blocks = [] := List.length_eq_zero_iff.mp (by omega)
    rw [hmakes.eq_checkpoint hlib.nonzero hlib.snapshots hlib.transcripts hown hempty]
  · -- a crash has left the checkpoint behind
    rcases hresumes x hx hahead t next hcollect hmakes with hlater | hagain
    · exact ⟨by omega, fun heq => by omega⟩
    · rw [hxhash, ← hagain]
      exact ⟨Nat.le_refl _, fun _ => rfl⟩

theorem inStep_of_makes {a : ZkIdentityStatusOperatorArtifact} {next : SnapshotWire}
    {t : SourceWire} (hlib : Libraries viem json poseidon fromStr)
    (hown : Own poseidon (checksummedInput viem input).identity checkpoint)
    (hcollect : collected viem (checksummedInput viem input) checkpoint = .ok t)
    (hmakes : Makes poseidon fromStr checkpoint t next)
    (hsnapshot : a.attestation.snapshot = next) : InStep checkpoint (some a) := by
  rintro _ ⟨⟩
  have hnumber := hmakes.blockNumber hown hcollect
  rw [hsnapshot]
  cases hblocks : t.blocks with
  | nil =>
    exact .inl (hmakes.eq_checkpoint hlib.nonzero hlib.snapshots hlib.transcripts hown hblocks)
  | cons block rest =>
    rw [hblocks, List.length_cons] at hnumber
    exact .inr (by omega)

end

-- What is known of a store between two events.
def Between (viem : Viem) (eip : Eip712) (poseidon : Poseidon)
    (identity : ZkIdentityStatusOperatorIdentity)
    (latest : Option ZkIdentityStatusOperatorArtifact) (disk : StoreDisk) : Prop :=
  ∃ checkpoint, Kept viem eip poseidon (identity.checksummed viem) checkpoint latest disk ∧
    InStep checkpoint latest

-- A cycle of the operator with the Rust builder, which makes and publishes snapshots of a set.
structure Within (viem : Viem) (eip : Eip712) (json : JSON) (poseidon : Poseidon)
    (fromStr : FromStr) (identity : ZkIdentityStatusOperatorIdentity) (S : Set SnapshotWire)
    (input : RunZkIdentityStatusOperatorCycleInput) (before after : StoreDisk) : Prop where
  configured : input.identity = identity
  builder : input.builder = RustPackedStatusBuilder poseidon fromStr
  made : ∀ checkpoint t next, before.files .checkpoint = some checkpoint.json.compact →
    collected viem (checksummedInput viem input) checkpoint = .ok t →
      Makes poseidon fromStr checkpoint t next → next ∈ S
  published : ∀ a ∈ latestOf viem eip json after, a.attestation.snapshot ∈ S

section

variable (viem : Viem) (eip : Eip712) (json : JSON) (poseidon : Poseidon) (fromStr : FromStr)
  (identity : ZkIdentityStatusOperatorIdentity) (S : Set SnapshotWire)

def Event.Known (disk : StoreDisk) : Event → Prop
  | restart _ _ => True
  | cycle input outcomes => Within viem eip json poseidon fromStr identity S input disk
    ((Event.cycle input outcomes).run viem eip json disk)

def Event.Resumed (disk : StoreDisk) : Event → Prop
  | restart _ _ => True
  | cycle input _ => ∀ checkpoint, disk.files .checkpoint = some checkpoint.json.compact →
    Resumes viem poseidon fromStr checkpoint (latestOf viem eip json disk) input

-- Every event of a run meets a condition on it and the store that it finds.
def Along (P : StoreDisk → Event → Prop) (disk : StoreDisk) : List Event → Prop
  | [] => True
  | event :: rest => P disk event ∧ Along P (event.run viem eip json disk) rest

end

section

variable {latest : Option ZkIdentityStatusOperatorArtifact} {disk : StoreDisk}
  {S : Set SnapshotWire}

-- A store that is there already is opened as it is.
theorem files_restart {checkpoint : SnapshotWire} {initialCheckpointJson : String}
    {outcomes : List WriteOutcome}
    (h : Kept viem eip poseidon identity checkpoint latest disk) :
    ((Event.restart initialCheckpointJson outcomes).run viem eip json disk).files = disk.files := by
  have hrun : (initializeStore viem json initialCheckpointJson).wp
      (fun _ d => d.files = disk.files) (fun _ d => d.files = disk.files)
      (fun d => d.files = disk.files) { disk with outcomes := outcomes } := by
    rw [initializeStore, Process.wp_bind, Process.wp_ofExcept]
    refine ⟨fun _ _ => ?_, fun _ _ => rfl⟩
    rw [Process.wp_bind, readFile, Process.wp_read]
    simp only [h.checkpointFile]
    rw [Process.wp_bind, Process.wp_ofExcept]
    exact ⟨fun _ _ => rfl, fun _ _ => rfl⟩
  exact Process.wp_final hrun

theorem Kept.of_files {checkpoint : SnapshotWire} {d : StoreDisk}
    (h : Kept viem eip poseidon identity checkpoint latest disk) (hfiles : d.files = disk.files) :
    Kept viem eip poseidon identity checkpoint latest d := by
  refine ⟨?_, h.own, ?_, h.published, ?_⟩
  · rw [hfiles]
    exact h.checkpointFile
  · rw [hfiles]
    exact h.latestFile
  · rw [hfiles]
    exact h.artifacts

-- One event.
theorem Between.run {event : Event} (hlib : Libraries viem json poseidon fromStr)
    (hvalid : Valid viem identity) (hS : Set.InjOn (hashOf eip) S)
    (h : Between viem eip poseidon identity latest disk)
    (hknown : event.Known viem eip json poseidon fromStr identity S disk)
    (hresumed : event.Resumed viem eip json poseidon fromStr disk) :
    ∃ latest', Between viem eip poseidon identity latest' (event.run viem eip json disk) ∧
      NotBehind latest latest' := by
  obtain ⟨checkpoint, hkept, hstep⟩ := h
  cases event with
  | restart initialCheckpointJson outcomes =>
    exact ⟨latest, ⟨checkpoint, hkept.of_files (files_restart hkept), hstep⟩, NotBehind.refl _⟩
  | cycle input outcomes =>
    have hconfigured := hknown.configured
    subst hconfigured
    have hresumes : Resumes viem poseidon fromStr checkpoint latest input := by
      have hresumes := hresumed checkpoint hkept.checkpointFile
      rwa [hkept.latest_eq hlib.json] at hresumes
    have hown : Own poseidon (checksummedInput viem input).identity checkpoint := hkept.own
    have haccepted : ∀ x ∈ latest, AttestationAccepted eip x.attestation :=
      fun x hx => (hkept.published x hx).accepted.attestation
    -- a store with the next snapshot published, before and after it is the checkpoint
    have hmoved : ∀ {t : SourceWire} {next w : SnapshotWire}
        {a : ZkIdentityStatusOperatorArtifact} {d : StoreDisk},
        collected viem (checksummedInput viem input) checkpoint = .ok t →
        Makes poseidon fromStr checkpoint t next → a.attestation.snapshotHash = hashOf eip next →
        Kept viem eip poseidon (input.identity.checksummed viem) w (some a) d →
        (∀ x ∈ latestOf viem eip json d, x.attestation.snapshot ∈ S) →
        w = checkpoint ∨ w = next →
        ∃ latest', Between viem eip poseidon input.identity latest' d ∧ NotBehind latest latest' := by
      intro t next w a d hcollect hmakes hhash hd hpublished hw
      have ha : a.attestation.snapshot ∈ S :=
        hpublished a (by rw [hd.latest_eq hlib.json]; rfl)
      have hsnapshot := hd.snapshot_eq hS hhash ha
        (hknown.made checkpoint t next hkept.checkpointFile hcollect hmakes)
      refine ⟨some a, ⟨w, hd, ?_⟩, notBehind_of_makes hlib hown haccepted hstep hresumes hcollect
        hmakes hsnapshot hhash⟩
      rcases hw with rfl | rfl
      · exact inStep_of_makes hlib hown hcollect hmakes hsnapshot
      · rintro _ ⟨⟩
        exact .inl hsnapshot
    have hstay : ∀ {d : StoreDisk},
        Kept viem eip poseidon (input.identity.checksummed viem) checkpoint latest d →
        ∃ latest', Between viem eip poseidon input.identity latest' d ∧ NotBehind latest latest' :=
      fun hd => ⟨latest, ⟨checkpoint, hd, hstep⟩, NotBehind.refl _⟩
    have hleft : ∀ d, Left viem eip poseidon fromStr (checksummedInput viem input) checkpoint latest
        d → (∀ x ∈ latestOf viem eip json d, x.attestation.snapshot ∈ S) →
        ∃ latest', Between viem eip poseidon input.identity latest' d ∧ NotBehind latest latest' := by
      intro d hd hpublished
      cases hd with
      | stayed hd => exact hstay hd
      | moved t next hcollect hmakes hd =>
        cases hd with
        | before hd => exact hstay hd
        | published a hhash _ hd => exact hmoved hcollect hmakes hhash hd hpublished (.inl rfl)
        | committed a hhash _ hd => exact hmoved hcollect hmakes hhash hd hpublished (.inr rfl)
    have hrun := wp_cycle
      (Q := fun _ d => (∀ x ∈ latestOf viem eip json d, x.attestation.snapshot ∈ S) →
        ∃ latest', Between viem eip poseidon input.identity latest' d ∧ NotBehind latest latest')
      (E := fun _ d => (∀ x ∈ latestOf viem eip json d, x.attestation.snapshot ∈ S) →
        ∃ latest', Between viem eip poseidon input.identity latest' d ∧ NotBehind latest latest')
      (C := fun d => (∀ x ∈ latestOf viem eip json d, x.attestation.snapshot ∈ S) →
        ∃ latest', Between viem eip poseidon input.identity latest' d ∧ NotBehind latest latest')
      hlib.nonzero hlib.snapshots hlib.transcripts hlib.json hlib.checksums hvalid hknown.builder
      (hkept.with_outcomes outcomes) ?_ (fun _ _ _ d hd _ => hleft d hd)
      (fun _ _ _ => hstay (hkept.with_outcomes outcomes)) (fun _ d hd => hleft d hd)
    · exact Process.wp_final (P := fun d => (∀ x ∈ latestOf viem eip json d,
        x.attestation.snapshot ∈ S) → ∃ latest', Between viem eip poseidon input.identity latest' d ∧
          NotBehind latest latest') hrun hknown.published
    · intro advanced a health d hd _ hpublished
      cases hd with
      | current t _ _ _ _ hd => exact hstay hd
      | advanced t next hcollect hmakes hhash hd =>
        exact hmoved hcollect hmakes hhash hd hpublished (.inr rfl)

theorem Between.latest_eq (hjson : json.ReadsBack)
    (h : Between viem eip poseidon identity latest disk) :
    latestOf viem eip json disk = latest := by
  obtain ⟨checkpoint, hkept, -⟩ := h
  exact hkept.latest_eq hjson

-- A whole run.
theorem Between.stores {events : List Event} (hlib : Libraries viem json poseidon fromStr)
    (hvalid : Valid viem identity) (hS : Set.InjOn (hashOf eip) S)
    (h : Between viem eip poseidon identity latest disk)
    (hknown : Along viem eip json (Event.Known viem eip json poseidon fromStr identity S) disk
      events)
    (hresumed : Along viem eip json (Event.Resumed viem eip json poseidon fromStr) disk events) :
    (∀ d ∈ stores viem eip json disk events, ∃ latest',
        Between viem eip poseidon identity latest' d ∧ NotBehind latest latest') ∧
      (stores viem eip json disk events).Pairwise fun d d' =>
        NotBehind (latestOf viem eip json d) (latestOf viem eip json d') := by
  induction events generalizing disk latest with
  | nil =>
    refine ⟨fun d hd => ?_, List.pairwise_singleton _ _⟩
    rw [List.mem_singleton.mp hd]
    exact ⟨latest, h, NotBehind.refl _⟩
  | cons event rest ih =>
    obtain ⟨hknown₁, hknown⟩ := hknown
    obtain ⟨hresumed₁, hresumed⟩ := hresumed
    obtain ⟨latest₁, h₁, hbehind⟩ := h.run hlib hvalid hS hknown₁ hresumed₁
    obtain ⟨hall, hpairwise⟩ := ih h₁ hknown hresumed
    have hlater : ∀ d ∈ StatusOperator.stores viem eip json (event.run viem eip json disk) rest,
        ∃ latest', Between viem eip poseidon identity latest' d ∧ NotBehind latest latest' := by
      intro d hd
      obtain ⟨latest', hd', hbehind'⟩ := hall d hd
      exact ⟨latest', hd', hbehind.trans hbehind'⟩
    refine ⟨fun d hd => ?_, List.pairwise_cons.mpr ⟨fun d hd => ?_, hpairwise⟩⟩
    · rcases List.mem_cons.mp hd with rfl | hd
      · exact ⟨latest, h, NotBehind.refl _⟩
      · exact hlater d hd
    · obtain ⟨latest', hd', hbehind'⟩ := hlater d hd
      rw [h.latest_eq hlib.json, hd'.latest_eq hlib.json]
      exact hbehind'

end

-- The published artifact never goes back and never contradicts itself in a run in which no cycle,
-- after a crash between the publication and the checkpoint, gets a range that ends before what was
-- published or differs from it. An honest node lets the cycle after any event succeed.
theorem published_never_regresses {viem : Viem} {eip : Eip712} {json : JSON} {poseidon : Poseidon}
    {fromStr : FromStr} {identity : ZkIdentityStatusOperatorIdentity} {S : Set SnapshotWire}
    {latest : Option ZkIdentityStatusOperatorArtifact} {disk : StoreDisk} {events : List Event}
    (hlib : Libraries viem json poseidon fromStr) (hvalid : Valid viem identity)
    (hS : Set.InjOn (hashOf eip) S) (h : Between viem eip poseidon identity latest disk)
    (hknown : Along viem eip json (Event.Known viem eip json poseidon fromStr identity S) disk
      events)
    (hresumed : Along viem eip json (Event.Resumed viem eip json poseidon fromStr) disk events) :
    (stores viem eip json disk events).Pairwise (fun d d' =>
        NotBehind (latestOf viem eip json d) (latestOf viem eip json d')) ∧
      ∀ d ∈ stores viem eip json disk events, ∃ checkpoint b,
        d.files .checkpoint = some checkpoint.json.compact ∧ Sound poseidon b ∧
        (b.snapshot poseidon).toWire = some checkpoint ∧
        ∀ input blocks, Operates viem eip poseidon fromStr identity input →
          Honest input.reader b blocks → FitsBuffer poseidon fromStr checkpoint b blocks →
          blocks.length ≤ ZK_IDENTITY_FINALIZED_INGESTION_MAX_BLOCKS →
          ∃ advanced a health d',
            runZkIdentityStatusOperatorCycle viem eip json input { d with outcomes := [] } =
              (.value (.ok advanced a health), d') := by
  obtain ⟨hall, hpairwise⟩ := h.stores hlib hvalid hS hknown hresumed
  refine ⟨hpairwise, fun d hd => ?_⟩
  obtain ⟨latest', ⟨checkpoint, hkept, -⟩, -⟩ := hall d hd
  obtain ⟨b, hsound, hw⟩ := hkept.own.made
  refine ⟨checkpoint, b, hkept.checkpointFile, hsound, hw, ?_⟩
  intro input blocks hinput hhonest hfits hbound
  obtain ⟨advanced, a, health, _, d', hrun, -⟩ := cycle_catches_up hlib hvalid
    (hkept.with_outcomes []) rfl hsound hw hinput hhonest hfits hbound
  exact ⟨advanced, a, health, d', hrun⟩

section

variable {checkpoint next : SnapshotWire} {latest : Option ZkIdentityStatusOperatorArtifact}
  {disk : StoreDisk} {input : RunZkIdentityStatusOperatorCycleInput}

-- A crash between the publication of an artifact and its checkpoint.
theorem wp_commit_crashed {Q : ZkIdentityStatusOperatorArtifact → StoreDisk → Prop}
    {E : String → StoreDisk → Prop} {C : StoreDisk → Prop} {a : ZkIdentityStatusOperatorArtifact}
    (hjson : json.ReadsBack) (h : Kept viem eip poseidon identity checkpoint latest disk)
    (ha : Published viem eip identity a) (hown : Own poseidon identity a.attestation.snapshot)
    (hfollows : Follows eip checkpoint a.attestation.snapshot)
    (hnew : disk.files (artifactPath a.attestation.snapshotHash) = none)
    (houtcomes : disk.outcomes = [.done, .done, .crashed false])
    (hC : ∀ d, Kept viem eip poseidon identity checkpoint (some a) d → C d) :
    (commit viem eip json a.document).wp Q E C disk := by
  have haccepted := h.own.accepted
  have hno := (regresses_iff ha.accepted.attestation.snapshotHash).mpr hfollows
  rw [commit, Process.wp_bind, parseArtifact_document ha.accepted, Process.wp_ofExcept_ok,
    Process.wp_bind]
  refine wp_readCheckpointJson hjson h ?_
  rw [Process.wp_bind, parseFile_ok (parse_compact hjson haccepted), parse_document haccepted,
    Process.wp_ofExcept_ok, Process.wp_bind, snapshotHash_document haccepted,
    Process.wp_ofExcept_ok, if_neg hno, Process.wp_bind, serializeArtifact_document ha.accepted,
    Process.wp_ofExcept_ok, Process.wp_bind, storeArtifact, Process.wp_bind, readFile,
    Process.wp_read, hnew, Process.wp_bind, atomicWrite, Disk.wp_write_cons houtcomes,
    Process.wp_pure, Process.wp_bind, atomicWrite]
  have hstored := h.put_artifact ha true
  have hrest : (disk.put (artifactPath a.attestation.snapshotHash) a.json.compact true).outcomes =
      [.done, .crashed false] := by
    rw [Disk.put, houtcomes]
    rfl
  generalize disk.put (artifactPath a.attestation.snapshotHash) a.json.compact true = d
    at hstored hrest ⊢
  have hpublished := hstored.put_latest ha
  have hlast : (d.put .latest a.json.compact true).outcomes = [.crashed false] := by
    rw [Disk.put, hrest]
    rfl
  rw [Disk.wp_write_cons hrest, serialize_document hown.accepted, Process.wp_bind,
    Process.wp_ofExcept_ok, Process.wp_bind, atomicWrite, Disk.wp_write_cons hlast]
  exact hC _ (hpublished.put_false _ _)

-- A cycle on an honest node in which that happens leaves its artifact ahead of the checkpoint.
theorem cycle_crashes {b : PackedStatusSnapshotBuilder} {blocks : List ChainBlock}
    (hlib : Libraries viem json poseidon fromStr) (hvalid : Valid viem identity)
    (hkept : Kept viem eip poseidon (identity.checksummed viem) checkpoint none disk)
    (hnew : ∀ hash, disk.files (artifactPath hash) = none)
    (houtcomes : disk.outcomes = [.done, .done, .crashed false]) (hsound : Sound poseidon b)
    (hw : (b.snapshot poseidon).toWire = some checkpoint)
    (hinput : Operates viem eip poseidon fromStr identity input)
    (h : Honest input.reader b blocks) (hfits : FitsBuffer poseidon fromStr checkpoint b blocks)
    (hbound : blocks.length ≤ ZK_IDENTITY_FINALIZED_INGESTION_MAX_BLOCKS) :
    ∃ a, Makes poseidon fromStr checkpoint (transcriptOf b blocks) a.attestation.snapshot ∧
      Kept viem eip poseidon (identity.checksummed viem) checkpoint (some a)
        (runZkIdentityStatusOperatorCycle viem eip json input disk).2 := by
  have hidentity := hinput.configured
  subst hidentity
  obtain ⟨hcollect, next, hmakes⟩ := h.makes hlib hvalid rfl hsound hw hkept.own.trusted hfits hbound
  obtain ⟨nextOwn, hown, heq⟩ :=
    (Own.checksummed.mp hkept.own).advance hlib.nonzero hlib.snapshots hmakes.output
  rw [← compact_snapshot_inj.mp heq] at hown
  have hsigns := hinput.signer next hown
  have hfollows : Follows eip checkpoint next := hmakes.follows hlib.nonzero hlib.snapshots hlib.transcripts
    (Own.checksummed.mp hkept.own) hcollect
  rw [← collected_checksummed] at hcollect
  let P : StoreDisk → Prop := fun d => ∃ a,
    Makes poseidon fromStr checkpoint (transcriptOf b blocks) a.attestation.snapshot ∧
      Kept viem eip poseidon (input.identity.checksummed viem) checkpoint (some a) d
  have hrun : (runZkIdentityStatusOperatorCycle viem eip json input).wp (fun _ => P) (fun _ => P) P
      disk := by
    refine wp_cycle_body hvalid (fun hnone => ?_) fun observedAt htime => ?_
    · have hnow := hinput.now
      rw [hnone] at hnow
      cases hnow
    refine wp_cycleBody_collected hlib.json hkept (fun e he => ?_)
      (fun _ a _ _ hnone => nomatch hnone) fun t ht => ?_
    · rw [hcollect] at he
      cases he
    rw [hcollect, Except.ok.injEq] at ht
    subst ht
    refine wp_publishNext hlib.nonzero hlib.snapshots hlib.json hlib.checksums
      (hvalid.checksummed hlib.checksums) hinput.builder htime hkept.own
      (fun hno => absurd hsigns (hno next hmakes)) ?_
    intro next' a hown' hmakes' ha hsnapshot
    obtain rfl : next' = next := hmakes.unique hmakes'
    rw [← hsnapshot] at hown' hfollows hmakes
    exact wp_commit_crashed hlib.json hkept ha hown' hfollows (hnew _) houtcomes
      fun d hd => ⟨a, hmakes, hd⟩
  exact Process.wp_final hrun

end

-- A hash that tells one snapshot from all others.
def tellingKeccak (w : SnapshotWire) (text : String) : Hash :=
  if text = w.json.compact then 1#256 else 2#256

theorem tellingKeccak_ne (w : SnapshotWire) (text : String) : tellingKeccak w text ≠ ZERO_HASH := by
  rw [tellingKeccak]
  split <;> decide

theorem hashOf_signedEip {keccak256 : String → Hash} {w : SnapshotWire} :
    hashOf (signedEip keccak256) w = bytesToHex (keccak256 w.json.compact) := rfl

theorem hashOf_telling {w w' : SnapshotWire}
    (h : hashOf (signedEip (tellingKeccak w)) w' = hashOf (signedEip (tellingKeccak w)) w) :
    w' = w := by
  rw [hashOf_signedEip, hashOf_signedEip] at h
  have hhash := bytesToHex_injective (by decide) h
  rw [tellingKeccak, tellingKeccak, if_pos rfl] at hhash
  split at hhash
  · rename_i heq
    exact compact_snapshot_inj.mp heq
  · exact absurd hhash (by decide)

-- A crash before the last of the three files of a commit is written.
def crashing : List WriteOutcome := [.done, .done, .crashed false]

theorem own_sampleCheckpoint : Own samplePoseidon sampleIdentity sampleCheckpoint :=
  Own.checksummed.mp (kept_sample sampleEip toWire_sampleBuilder).own

theorem fitsBuffer_sampleCheckpoint :
    FitsBuffer samplePoseidon compactFromStr sampleCheckpoint sampleBuilder (emptyChain 1 0) := by
  intro output houtput
  have hlength : sampleCheckpoint.json.render.length ≤ 1000 := length_sampleAt (.inl rfl)
  have hsize := Json.utf8ByteSize_compact_le sampleCheckpoint.json
  rw [advance_empty registryNode_sample compactFromStr_readsBack compactFromStr_readsSource
    own_sampleCheckpoint rfl houtput, MAX_BUFFER]
  omega

section

variable {w : SnapshotWire}

-- The sample operator crashes with the block behind its checkpoint published.
theorem crashed_sample : ∃ a, a.attestation.snapshot = sampleNext ∧
    Kept plainViem (signedEip (tellingKeccak w)) samplePoseidon
      (sampleIdentity.checksummed plainViem) sampleCheckpoint (some a)
      ((Event.cycle (sampleCycle 1) crashing).run plainViem (signedEip (tellingKeccak w)) compactJSON
        (sampleDisk sampleCheckpoint)) := by
  have hsound := reachable_sampleBuilder.sound (by decide) (by decide)
  have hkept := kept_sample (signedEip (tellingKeccak w)) toWire_sampleBuilder
  have hnew : ∀ hash, (sampleDisk sampleCheckpoint).files (artifactPath hash) = none := by
    intro hash
    simp only [sampleDisk]
    rw [Function.update_of_ne (artifactPath_ne _).1]
  obtain ⟨a, hmakes, hleft⟩ := cycle_crashes libraries_sample valid_sample
    (hkept.with_outcomes crashing) hnew rfl hsound toWire_sampleBuilder
    (operates_signed (tellingKeccak_ne w) _) (honest_emptyNode (by decide))
    (fitsBuffer_sample toWire_sampleBuilder) (by decide)
  rw [Event.run_cycle]
  exact ⟨a, compact_snapshot_inj.mp
    (advance_sample toWire_sampleBuilder (builder_advance.mp hmakes.output).1), hleft⟩

-- After that a cycle publishes what its node's tip is, be it the checkpoint again.
theorem recovered_sample {n : Nat} {latest : Option ZkIdentityStatusOperatorArtifact}
    {disk : StoreDisk} (hn : n ≤ 1)
    (hkept : Kept plainViem (signedEip (tellingKeccak w)) samplePoseidon
      (sampleIdentity.checksummed plainViem) sampleCheckpoint latest disk) :
    ∃ a next, Kept plainViem (signedEip (tellingKeccak w)) samplePoseidon
        (sampleIdentity.checksummed plainViem) next (some a)
        ((Event.cycle (sampleCycle n) []).run plainViem (signedEip (tellingKeccak w)) compactJSON
          disk) ∧
      Makes samplePoseidon compactFromStr sampleCheckpoint
        (transcriptOf sampleBuilder (emptyChain 1 n)) next ∧
      a.attestation.snapshotHash = hashOf (signedEip (tellingKeccak w)) next := by
  have hsound := reachable_sampleBuilder.sound (by decide) (by decide)
  have hfits : FitsBuffer samplePoseidon compactFromStr sampleCheckpoint sampleBuilder
      (emptyChain 1 n) := by
    interval_cases n
    · exact fitsBuffer_sampleCheckpoint
    · exact fitsBuffer_sample toWire_sampleBuilder
  have hbound : (emptyChain 1 n).length ≤ ZK_IDENTITY_FINALIZED_INGESTION_MAX_BLOCKS := by
    rw [emptyChain, List.length_map, List.length_range', ZK_IDENTITY_FINALIZED_INGESTION_MAX_BLOCKS]
    omega
  obtain ⟨advanced, a, health, next, d, hrun, hleft, -, hmakes, hhash⟩ :=
    cycle_catches_up libraries_sample valid_sample (hkept.with_outcomes []) rfl hsound
      toWire_sampleBuilder (operates_signed (tellingKeccak_ne w) (emptyNode n)) (honest_emptyNode (by omega))
      hfits hbound
  refine ⟨a, next, ?_, hmakes, hhash⟩
  rw [Event.run_cycle, sampleCycle, hrun]
  exact hleft

end

-- The sample operator publishes block 101 and crashes. Its node then says that block 100 is the
-- finalized tip, and it publishes that.
theorem published_regresses :
    Between plainViem (signedEip (tellingKeccak sampleCheckpoint)) samplePoseidon sampleIdentity none
        (sampleDisk sampleCheckpoint) ∧
      (∀ n ≤ 1, Operates plainViem (signedEip (tellingKeccak sampleCheckpoint)) samplePoseidon
          compactFromStr sampleIdentity (sampleCycle n) ∧
        Honest (sampleCycle n).reader sampleBuilder (emptyChain 1 n)) ∧
      ¬(stores plainViem (signedEip (tellingKeccak sampleCheckpoint)) compactJSON
        (sampleDisk sampleCheckpoint)
        [.cycle (sampleCycle 1) crashing, .cycle (sampleCycle 0) []]).Pairwise fun d d' =>
          ∀ x ∈ latestOf plainViem (signedEip (tellingKeccak sampleCheckpoint)) compactJSON d,
            ∃ y ∈ latestOf plainViem (signedEip (tellingKeccak sampleCheckpoint)) compactJSON d',
              blockNumber x.attestation.snapshot ≤ blockNumber y.attestation.snapshot := by
  have hkept := kept_sample (signedEip (tellingKeccak sampleCheckpoint)) toWire_sampleBuilder
  refine ⟨⟨_, hkept, nofun⟩, fun n hn => ?_, fun hpairwise => ?_⟩
  · exact ⟨operates_signed (tellingKeccak_ne _) _, honest_emptyNode (by omega)⟩
  obtain ⟨a, hsnapshot, hcrashed⟩ := crashed_sample (w := sampleCheckpoint)
  obtain ⟨a', next, hrecovered, hmakes, hhash⟩ := recovered_sample (Nat.zero_le 1) hcrashed
  obtain rfl : next = sampleCheckpoint := hmakes.eq_checkpoint registryNode_sample
    compactFromStr_readsBack compactFromStr_readsSource own_sampleCheckpoint rfl
  have hsame : a'.attestation.snapshot = sampleCheckpoint := by
    rw [(hrecovered.published a' rfl).accepted.attestation.snapshotHash] at hhash
    exact hashOf_telling hhash
  rw [stores, List.pairwise_cons] at hpairwise
  have hlast := (List.pairwise_cons.mp hpairwise.2).1 _ (List.mem_singleton_self _)
  obtain ⟨y, hy, hle⟩ := hlast a (by
    rw [hcrashed.latest_eq compactJSON_readsBack]
    rfl)
  rw [hrecovered.latest_eq compactJSON_readsBack, Option.mem_some] at hy
  rw [← hy, hsnapshot, hsame] at hle
  exact absurd hle (by decide)

-- Of block 101 the sample operator makes one snapshot.
theorem made_sample {eip : Eip712} {latest : Option ZkIdentityStatusOperatorArtifact}
    {disk : StoreDisk} {checkpoint next : SnapshotWire} {t : SourceWire}
    (hkept : Kept plainViem eip samplePoseidon (sampleIdentity.checksummed plainViem)
      sampleCheckpoint latest disk)
    (hfile : disk.files .checkpoint = some checkpoint.json.compact)
    (hcollect : collected plainViem (checksummedInput plainViem (sampleCycle 1)) checkpoint = .ok t)
    (hmakes : Makes samplePoseidon compactFromStr checkpoint t next) : next = sampleNext := by
  have hsound := reachable_sampleBuilder.sound (by decide) (by decide)
  rw [hkept.checkpointFile, Option.some.injEq, compact_snapshot_inj] at hfile
  subst hfile
  have hhonest : Honest (sampleCycle 1).reader sampleBuilder (emptyChain 1 1) :=
    honest_emptyNode (by decide)
  obtain ⟨hcollect', -⟩ := hhonest.makes libraries_sample valid_sample rfl hsound
    toWire_sampleBuilder hkept.own.trusted (fitsBuffer_sample toWire_sampleBuilder) (by decide)
  rw [collected_checksummed, hcollect', Except.ok.injEq] at hcollect
  subst hcollect
  exact compact_snapshot_inj.mp
    (advance_sample toWire_sampleBuilder (builder_advance.mp hmakes.output).1)

theorem published_never_regresses_sample :
    (stores plainViem (signedEip (tellingKeccak sampleNext)) compactJSON (sampleDisk sampleCheckpoint)
      [.cycle (sampleCycle 1) crashing, .cycle (sampleCycle 1) []]).Pairwise fun d d' =>
        NotBehind (latestOf plainViem (signedEip (tellingKeccak sampleNext)) compactJSON d)
          (latestOf plainViem (signedEip (tellingKeccak sampleNext)) compactJSON d') := by
  let eip := signedEip (tellingKeccak sampleNext)
  have hkept := kept_sample eip toWire_sampleBuilder
  obtain ⟨a, hsnapshot, hcrashed⟩ := crashed_sample (w := sampleNext)
  obtain ⟨a', next, hrecovered, hmakes, hhash⟩ := recovered_sample (Nat.le_refl 1) hcrashed
  obtain rfl : next = sampleNext := compact_snapshot_inj.mp
    (advance_sample toWire_sampleBuilder (builder_advance.mp hmakes.output).1)
  have hsame : a'.attestation.snapshot = sampleNext := by
    rw [(hrecovered.published a' rfl).accepted.attestation.snapshotHash] at hhash
    exact hashOf_telling hhash
  have hresumed : ∀ {latest : Option ZkIdentityStatusOperatorArtifact} {disk : StoreDisk},
      Kept plainViem eip samplePoseidon (sampleIdentity.checksummed plainViem) sampleCheckpoint
        latest disk → (∀ x ∈ latest, x.attestation.snapshot = sampleNext) → ∀ outcomes,
      (Event.cycle (sampleCycle 1) outcomes).Resumed plainViem eip compactJSON samplePoseidon
        compactFromStr disk := by
    intro latest disk hdisk hall outcomes checkpoint hfile x hx hahead t next hcollect hnext
    rw [hdisk.latest_eq compactJSON_readsBack] at hx
    exact .inr ((made_sample hdisk hfile hcollect hnext).trans (hall x hx).symm)
  have hknown : ∀ {latest : Option ZkIdentityStatusOperatorArtifact} {disk : StoreDisk}
      {outcomes : List WriteOutcome} {w : SnapshotWire} {x : ZkIdentityStatusOperatorArtifact},
      Kept plainViem eip samplePoseidon (sampleIdentity.checksummed plainViem) sampleCheckpoint
        latest disk →
      Kept plainViem eip samplePoseidon (sampleIdentity.checksummed plainViem) w (some x)
        ((Event.cycle (sampleCycle 1) outcomes).run plainViem eip compactJSON disk) →
      x.attestation.snapshot = sampleNext →
      (Event.cycle (sampleCycle 1) outcomes).Known plainViem eip compactJSON samplePoseidon
        compactFromStr sampleIdentity {sampleNext} disk := by
    intro latest disk outcomes w x hdisk hafter hx
    refine ⟨rfl, rfl, fun _ _ _ hfile hcollect hnext => made_sample hdisk hfile hcollect hnext, ?_⟩
    intro y hy
    rw [hafter.latest_eq compactJSON_readsBack, Option.mem_some] at hy
    exact hy ▸ hx
  have hpublished : ∀ x ∈ some a, x.attestation.snapshot = sampleNext := by
    intro x hx
    rw [Option.mem_some] at hx
    exact hx ▸ hsnapshot
  let events : List Event := [.cycle (sampleCycle 1) crashing, .cycle (sampleCycle 1) []]
  have hall : Along plainViem eip compactJSON
      (Event.Known plainViem eip compactJSON samplePoseidon compactFromStr sampleIdentity {sampleNext})
      (sampleDisk sampleCheckpoint) events :=
    ⟨hknown hkept hcrashed hsnapshot, hknown hcrashed hrecovered hsame, trivial⟩
  have hsafe : Along plainViem eip compactJSON
      (Event.Resumed plainViem eip compactJSON samplePoseidon compactFromStr)
      (sampleDisk sampleCheckpoint) events :=
    ⟨hresumed hkept nofun _, hresumed hcrashed hpublished _, trivial⟩
  exact (published_never_regresses libraries_sample valid_sample (Set.injOn_singleton _ _)
    ⟨_, hkept, nofun⟩ hall hsafe).1

end Ubi2.StatusOperator
