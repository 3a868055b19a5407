import Ubi2.StatusOperator.Outcome

namespace Ubi2.StatusOperator

open Ubi2.Runtime Ubi2.Lib Ubi2.Lib.Except Ubi2.StatusSnapshot Ubi2.StatusSnapshot.Sdk
open PackedStatusSnapshotBuilder ZkIdentityStatusOperatorStore

-- What is assumed of the libraries: the hash of a node is never zero, texts that were written are
-- read back, and checksums are addresses.
structure Libraries (viem : Viem) (json : JSON) (poseidon : Poseidon) (fromStr : FromStr) :
    Prop where
  nonzero : ∀ left right, registryNode poseidon left right ≠ 0
  snapshots : fromStr.ReadsBack
  transcripts : fromStr.ReadsSource
  json : json.ReadsBack
  checksums : Checksums viem

-- A cycle of a configured operator, with the Rust builder and the operator's own key.
structure Operates (viem : Viem) (eip : Eip712) (poseidon : Poseidon) (fromStr : FromStr)
    (identity : ZkIdentityStatusOperatorIdentity) (input : RunZkIdentityStatusOperatorCycleInput) :
    Prop where
  configured : input.identity = identity
  builder : input.builder = RustPackedStatusBuilder poseidon fromStr
  now : (IsoTime.toISOString input.now).isSome = true
  signer : ∀ w, Own poseidon identity w →
    Signs viem eip (identity.checksummed viem) input.signer w

-- A snapshot of a block.
structure At (w : SnapshotWire) (ref : SourceBlockRef) : Prop where
  number : w.sourceBlockNumber = ref.number.repr
  hash : w.sourceBlockHash = bytesToHex ref.hash
  parentHash : w.sourceBlockParentHash = bytesToHex ref.parentHash

-- The answers of an honest node, whose finalized chain has some more blocks than a builder's tip.
structure Honest (reader : ZkIdentityFinalizedRpcReader) (b : PackedStatusSnapshotBuilder)
    (blocks : List ChainBlock) : Prop where
  serves : Serves reader b.chainId b.issuanceRegistry b.issuerKeyId b.tip blocks
  chained : Chained b.tip b.nextStatusId blocks
  distinct : (b.tip.hash :: blocks.map fun block => block.source.hash).Nodup

-- What the builder prints of a chain fits the buffer that it is read into.
def FitsBuffer (poseidon : Poseidon) (fromStr : FromStr) (checkpoint : SnapshotWire)
    (b : PackedStatusSnapshotBuilder) (blocks : List ChainBlock) : Prop :=
  ∀ output, advancePackedStatusSnapshotFromJson poseidon fromStr checkpoint.json.compact
    (transcriptOf b blocks).json.compact = some (.ok output) → output.utf8ByteSize < MAX_BUFFER

variable {viem : Viem} {eip : Eip712} {json : JSON} {poseidon : Poseidon} {fromStr : FromStr}
  {identity : ZkIdentityStatusOperatorIdentity}

section

variable {input : RunZkIdentityStatusOperatorCycleInput} {checkpoint : SnapshotWire}
  {latest : Option ZkIdentityStatusOperatorArtifact} {disk : StoreDisk}
  {b : PackedStatusSnapshotBuilder} {blocks : List ChainBlock}

theorem trusts_checksummed (w : SnapshotWire) :
    trusts (identity.checksummed viem) w = trusts identity w := rfl

theorem Own.checksummed {w : SnapshotWire} :
    Own poseidon (identity.checksummed viem) w ↔ Own poseidon identity w :=
  ⟨fun h => ⟨h.accepted, h.made, h.trusted⟩, fun h => ⟨h.accepted, h.made, h.trusted⟩⟩

-- An honest node's answers, as far as the bound, are collected and the builder takes them.
theorem Honest.makes (hlib : Libraries viem json poseidon fromStr) (hvalid : Valid viem identity)
    (hinput : input.identity = identity) (hsound : Sound poseidon b)
    (hw : (b.snapshot poseidon).toWire = some checkpoint)
    (htrusted : trusts identity checkpoint = true) (h : Honest input.reader b blocks)
    (hfits : FitsBuffer poseidon fromStr checkpoint b blocks)
    (hbound : blocks.length ≤ ZK_IDENTITY_FINALIZED_INGESTION_MAX_BLOCKS) :
    collected viem input checkpoint = .ok (transcriptOf b blocks) ∧
      ∃ next, Makes poseidon fromStr checkpoint (transcriptOf b blocks) next := by
  subst hinput
  have hmatches := matches_collectInput hw htrusted
  have hchain : b.chainId = input.identity.chainId := by
    rw [← bigInt_repr b.chainId, ← (toWire_fields hw).1, (trusts_iff.mp htrusted).1, bigInt_repr]
  have hcollect := collect_served hsound hmatches hvalid.issuanceRegistry
    (viem.hex _ ▸ hvalid.issuerKeyId) (hchain ▸ hvalid.chainId) h.serves h.chained hbound
  have htext : (b.snapshot poseidon).toJson = some checkpoint.json.compact := by
    rw [PackedStatusSnapshot.toJson, hw]
    rfl
  obtain ⟨next, output, hadvance, hnext, hlast, -⟩ := advances_served hsound hlib.nonzero
    hlib.snapshots hlib.transcripts htext hmatches hcollect h.serves h.chained h.distinct
  obtain ⟨w, hwire, rfl⟩ := Option.map_eq_some_iff.mp hnext
  obtain ⟨_, -, rfl⟩ := Option.map_eq_some_iff.mp hwire
  refine ⟨hcollect, _, builder_advance.mpr ⟨hadvance, hfits _ hadvance⟩, ?_⟩
  rw [matchesSource, decide_eq_true_iff, hlast]
  exact ⟨rfl, rfl, rfl⟩

theorem lastRef_transcriptOf (b : PackedStatusSnapshotBuilder) (blocks : List ChainBlock) :
    lastRef (transcriptOf b blocks).anchor (transcriptOf b blocks).blocks =
      (anchorOf (lastOf b.tip blocks)).wire := by
  rw [transcriptOf, lastRef, lastOf, List.getLast?_map]
  cases blocks.getLast? <;> rfl

theorem Makes.at {next : SnapshotWire}
    (h : Makes poseidon fromStr checkpoint (transcriptOf b blocks) next) :
    At next (lastOf b.tip blocks) := by
  have hsource := h.source
  rw [lastRef_transcriptOf, matchesSource, decide_eq_true_iff] at hsource
  exact ⟨hsource.1, hsource.2.1, hsource.2.2⟩

theorem At.of_toWire (hw : (b.snapshot poseidon).toWire = some checkpoint) : At checkpoint b.tip := by
  obtain ⟨-, -, -, -, hnumber, hhash, hparent⟩ := toWire_fields hw
  exact ⟨hnumber, hhash, hparent⟩

-- A cycle on an honest node comes to the finalized tip.
theorem cycle_catches_up (hlib : Libraries viem json poseidon fromStr)
    (hvalid : Valid viem identity)
    (hkept : Kept viem eip poseidon (identity.checksummed viem) checkpoint latest disk)
    (hfaultless : disk.outcomes = []) (hsound : Sound poseidon b)
    (hw : (b.snapshot poseidon).toWire = some checkpoint)
    (hinput : Operates viem eip poseidon fromStr identity input)
    (h : Honest input.reader b blocks) (hfits : FitsBuffer poseidon fromStr checkpoint b blocks)
    (hbound : blocks.length ≤ ZK_IDENTITY_FINALIZED_INGESTION_MAX_BLOCKS) :
    ∃ advanced a health next d,
      runZkIdentityStatusOperatorCycle viem eip json input disk =
          (.value (.ok advanced a health), d) ∧
        Kept viem eip poseidon (identity.checksummed viem) next (some a) d ∧ d.outcomes = [] ∧
          Makes poseidon fromStr checkpoint (transcriptOf b blocks) next ∧
            a.attestation.snapshotHash = hashOf eip next := by
  have htrusted : trusts identity checkpoint = true := hkept.own.trusted
  obtain ⟨hcollect, next, hmakes⟩ :=
    h.makes hlib hvalid hinput.configured hsound hw htrusted hfits hbound
  have hcollect' := collected_checksummed.trans hcollect
  have hidentity := hinput.configured
  subst hidentity
  have hnot : ¬(disk.outcomes ≠ [] ∨
      Refused viem eip poseidon fromStr (checksummedInput viem input) checkpoint) := by
    rintro (hfaults | hrefused)
    · exact hfaults hfaultless
    · obtain ⟨nextOwn, hown, heq⟩ :=
        (Own.checksummed.mp hkept.own).advance hlib.nonzero hlib.snapshots hmakes.output
      rw [← compact_snapshot_inj.mp heq] at hown
      exact hrefused _ next hcollect' hmakes (hinput.signer next hown)
  have hrun := wp_cycle (C := fun _ => False)
    (E := fun _ _ => False)
    (Q := fun result d => ∃ advanced a health next, result = .ok advanced a health ∧
      Kept viem eip poseidon (input.identity.checksummed viem) next (some a) d ∧ d.outcomes = [] ∧
        Makes poseidon fromStr checkpoint (transcriptOf b blocks) next ∧
          a.attestation.snapshotHash = hashOf eip next)
    hlib.nonzero hlib.snapshots hlib.transcripts hlib.json hlib.checksums hvalid hinput.builder hkept
    ?_ (fun hrefused => absurd hrefused hnot) ?_ (fun hfaults => absurd hfaultless hfaults)
  · obtain ⟨result, hresult, advanced, a, health, next', rfl, hend⟩ := Process.wp_value hrun
    exact ⟨advanced, a, health, next', _, Prod.ext hresult rfl, hend⟩
  · intro advanced a health d hended houtcomes
    cases hended with
    | current t collect empty same hash hd =>
      rw [hcollect', Except.ok.injEq] at collect
      subst collect
      obtain rfl := hmakes.eq_checkpoint hlib.nonzero hlib.snapshots hlib.transcripts hkept.own empty
      rw [same] at hd
      exact ⟨advanced, a, health, next, rfl, hd, houtcomes hfaultless, hmakes, hash⟩
    | advanced t next' collect makes hash hd =>
      rw [hcollect', Except.ok.injEq] at collect
      subst collect
      exact ⟨advanced, a, health, next', rfl, hd, houtcomes hfaultless, makes, hash⟩
  · intro hnone
    have hnow := hinput.now
    rw [hnone] at hnow
    cases hnow

-- A cycle on a node that is past the bound fails, and leaves the files but for its health.
theorem cycle_stays (hlib : Libraries viem json poseidon fromStr) (hvalid : Valid viem identity)
    (hkept : Kept viem eip poseidon (identity.checksummed viem) checkpoint latest disk)
    (hfaultless : disk.outcomes = []) (hinput : Operates viem eip poseidon fromStr identity input)
    {value : ZkIdentityFinalizedBlockHeader} (hvalue : input.reader.getFinalizedBlock = .ok value)
    (hfar : (blockNumber checkpoint + ZK_IDENTITY_FINALIZED_INGESTION_MAX_BLOCKS : Nat) <
      value.number) :
    ∃ code health d,
      runZkIdentityStatusOperatorCycle viem eip json input disk =
          (.value (.failed code health), d) ∧
        Kept viem eip poseidon (identity.checksummed viem) checkpoint latest d ∧
          d.outcomes = [] := by
  have hidentity := hinput.configured
  subst hidentity
  obtain ⟨b, -, hw⟩ := hkept.own.made
  have htip : blockNumber checkpoint = b.tip.number := by
    rw [blockNumber, (At.of_toWire hw).number, bigInt_repr]
  rw [htip] at hfar
  have hnever : ∀ t, collected viem (checksummedInput viem input) checkpoint ≠ .ok t := by
    intro t
    have hmatches : Matches (collectInput (checksummedInput viem input) checkpoint)
        (b.snapshot poseidon) := matches_collectInput hw hkept.own.trusted
    exact collect_far hmatches hvalue hfar
  have hrun := wp_cycle (C := fun _ => False)
    (E := fun _ _ => False)
    (Q := fun result d => ∃ code health, result = .failed code health ∧
      Kept viem eip poseidon (input.identity.checksummed viem) checkpoint latest d ∧
        d.outcomes = [])
    hlib.nonzero hlib.snapshots hlib.transcripts hlib.json hlib.checksums hvalid hinput.builder hkept
    ?_ ?_ ?_ (fun hfaults => absurd hfaultless hfaults)
  · obtain ⟨result, hresult, code, health, rfl, hleft⟩ := Process.wp_value hrun
    exact ⟨code, health, _, Prod.ext hresult rfl, hleft⟩
  · intro advanced a health d hended
    cases hended with
    | current t collect => exact absurd collect (hnever t)
    | advanced t next collect => exact absurd collect (hnever t)
  · intro _ code health d hleft houtcomes
    cases hleft with
    | stayed hd => exact ⟨code, health, rfl, hd, houtcomes hfaultless⟩
    | moved t next collect => exact absurd collect (hnever t)
  · intro hnone
    have hnow := hinput.now
    rw [hnone] at hnow
    cases hnow

end

-- Cycles one after the other: what each came to, and the store that the last one left.
def runCycles (viem : Viem) (eip : Eip712) (json : JSON) :
    List RunZkIdentityStatusOperatorCycleInput → StoreDisk →
      List (Exit String ZkIdentityStatusOperatorCycleResult) × StoreDisk
  | [], disk => ([], disk)
  | input :: rest, disk =>
    let (exit, disk) := runZkIdentityStatusOperatorCycle viem eip json input disk
    let (exits, disk) := runCycles viem eip json rest disk
    (exit :: exits, disk)

theorem runCycles_singleton (input : RunZkIdentityStatusOperatorCycleInput) (disk : StoreDisk) :
    (runCycles viem eip json [input] disk).1 =
      [(runZkIdentityStatusOperatorCycle viem eip json input disk).1] := rfl

section

variable {checkpoint : SnapshotWire} {latest : Option ZkIdentityStatusOperatorArtifact}
  {disk : StoreDisk}

-- A node whose finalized tip is past the bound from a checkpoint.
def Far (checkpoint : SnapshotWire) (reader : ZkIdentityFinalizedRpcReader) : Prop :=
  ∃ value, reader.getFinalizedBlock = .ok value ∧
    (blockNumber checkpoint + ZK_IDENTITY_FINALIZED_INGESTION_MAX_BLOCKS : Nat) < value.number

theorem runCycles_stays (hlib : Libraries viem json poseidon fromStr) (hvalid : Valid viem identity)
    (hkept : Kept viem eip poseidon (identity.checksummed viem) checkpoint latest disk)
    (hfaultless : disk.outcomes = []) {inputs : List RunZkIdentityStatusOperatorCycleInput}
    (hinputs : ∀ input ∈ inputs, Operates viem eip poseidon fromStr identity input ∧
      Far checkpoint input.reader) :
    (∀ exit ∈ (runCycles viem eip json inputs disk).1, ∃ code health,
        exit = .value (.failed code health)) ∧
      Kept viem eip poseidon (identity.checksummed viem) checkpoint latest
        (runCycles viem eip json inputs disk).2 := by
  induction inputs generalizing disk with
  | nil => exact ⟨nofun, hkept⟩
  | cons input rest ih =>
    obtain ⟨hinput, value, hvalue, hfar⟩ := hinputs input List.mem_cons_self
    obtain ⟨code, health, d, hcycle, hkept', hfaultless'⟩ :=
      cycle_stays hlib hvalid hkept hfaultless hinput hvalue hfar
    obtain ⟨hexits, hrest⟩ := ih hkept' hfaultless' fun other hother =>
      hinputs other (List.mem_cons_of_mem _ hother)
    rw [runCycles, hcycle]
    refine ⟨fun exit hexit => ?_, hrest⟩
    rcases List.mem_cons.mp hexit with rfl | hexit
    · exact ⟨code, health, rfl⟩
    · exact hexits exit hexit

end

-- An operator comes to the finalized tip in one cycle when the tip is at most 512 blocks ahead of
-- its checkpoint. When it is further ahead every cycle fails, and the checkpoint stays behind.
theorem operator_catch_up {viem : Viem} {eip : Eip712} {json : JSON} {poseidon : Poseidon}
    {fromStr : FromStr} {identity : ZkIdentityStatusOperatorIdentity} {checkpoint : SnapshotWire}
    {latest : Option ZkIdentityStatusOperatorArtifact} {disk : StoreDisk}
    {b : PackedStatusSnapshotBuilder} (hlib : Libraries viem json poseidon fromStr)
    (hvalid : Valid viem identity) (hsound : Sound poseidon b)
    (hw : (b.snapshot poseidon).toWire = some checkpoint)
    (hkept : Kept viem eip poseidon (identity.checksummed viem) checkpoint latest disk)
    (hfaultless : disk.outcomes = []) :
    (∀ input blocks, Operates viem eip poseidon fromStr identity input →
      Honest input.reader b blocks → FitsBuffer poseidon fromStr checkpoint b blocks →
      blocks.length ≤ ZK_IDENTITY_FINALIZED_INGESTION_MAX_BLOCKS →
      ∃ advanced a health next d,
        runZkIdentityStatusOperatorCycle viem eip json input disk =
            (.value (.ok advanced a health), d) ∧
          Kept viem eip poseidon (identity.checksummed viem) next (some a) d ∧ d.outcomes = [] ∧
            At next (lastOf b.tip blocks)) ∧
    (∀ inputs : List RunZkIdentityStatusOperatorCycleInput,
      (∀ input ∈ inputs, Operates viem eip poseidon fromStr identity input ∧
        ∃ blocks, Honest input.reader b blocks ∧
          ZK_IDENTITY_FINALIZED_INGESTION_MAX_BLOCKS < blocks.length) →
      (∀ exit ∈ (runCycles viem eip json inputs disk).1, ∃ code health,
          exit = .value (.failed code health)) ∧
        Kept viem eip poseidon (identity.checksummed viem) checkpoint latest
          (runCycles viem eip json inputs disk).2) := by
  refine ⟨?_, ?_⟩
  · intro input blocks hinput h hfits hbound
    obtain ⟨advanced, a, health, next, d, hrun, hkept', hfaultless', hmakes, -⟩ :=
      cycle_catches_up hlib hvalid hkept hfaultless hsound hw hinput h hfits hbound
    exact ⟨advanced, a, health, next, d, hrun, hkept', hfaultless', hmakes.at⟩
  · intro inputs hinputs
    refine runCycles_stays hlib hvalid hkept hfaultless fun input hinput => ?_
    obtain ⟨hoperates, blocks, h, hfar⟩ := hinputs input hinput
    obtain ⟨value, hvalue, hgives⟩ := h.serves.finalized
    refine ⟨hoperates, value, hvalue, ?_⟩
    have hlast := h.chained.last_number
    rw [hgives.number, hlast, blockNumber, (At.of_toWire hw).number, bigInt_repr]
    omega

-- A chain of empty blocks behind the sample builder, and a node that answers for it.
def emptyBlock (i : Nat) : ChainBlock :=
  ⟨⟨100 + i, BitVec.ofNat 256 (i + 1), BitVec.ofNat 256 i⟩, []⟩

def emptyChain (first n : Nat) : List ChainBlock := (List.range' first n).map emptyBlock

def headerOf (ref : SourceBlockRef) : ZkIdentityFinalizedBlockHeader :=
  ⟨ref.number, bytesToHex ref.hash, bytesToHex ref.parentHash⟩

def emptyNode (n : Nat) : ZkIdentityFinalizedRpcReader where
  getChainId := .ok (.integer 84532)
  getFinalizedBlock := .ok (headerOf (emptyBlock n).source)
  getBlock := fun k => .ok (headerOf (emptyBlock (k - 100)).source)
  getCredentialAllocatedLogs := fun _ _ _ _ => .ok []

theorem gives_headerOf (ref : SourceBlockRef) : Gives (headerOf ref) ref :=
  ⟨rfl, spells_bytesToHex _, spells_bytesToHex _⟩

theorem lastOf_emptyChain (i n : Nat) :
    lastOf (emptyBlock i).source (emptyChain (i + 1) n) = (emptyBlock (i + n)).source := by
  induction n generalizing i with
  | zero => rfl
  | succ n ih =>
    rw [emptyChain, List.range'_succ, List.map_cons, lastOf_cons]
    show lastOf _ (emptyChain (i + 1 + 1) n) = _
    rw [ih, Nat.add_right_comm i 1 n, Nat.add_assoc]

theorem chained_emptyChain {i n : Nat} (h : i + n < 1000) :
    Chained (emptyBlock i).source 1 (emptyChain (i + 1) n) := by
  induction n generalizing i with
  | zero => trivial
  | succ n ih =>
    rw [emptyChain, List.range'_succ, List.map_cons]
    refine ⟨rfl, ?_, rfl, ?_, .nil, Numbered.nil, nofun, ih (by omega)⟩
    · show 100 + (i + 1) ≤ U64_MAX
      rw [U64_MAX]
      omega
    · intro hzero
      have hvalue := congrArg BitVec.toNat hzero
      rw [emptyBlock, BitVec.toNat_ofNat, Nat.mod_eq_of_lt (by omega)] at hvalue
      cases hvalue

theorem honest_emptyNode {n : Nat} (h : n < 1000) :
    Honest (emptyNode n) sampleBuilder (emptyChain 1 n) := by
  have hlast : lastOf sampleBuilder.tip (emptyChain 1 n) = (emptyBlock n).source := by
    have hlast := lastOf_emptyChain 0 n
    rwa [Nat.zero_add, Nat.zero_add] at hlast
  have hempty : ((emptyChain 1 n).flatMap fun block =>
      block.ids.map fun id => (block.source, id)) = [] := by
    rw [List.flatMap_eq_nil_iff]
    intro block hblock
    obtain ⟨i, -, rfl⟩ := List.mem_map.mp hblock
    rfl
  have hchained : Chained (emptyBlock 0).source 1 (emptyChain (0 + 1) n) :=
    chained_emptyChain (by omega)
  refine ⟨⟨rfl, ⟨_, rfl, ?_⟩, ?_, fun _ => ⟨[], rfl, ?_⟩⟩, hchained, ?_⟩
  · rw [hlast]
    exact gives_headerOf _
  · intro block hblock
    obtain ⟨i, -, rfl⟩ := List.mem_map.mp hblock
    refine ⟨_, rfl, ?_⟩
    show Gives (headerOf (emptyBlock (100 + i - 100)).source) _
    rw [Nat.add_sub_cancel_left]
    exact gives_headerOf _
  · rw [hempty]
    exact .nil
  · have hhashes : sampleBuilder.tip.hash ::
        (emptyChain 1 n).map (fun block => block.source.hash) =
          (List.range' 0 (n + 1)).map fun i => BitVec.ofNat 256 (i + 1) := by
      rw [List.range'_succ, List.map_cons, emptyChain, List.map_map]
      rfl
    rw [hhashes]
    refine List.Nodup.map_on (fun i hi j hj heq => ?_) List.nodup_range'
    rw [List.mem_range'_1] at hi hj
    have hvalue := congrArg BitVec.toNat heq
    rw [BitVec.toNat_ofNat, BitVec.toNat_ofNat, Nat.mod_eq_of_lt (by omega),
      Nat.mod_eq_of_lt (by omega)] at hvalue
    omega

-- Addresses in small digits.
def plainViem : Viem := viemWith toLowerCase fun value h => by
  rw [isAddressText, decide_eq_true_iff] at h
  exact (hexText_toLowerCase h.1).toLowerCase

-- One key that has signed everything.
def signedEip (keccak256 : String → Hash) : Eip712 where
  keccak256 := keccak256
  hashTypedData := fun _ => 1#256
  recoverTypedDataAddress := fun _ _ => .ok 0x33#160

def sampleEip : Eip712 := signedEip fun _ => 1#256

def sampleIdentity : ZkIdentityStatusOperatorIdentity where
  operatorId := "operator-1"
  chainId := 84532
  issuanceRegistry := bytesToHex 0x11#160
  issuerKeyId := bytesToHex 0x22#256
  signerAddress := bytesToHex 0x33#160

def sampleSignature : String := String.ofList ('0' :: 'x' :: List.replicate 130 '0')

def cycleOn (reader : ZkIdentityFinalizedRpcReader) : RunZkIdentityStatusOperatorCycleInput where
  identity := sampleIdentity
  reader := reader
  builder := RustPackedStatusBuilder samplePoseidon compactFromStr
  signer := ⟨fun _ => .ok sampleSignature⟩
  now := 0

def sampleCycle (n : Nat) : RunZkIdentityStatusOperatorCycleInput := cycleOn (emptyNode n)

def sampleDisk (checkpoint : SnapshotWire) : StoreDisk where
  files := Function.update (fun _ => none) .checkpoint (some checkpoint.json.compact)
  outcomes := []

theorem isAddress_plain {x : Address} (hx : x ≠ ZERO_ADDRESS) :
    IsAddress plainViem (bytesToHex x) := by
  have htext := hexText_bytesToHex x
  refine ⟨?_, ?_⟩
  · rw [Viem.isAddress, decide_eq_true_iff, isAddressText, decide_eq_true_iff]
    exact ⟨⟨htext.isHexText, by rw [htext.length, Hex.length_fixed]⟩, .inl htext.toLowerCase⟩
  · rw [bigInt_bytesToHex (by decide)]
    exact fun hzero => hx (BitVec.eq_of_toNat_eq hzero)

theorem checksums_plain : Checksums plainViem where
  text value h := by
    rw [isAddressText, decide_eq_true_iff] at h ⊢
    refine ⟨(hexText_toLowerCase h.1).isHexText, ?_⟩
    rw [← h.2]
    show (toLowerCase value).toList.length = _
    rw [toLowerCase, String.toList_ofList, List.length_map]
  again value h := plainViem.lower value h

theorem libraries_sample : Libraries plainViem compactJSON samplePoseidon compactFromStr :=
  ⟨registryNode_sample, compactFromStr_readsBack, compactFromStr_readsSource, compactJSON_readsBack,
    checksums_plain⟩

theorem valid_sample : Valid plainViem sampleIdentity where
  operatorId := by decide
  chainId := by decide
  issuanceRegistry := (isAddress_plain (by decide)).1
  issuerKeyId := (plainViem.hex _).trans (hexText_bytesToHex _).isHexText
  signerAddress := isAddress_plain (by decide)

theorem isSignature_sample : isSignature sampleSignature = true := by
  have htext : HexText sampleSignature (List.replicate 130 '0') := by
    refine ⟨rfl, fun c hc => ?_⟩
    rw [List.eq_of_mem_replicate hc]
    decide
  rw [isSignature, decide_eq_true_iff]
  refine ⟨htext.isHexText, ?_⟩
  rw [byteCount, htext.length, List.length_replicate]

theorem operates_signed {keccak256 : String → Hash} (hne : ∀ text, keccak256 text ≠ ZERO_HASH)
    (reader : ZkIdentityFinalizedRpcReader) : Operates plainViem (signedEip keccak256) samplePoseidon
      compactFromStr sampleIdentity (cycleOn reader) where
  configured := rfl
  builder := rfl
  now := by
    show (IsoTime.toISOString 0).isSome = true
    decide
  signer w h := by
    have hchain : bigIntOfDecimal w.chainId = 84532 := by
      rw [(trusts_iff.mp h.trusted).1, bigInt_repr]
      rfl
    have hsafe : ¬((bigIntOfDecimal w.chainId : Int) > MAX_SAFE_INTEGER) := by
      rw [hchain, MAX_SAFE_INTEGER]
      omega
    let eip := signedEip keccak256
    have haccepted : AttestationAccepted eip (attestationOf eip w sampleSignature) :=
      ⟨rfl, rfl, h.accepted, rfl, hne _, isSignature_toLowerCase isSignature_sample⟩
    have htyped : ∃ typed, snapshotTypedData w (hashOf eip w) = .ok typed := by
      rw [snapshotTypedData, if_neg hsafe]
      exact ⟨_, rfl⟩
    obtain ⟨typed, htyped⟩ := htyped
    have hsigner := getAddress_ok (isAddress_plain (x := 0x33#160) (by decide))
    have hdigest : zkIdentityPackedStatusAttestationDigest plainViem eip w.document =
        .ok (bytesToHex 1#256) := by
      refine map_eq_ok.mpr ⟨typed, ?_, rfl⟩
      simp only [zkIdentityPackedStatusAttestationTypedData, bind_eq_ok]
      exact ⟨w, parse_document h.accepted, _, snapshotHash_document h.accepted, htyped⟩
    refine ⟨_, sampleSignature, hdigest, rfl, isSignature_sample, bytesToHex 0x33#160,
      bytesToHex 0x33#160, ?_, ?_, ?_⟩
    · simp only [recoverZkIdentityPackedStatusAttestationSigner, bind_eq_ok]
      exact ⟨_, parseAttestation_document haccepted, typed, htyped, _, rfl, congrArg Except.ok
        (hexText_bytesToHex _).toLowerCase⟩
    · rw [hsigner]
      exact congrArg Except.ok (hexText_bytesToHex _).toLowerCase
    · show getAddress plainViem (plainViem.getAddress (bytesToHex 0x33#160)) = _
      have hlower : plainViem.getAddress (bytesToHex 0x33#160) = bytesToHex 0x33#160 :=
        (hexText_bytesToHex _).toLowerCase
      rw [hlower, hsigner, hlower]

theorem operates_sample (reader : ZkIdentityFinalizedRpcReader) : Operates plainViem sampleEip
    samplePoseidon compactFromStr sampleIdentity (cycleOn reader) :=
  operates_signed (fun _ => by decide) reader

theorem kept_sample (eip : Eip712) {w : SnapshotWire}
    (hw : (sampleBuilder.snapshot samplePoseidon).toWire = some w) :
    Kept plainViem eip samplePoseidon (sampleIdentity.checksummed plainViem) w none
      (sampleDisk w) := by
  have hsound := reachable_sampleBuilder.sound (by decide) (by decide)
  obtain ⟨hchain, hregistry, hissuer, -⟩ := toWire_fields hw
  have hnone : ∀ path, path ≠ .checkpoint → (sampleDisk w).files path = none := by
    intro path hpath
    simp only [sampleDisk]
    rw [Function.update_of_ne hpath]
  refine ⟨?_, ⟨(hsound.accepted registryNode_sample hw).1, ⟨_, hsound, hw⟩, ?_⟩,
    hnone _ (by decide), nofun, ?_⟩
  · simp only [sampleDisk]
    rw [Function.update_self]
  · rw [trusts_checksummed, trusts_iff, hchain, hregistry, hissuer]
    exact ⟨rfl, rfl, (hexText_bytesToHex _).toLowerCase.symm⟩
  · intro x text htext
    rw [hnone _ (artifactPath_ne (bytesToHex x)).1] at htext
    cases htext

-- The sample builder behind one block, and its snapshots before and behind it.
def sampleAdvanced : PackedStatusSnapshotBuilder :=
  { sampleBuilder.onto sampleBuilder.tip [] with
    tip := ⟨101, 2#256, 1#256⟩
    history := [⟨⟨101, 2#256, 1#256⟩, sampleBuilder.tip, 1, []⟩] }

def sampleAt (ref : SourceBlockRef) : SnapshotWire where
  schema := ZK_IDENTITY_STATUS_SNAPSHOT_SCHEMA
  chainId := (84532).repr
  issuanceRegistry := bytesToHex 0x11#160
  issuerKeyId := bytesToHex 0x22#256
  sourceBlockNumber := ref.number.repr
  sourceBlockHash := bytesToHex ref.hash
  sourceBlockParentHash := bytesToHex ref.parentHash
  nextStatusId := 1
  activatedThroughStatusId := 0
  root := bytesToHex 5#256
  chunks := []

def sampleCheckpoint : SnapshotWire := sampleAt sampleBuilder.tip

def sampleNext : SnapshotWire := sampleAt sampleAdvanced.tip

theorem toWire_sampleBuilder :
    (sampleBuilder.snapshot samplePoseidon).toWire = some sampleCheckpoint := by
  have hroot : (sampleBuilder.snapshot samplePoseidon).root = Fin.ofNat BN254_FR 5 := rfl
  have htext : fieldToHex (Fin.ofNat BN254_FR 5) = bytesToHex 5#256 := rfl
  rw [PackedStatusSnapshot.toWire, hroot, htext]
  rfl

theorem toWire_sampleAdvanced : (sampleAdvanced.snapshot samplePoseidon).toWire = some sampleNext := by
  have hroot : (sampleAdvanced.snapshot samplePoseidon).root = Fin.ofNat BN254_FR 5 := rfl
  have htext : fieldToHex (Fin.ofNat BN254_FR 5) = bytesToHex 5#256 := rfl
  rw [PackedStatusSnapshot.toWire, hroot, htext]
  rfl

set_option maxRecDepth 4000 in
open Json in
theorem length_sampleAt {ref : SourceBlockRef}
    (h : ref = sampleBuilder.tip ∨ ref = sampleAdvanced.tip) :
    (sampleAt ref).json.render.length ≤ 1000 := by
  rcases h with rfl | rfl
  all_goals
    simp only [SnapshotWire.json, sampleAt, render, renderFields, quote, bytesToHex,
      String.toList_ofList, Nat.toList_repr, List.map_nil]
    decide

theorem readable_anchorOf {ref : SourceBlockRef} (hnumber : ref.number ≤ U64_MAX)
    (hhash : ref.hash ≠ ZERO_HASH) : Readable (anchorOf ref) := by
  refine ⟨hnumber, ?_, ?_⟩
  · show bytesToHex ref.hash = bytesToHex (wordOf (bytesToHex ref.hash))
    rw [wordOf_bytesToHex]
  · show wordOf (bytesToHex ref.hash) ≠ _
    rwa [wordOf_bytesToHex]

theorem advance_sample {w : SnapshotWire} {output : String}
    (hw : (sampleBuilder.snapshot samplePoseidon).toWire = some w)
    (houtput : advancePackedStatusSnapshotFromJson samplePoseidon compactFromStr w.json.compact
      (transcriptOf sampleBuilder (emptyChain 1 1)).json.compact = some (.ok output)) :
    output = sampleNext.json.compact := by
  have hsound := reachable_sampleBuilder.sound (by decide) (by decide)
  obtain ⟨parsed, b', next, hparsed, happly, hnext, rfl⟩ :=
    advance_inv hsound registryNode_sample compactFromStr_readsBack hw houtput
  have hblocks := ((parseSourceJson_iff (compactFromStr_source _)).mp hparsed).blocks
  let header := anchorOf (emptyBlock 1).source
  have hread : Readable header := readable_anchorOf (by decide) (by decide)
  have hparse := @parseBlocks 0x22#256 (fun _ => []) 101 1#256 [header] ⟨rfl, rfl, trivial⟩
    (fun other hother => List.mem_singleton.mp hother ▸ hread) (fun _ _ => nofun)
  have hsame : (transcriptOf sampleBuilder (emptyChain 1 1)).blocks =
      [header].map (blockWire fun _ => []) := rfl
  rw [hsame, hparse, Except.ok.injEq] at hblocks
  have hblock : [header].map (blockOf 0x22#256 fun _ => []) = [⟨⟨101, 2#256, 1#256⟩, []⟩] := by
    show [FinalizedStatusBlock.mk ⟨101, wordOf (bytesToHex 2#256), wordOf (bytesToHex 1#256)⟩ []] = _
    rw [wordOf_bytesToHex, wordOf_bytesToHex]
  have hadvanced : applySourceBlocks samplePoseidon (sampleBuilder.onto sampleBuilder.tip [])
      [⟨⟨101, 2#256, 1#256⟩, []⟩] = .ok sampleAdvanced := rfl
  rw [← hblocks, hblock, hadvanced, Except.ok.injEq] at happly
  subst happly
  rw [toWire_sampleAdvanced, Option.some.injEq] at hnext
  rw [hnext]

theorem fitsBuffer_sample {w : SnapshotWire}
    (hw : (sampleBuilder.snapshot samplePoseidon).toWire = some w) :
    FitsBuffer samplePoseidon compactFromStr w sampleBuilder (emptyChain 1 1) := by
  intro output houtput
  have hlength : sampleNext.json.render.length ≤ 1000 := length_sampleAt (.inr rfl)
  have hsize := Json.utf8ByteSize_compact_le sampleNext.json
  rw [advance_sample hw houtput, MAX_BUFFER]
  omega

-- A chain of two blocks that allocate three ids, and a node that answers for it.
def allocatingChain : List ChainBlock :=
  [⟨⟨101, 2#256, 1#256⟩, [(0, 1), (1, 2)]⟩, ⟨⟨102, 3#256, 2#256⟩, [(0, 3)]⟩]

def logOf (source : SourceBlockRef) (id : Nat × Nat) : ZkIdentityCredentialAllocatedLog :=
  ⟨source.number, bytesToHex source.hash, .integer id.1, bytesToHex 0x22#256, .integer id.2⟩

def allocatingNode : ZkIdentityFinalizedRpcReader where
  getChainId := .ok (.integer 84532)
  getFinalizedBlock := .ok (headerOf ⟨102, 3#256, 2#256⟩)
  getBlock := fun k =>
    .ok (headerOf (if k = 101 then ⟨101, 2#256, 1#256⟩ else ⟨102, 3#256, 2#256⟩))
  getCredentialAllocatedLogs := fun _ _ _ _ =>
    .ok (allocatingChain.flatMap fun block => block.ids.map (logOf block.source))

theorem reports_logOf (source : SourceBlockRef) (id : Nat × Nat) :
    Reports 0x22#256 (logOf source id) (source, id) :=
  ⟨rfl, spells_bytesToHex _, rfl, spells_bytesToHex _, rfl⟩

theorem honest_allocatingNode : Honest allocatingNode sampleBuilder allocatingChain := by
  refine ⟨⟨rfl, ⟨_, rfl, gives_headerOf _⟩, ?_, fun _ => ⟨_, rfl, ?_⟩⟩, ?_, by decide⟩
  · intro block hblock
    rcases List.mem_pair.mp hblock with rfl | rfl
    · exact ⟨_, rfl, gives_headerOf ⟨101, 2#256, 1#256⟩⟩
    · exact ⟨_, rfl, gives_headerOf ⟨102, 3#256, 2#256⟩⟩
  · exact .cons (reports_logOf _ _) (.cons (reports_logOf _ _) (.cons (reports_logOf _ _) .nil))
  · refine ⟨rfl, by decide, rfl, by decide, by decide, rfl, by decide, ?_⟩
    exact ⟨rfl, by decide, rfl, by decide, by decide, rfl, by decide, trivial⟩

def allocatedBlocks : List FinalizedStatusBlock :=
  [⟨⟨101, 2#256, 1#256⟩, allocations 0x22#256 [(0, 1), (1, 2)]⟩,
    ⟨⟨102, 3#256, 2#256⟩, allocations 0x22#256 [(0, 3)]⟩]

-- The snapshot behind them. Only the bits of the three ids are clear.
def allocatedNext : SnapshotWire :=
  { sampleAt ⟨102, 3#256, 2#256⟩ with
    nextStatusId := 4
    activatedThroughStatusId := 3
    chunks := [⟨0, chunkToHex ⟨BitVec.ofNat 128 (2 ^ 128 - 15), BitVec.allOnes 128⟩⟩] }

def allocatedBuilder : PackedStatusSnapshotBuilder :=
  match applySourceBlocks samplePoseidon (sampleBuilder.onto sampleBuilder.tip [])
    allocatedBlocks with
  | .ok b => b
  | .error _ => sampleBuilder

theorem applySourceBlocks_allocated : applySourceBlocks samplePoseidon
    (sampleBuilder.onto sampleBuilder.tip []) allocatedBlocks = .ok allocatedBuilder := rfl

theorem toWire_allocatedBuilder :
    (allocatedBuilder.snapshot samplePoseidon).toWire = some allocatedNext := by
  have hroot : (allocatedBuilder.snapshot samplePoseidon).root = Fin.ofNat BN254_FR 5 := rfl
  have htext : fieldToHex (Fin.ofNat BN254_FR 5) = bytesToHex 5#256 := rfl
  rw [PackedStatusSnapshot.toWire, hroot, htext]
  rfl

set_option maxRecDepth 4000 in
open Json in
theorem length_allocatedNext : allocatedNext.json.render.length ≤ 1000 := by
  simp only [SnapshotWire.json, SnapshotChunkWire.json, allocatedNext, sampleAt, render,
    renderFields, renderItems, quote, bytesToHex, chunkToHex, String.toList_ofList, Nat.toList_repr,
    List.map_cons, List.map_nil]
  decide

theorem advance_allocating {w : SnapshotWire} {output : String}
    (hw : (sampleBuilder.snapshot samplePoseidon).toWire = some w)
    (houtput : advancePackedStatusSnapshotFromJson samplePoseidon compactFromStr w.json.compact
      (transcriptOf sampleBuilder allocatingChain).json.compact = some (.ok output)) :
    output = allocatedNext.json.compact := by
  have hsound := reachable_sampleBuilder.sound (by decide) (by decide)
  obtain ⟨parsed, b', next, hparsed, happly, hnext, rfl⟩ :=
    advance_inv hsound registryNode_sample compactFromStr_readsBack hw houtput
  have hblocks := ((parseSourceJson_iff (compactFromStr_source _)).mp hparsed).blocks
  let headers := allocatingChain.map fun block => anchorOf block.source
  let bb := byBlock (entriesOf 0x22#256 allocatingChain)
  have hread : ∀ header ∈ headers, Readable header := by
    intro header hheader
    rcases List.mem_pair.mp hheader with rfl | rfl
    · exact readable_anchorOf (by decide) (by decide)
    · exact readable_anchorOf (by decide) (by decide)
  have hshape : ∀ header ∈ headers, ∀ e ∈ bb header.number,
      e = ⟨"credential-allocated", e.logIndex, bytesToHex 0x22#256, e.statusId, none⟩ := by
    intro header hheader e he
    rcases List.mem_pair.mp hheader with rfl | rfl
    · rcases List.mem_pair.mp he with rfl | rfl <;> rfl
    · rw [List.mem_singleton.mp he]
      rfl
  have hparse := @parseBlocks 0x22#256 bb 101 1#256 headers ⟨rfl, rfl, rfl, rfl, trivial⟩ hread
    hshape
  have hsame : (transcriptOf sampleBuilder allocatingChain).blocks =
      headers.map (blockWire bb) := rfl
  rw [hsame, hparse, Except.ok.injEq] at hblocks
  have hblock : headers.map (blockOf 0x22#256 bb) = allocatedBlocks := by
    show [FinalizedStatusBlock.mk ⟨101, wordOf (bytesToHex 2#256), wordOf (bytesToHex 1#256)⟩ _,
      FinalizedStatusBlock.mk ⟨102, wordOf (bytesToHex 3#256), wordOf (bytesToHex 2#256)⟩ _] = _
    rw [wordOf_bytesToHex, wordOf_bytesToHex, wordOf_bytesToHex]
    rfl
  rw [← hblocks, hblock, applySourceBlocks_allocated, Except.ok.injEq] at happly
  subst happly
  rw [toWire_allocatedBuilder, Option.some.injEq] at hnext
  rw [hnext]

theorem fitsBuffer_allocating {w : SnapshotWire}
    (hw : (sampleBuilder.snapshot samplePoseidon).toWire = some w) :
    FitsBuffer samplePoseidon compactFromStr w sampleBuilder allocatingChain := by
  intro output houtput
  have hlength := length_allocatedNext
  have hsize := Json.utf8ByteSize_compact_le allocatedNext.json
  rw [advance_allocating hw houtput, MAX_BUFFER]
  omega

theorem operator_catch_up_sample :
    ∃ checkpoint, (sampleBuilder.snapshot samplePoseidon).toWire = some checkpoint ∧
      (∃ advanced a health next d,
        runZkIdentityStatusOperatorCycle plainViem sampleEip compactJSON (cycleOn allocatingNode)
            (sampleDisk checkpoint) = (.value (.ok advanced a health), d) ∧
          d.files .checkpoint = some next.json.compact ∧ At next ⟨102, 3#256, 2#256⟩) ∧
      ∃ code health, (runCycles plainViem sampleEip compactJSON [sampleCycle 513]
        (sampleDisk checkpoint)).1 = [.value (.failed code health)] := by
  have hsound := reachable_sampleBuilder.sound (by decide) (by decide)
  obtain ⟨checkpoint, hw, -⟩ := exists_sampleWire
  obtain ⟨hnear, hfar⟩ := operator_catch_up libraries_sample valid_sample hsound hw (kept_sample _ hw)
    rfl
  have hlength : ZK_IDENTITY_FINALIZED_INGESTION_MAX_BLOCKS < (emptyChain 1 513).length := by
    rw [emptyChain, List.length_map, List.length_range', ZK_IDENTITY_FINALIZED_INGESTION_MAX_BLOCKS]
    decide
  have hsingle := @runCycles_singleton plainViem sampleEip compactJSON
    (sampleCycle 513) (sampleDisk checkpoint)
  refine ⟨checkpoint, hw, ?_, ?_⟩
  · obtain ⟨advanced, a, health, next, d, hrun, hkept, -, hat⟩ := hnear
      (cycleOn allocatingNode) allocatingChain (operates_sample _) honest_allocatingNode
      (fitsBuffer_allocating hw) (by decide)
    exact ⟨advanced, a, health, next, d, hrun, hkept.checkpointFile, hat⟩
  · obtain ⟨hexits, -⟩ := hfar [sampleCycle 513] (by
      intro input hinput
      rw [List.mem_singleton.mp hinput]
      exact ⟨operates_sample _, emptyChain 1 513, honest_emptyNode (by decide), hlength⟩)
    rw [hsingle] at hexits
    obtain ⟨code, health, hexit⟩ := hexits _ List.mem_cons_self
    exact ⟨code, health, hsingle.trans (congrArg (fun exit => [exit]) hexit)⟩

-- Behind 513 blocks no number of cycles brings the checkpoint to the tip.
theorem operator_catch_up_fails :
    ∃ checkpoint, (sampleBuilder.snapshot samplePoseidon).toWire = some checkpoint ∧
      Kept plainViem sampleEip samplePoseidon (sampleIdentity.checksummed plainViem) checkpoint none
        (sampleDisk checkpoint) ∧
      Operates plainViem sampleEip samplePoseidon compactFromStr sampleIdentity (sampleCycle 513) ∧
      Honest (sampleCycle 513).reader sampleBuilder (emptyChain 1 513) ∧
      ∀ n w, (runCycles plainViem sampleEip compactJSON (List.replicate n (sampleCycle 513))
          (sampleDisk checkpoint)).2.files .checkpoint = some w.json.compact →
        ¬At w (lastOf sampleBuilder.tip (emptyChain 1 513)) := by
  obtain ⟨checkpoint, hw, -⟩ := exists_sampleWire
  have hkept := kept_sample sampleEip hw
  have hnumber : checkpoint.sourceBlockNumber = (100).repr := (At.of_toWire hw).number
  refine ⟨checkpoint, hw, hkept, operates_sample _, honest_emptyNode (by decide), ?_⟩
  intro n w hfile hat
  have hfar : Far checkpoint (sampleCycle 513).reader := by
    refine ⟨_, rfl, ?_⟩
    rw [blockNumber, hnumber, bigInt_repr]
    decide
  have hinputs : ∀ input ∈ List.replicate n (sampleCycle 513),
      Operates plainViem sampleEip samplePoseidon compactFromStr sampleIdentity input ∧
        Far checkpoint input.reader := by
    intro input hinput
    rw [List.eq_of_mem_replicate hinput]
    exact ⟨operates_sample _, hfar⟩
  obtain ⟨-, hstays⟩ := runCycles_stays libraries_sample valid_sample hkept rfl hinputs
  rw [hstays.checkpointFile, Option.some.injEq, compact_snapshot_inj] at hfile
  have hlast : lastOf sampleBuilder.tip (emptyChain 1 513) = (emptyBlock 513).source := by
    have hlast := lastOf_emptyChain 0 513
    rwa [Nat.zero_add, Nat.zero_add] at hlast
  have htip := hat.number
  rw [← hfile, hnumber, hlast] at htip
  have hvalue := congrArg bigIntOfDecimal htip
  rw [bigInt_repr, bigInt_repr] at hvalue
  exact absurd hvalue (by decide)

end Ubi2.StatusOperator
