import Ubi2.StatusSnapshot.OneFormat

namespace Ubi2.StatusSnapshot

open Ubi2.Runtime Ubi2.Lib Ubi2.Lib.Except Sdk PackedStatusSnapshotBuilder

variable {viem : Viem}

-- A text that gives a word: all its digits, in any case.
def Spells (s : String) (x : Hash) : Prop := isHexText s = true ∧ toLowerCase s = bytesToHex x

theorem Spells.canonical {s : String} {x : Hash} (h : Spells s x) (label : String) :
    canonicalBytes32 viem (.str s) label false = .ok (bytesToHex x) := by
  have hlength : s.toList.length = 66 := by
    rw [← Padded, ← padded_toLowerCase, h.2]
    exact padded_bytesToHex x
  have hsize : byteCount s = 32 := by rw [byteCount, hlength]
  rw [canonicalBytes32, if_neg, if_neg, h.2]
  · rintro ⟨hno, -⟩
    cases hno
  · rw [viem.notBytes_iff]
    rintro (hno | hno)
    · exact hno h.1
    · exact hno hsize

theorem spells_bytesToHex (x : Hash) : Spells (bytesToHex x) x :=
  ⟨(hexText_bytesToHex x).isHexText, (hexText_bytesToHex x).toLowerCase⟩

structure Gives (value : ZkIdentityFinalizedBlockHeader) (ref : SourceBlockRef) : Prop where
  number : value.number = ref.number
  hash : Spells value.hash ref.hash
  parentHash : Spells value.parentHash ref.parentHash

theorem Gives.canonicalHeader {value : ZkIdentityFinalizedBlockHeader} {ref : SourceBlockRef}
    (h : Gives value ref) (hnonzero : ref.hash ≠ ZERO_HASH) (label : String) :
    Sdk.canonicalHeader viem value label = .ok (anchorOf ref) := by
  have hnumber := h.number
  have htoNat : value.number.toNat = ref.number := by omega
  simp only [Sdk.canonicalHeader, check_eq_ok, bind_eq_ok]
  refine ⟨by omega, _, h.hash.canonical _, bytesToHex_ne_zero.mpr hnonzero, _,
    h.parentHash.canonical _, ?_⟩
  rw [htoNat, anchorOf]

-- A block of the finalized chain, with the log index and the status id of each allocation in it.
structure ChainBlock where
  source : SourceBlockRef
  ids : List (Nat × Nat)
deriving DecidableEq, Repr

-- The blocks that follow a tip. The registry allocates its ids in order.
def Chained : SourceBlockRef → Nat → List ChainBlock → Prop
  | _, _, [] => True
  | tip, next, block :: rest =>
    block.source.number = tip.number + 1 ∧ block.source.number ≤ U64_MAX ∧
      block.source.parentHash = tip.hash ∧ block.source.hash ≠ ZERO_HASH ∧
      block.ids.Pairwise (fun a b => a.1 < b.1) ∧ Numbered next Prod.snd block.ids ∧
      (∀ id ∈ block.ids, id.1 ≤ U32_MAX ∧ id.2 ≤ U32_MAX) ∧
      Chained block.source (next + block.ids.length) rest

def lastOf (tip : SourceBlockRef) (blocks : List ChainBlock) : SourceBlockRef :=
  (blocks.getLast?.map ChainBlock.source).getD tip

def eventOf (issuerKeyId : Hash) (id : Nat × Nat) : EventWire :=
  ⟨"credential-allocated", id.1, bytesToHex issuerKeyId, id.2, none⟩

-- The allocations of some blocks as the collection files them.
def entriesOf (issuerKeyId : Hash) (blocks : List ChainBlock) : List (Nat × EventWire) :=
  blocks.flatMap fun block => block.ids.map fun id => (block.source.number, eventOf issuerKeyId id)

section

variable {tip : SourceBlockRef} {next : Nat} {blocks : List ChainBlock} {issuerKeyId : Hash}

theorem Chained.numbers (h : Chained tip next blocks) :
    blocks.map (fun block => block.source.number) = List.range' (tip.number + 1) blocks.length := by
  induction blocks generalizing tip next with
  | nil => rfl
  | cons block rest ih =>
    obtain ⟨hnumber, -, -, -, -, -, -, hrest⟩ := h
    rw [List.map_cons, ih hrest, List.length_cons, List.range'_succ, hnumber]

theorem lastOf_cons (block : ChainBlock) :
    lastOf tip (block :: blocks) = lastOf block.source blocks := by
  rw [lastOf, lastOf, List.getLast?_cons]
  cases blocks.getLast? <;> rfl

theorem Chained.last_number (h : Chained tip next blocks) :
    (lastOf tip blocks).number = tip.number + blocks.length := by
  induction blocks generalizing tip next with
  | nil => rfl
  | cons block rest ih =>
    obtain ⟨hnumber, -, -, -, -, -, -, hrest⟩ := h
    rw [lastOf_cons, ih hrest, hnumber, List.length_cons]
    omega

theorem Chained.branch (h : Chained tip next blocks) :
    Branch (tip.number + 1) (bytesToHex tip.hash)
      (blocks.map fun block => anchorOf block.source) := by
  induction blocks generalizing tip next with
  | nil => trivial
  | cons block rest ih =>
    obtain ⟨hnumber, -, hparent, -, -, -, -, hrest⟩ := h
    refine ⟨hnumber, congrArg bytesToHex hparent, ?_⟩
    rw [← hnumber]
    exact ih hrest

theorem Chained.block (h : Chained tip next blocks) :
    ∀ block ∈ blocks, block.source.number ≤ U64_MAX ∧ block.source.hash ≠ ZERO_HASH ∧
      block.ids.Pairwise (fun a b => a.1 < b.1) ∧
      ∀ id ∈ block.ids, id.1 ≤ U32_MAX ∧ id.2 ≤ U32_MAX := by
  induction blocks generalizing tip next with
  | nil => exact nofun
  | cons block rest ih =>
    obtain ⟨-, hfits, -, hnonzero, hsorted, -, hbound, hrest⟩ := h
    intro other hother
    rcases List.mem_cons.mp hother with rfl | hother
    · exact ⟨hfits, hnonzero, hsorted, hbound⟩
    · exact ih hrest other hother

theorem Chained.dense (h : Chained tip next blocks) :
    Numbered next (fun entry => entry.2.statusId) (entriesOf issuerKeyId blocks) := by
  induction blocks generalizing tip next with
  | nil => exact Numbered.nil
  | cons block rest ih =>
    obtain ⟨-, -, -, -, -, hdense, -, hrest⟩ := h
    rw [entriesOf, List.flatMap_cons, Numbered.append_iff, List.length_map]
    refine ⟨?_, ih hrest⟩
    rw [Numbered, List.map_map, List.length_map]
    exact hdense

theorem mem_entriesOf {entry : Nat × EventWire} : entry ∈ entriesOf issuerKeyId blocks ↔
    ∃ block ∈ blocks, ∃ id ∈ block.ids, entry = (block.source.number, eventOf issuerKeyId id) := by
  simp only [entriesOf, List.mem_flatMap, List.mem_map, eq_comm]

theorem Chained.inOrder (h : Chained tip next blocks) :
    InOrder (tip.number + 1) (tip.number + blocks.length) next (entriesOf issuerKeyId blocks) := by
  have hblock := h.block
  have hnumbers := h.numbers
  refine ⟨?_, ?_, h.dense, ?_⟩
  · intro entry hentry
    obtain ⟨block, hmem, id, -, rfl⟩ := mem_entriesOf.mp hentry
    have hnumber := List.mem_map_of_mem (f := fun block => block.source.number) hmem
    rw [hnumbers, List.mem_range'_1] at hnumber
    show _ ≤ block.source.number ∧ block.source.number ≤ _
    omega
  · refine List.pairwise_flatMap.mpr ⟨fun block hmem => ?_, ?_⟩
    · exact List.pairwise_map.mpr ((hblock block hmem).2.2.1.imp fun hlt => .inr ⟨rfl, hlt⟩)
    · have hsorted : (blocks.map fun block => block.source.number).Pairwise (· < ·) := by
        rw [hnumbers]
        exact List.pairwise_lt_range'
      refine (List.pairwise_map.mp hsorted).imp fun hlt x hx y hy => ?_
      obtain ⟨_, -, rfl⟩ := List.mem_map.mp hx
      obtain ⟨_, -, rfl⟩ := List.mem_map.mp hy
      exact .inl hlt
  · intro entry hentry
    obtain ⟨block, hmem, id, hid, rfl⟩ := mem_entriesOf.mp hentry
    exact ((hblock block hmem).2.2.2 id hid).2

end

-- Entries in order are accepted one after the other.
theorem InOrder.nextLogs {first last next : Nat} {s : LogState} {entries : List (Nat × EventWire)}
    (hnext : s.nextStatusId = next) (hpos : 0 < next) (h : InOrder first last next entries)
    (hsafe : ∀ entry ∈ entries, (entry.2.logIndex : Int) ≤ MAX_SAFE_INTEGER)
    (hbehind : ∀ entry ∈ entries, s.previousBlock < entry.1 ∨
      (s.previousBlock = entry.1 ∧ s.previousLogIndex < entry.2.logIndex)) :
    NextLogs first last s entries := by
  induction entries generalizing s next with
  | nil => trivial
  | cons entry rest ih =>
    obtain ⟨hlower, hupper⟩ := h.range entry List.mem_cons_self
    obtain ⟨horder, hrestOrder⟩ := List.pairwise_cons.mp h.order
    obtain ⟨hstatusId, hdense⟩ := Numbered.cons_iff.mp h.dense
    have hid : entry.2.statusId = next := hstatusId
    refine ⟨⟨hlower, hupper, hsafe entry List.mem_cons_self, hbehind entry List.mem_cons_self, ?_, ?_,
      h.bound entry List.mem_cons_self⟩, ?_⟩
    · rw [hid, hnext]
    · omega
    · refine @ih (next + 1) _ ?_ (by omega) ⟨?_, hrestOrder, hdense, ?_⟩ ?_ ?_
      · show s.nextStatusId + 1 = _
        omega
      · exact fun e he => h.range e (List.mem_cons_of_mem _ he)
      · exact fun e he => h.bound e (List.mem_cons_of_mem _ he)
      · exact fun e he => hsafe e (List.mem_cons_of_mem _ he)
      · intro e he
        show (entry.1 : Int) < e.1 ∨ ((entry.1 : Int) = e.1 ∧ (entry.2.logIndex : Int) < e.2.logIndex)
        have hafter := horder e he
        omega

-- A log as the node gives it.
structure Reports (issuerKeyId : Hash) (log : ZkIdentityCredentialAllocatedLog)
    (entry : SourceBlockRef × (Nat × Nat)) : Prop where
  blockNumber : log.blockNumber = entry.1.number
  blockHash : Spells log.blockHash entry.1.hash
  logIndex : log.logIndex = .integer entry.2.1
  issuerKeyId : Spells log.issuerKeyId issuerKeyId
  statusId : log.statusId = .integer entry.2.2

-- A node that answers for the finalized chain that some blocks extend a tip to.
structure Serves (reader : ZkIdentityFinalizedRpcReader) (chainId : Nat) (registry : Address)
    (issuerKeyId : Hash) (tip : SourceBlockRef) (blocks : List ChainBlock) : Prop where
  chainId : reader.getChainId = .ok (.integer chainId)
  finalized : ∃ value, reader.getFinalizedBlock = .ok value ∧ Gives value (lastOf tip blocks)
  block : ∀ block ∈ blocks, ∃ value, reader.getBlock block.source.number = .ok value ∧
    Gives value block.source
  logs : blocks ≠ [] → ∃ logs, reader.getCredentialAllocatedLogs (bytesToHex registry)
      (bytesToHex issuerKeyId) (tip.number + 1) (lastOf tip blocks).number = .ok logs ∧
    List.Forall₂ (Reports issuerKeyId) logs
      (blocks.flatMap fun block => block.ids.map fun id => (block.source, id))

section

variable {reader : ZkIdentityFinalizedRpcReader} {chainId : Nat} {registry : Address}
  {issuerKeyId : Hash} {tip : SourceBlockRef} {next : Nat} {blocks : List ChainBlock}

theorem Serves.branched (h : Serves reader chainId registry issuerKeyId tip blocks)
    (hchained : Chained tip next blocks) (hpos : 0 < next) (hne : blocks ≠ []) :
    ∃ logs, Branched viem reader (bytesToHex registry) (bytesToHex issuerKeyId) next (anchorOf tip)
      (anchorOf (lastOf tip blocks)) (blocks.map fun block => anchorOf block.source) logs
      (entriesOf issuerKeyId blocks) := by
  have hlast := hchained.last_number
  have hnumbers := hchained.numbers
  obtain ⟨logs, hlogs, hreports⟩ := h.logs hne
  have hlength : (blocks.map fun block => anchorOf block.source).length = blocks.length :=
    List.length_map _
  refine ⟨logs, ?_⟩
  refine
    { length := ?_
      fetched := ?_
      branch := hchained.branch
      last := ?_
      answer := hlogs
      logs := ?_
      entries := ?_ }
  · rw [hlength]
    show _ = (lastOf tip blocks).number - tip.number
    omega
  · rw [hlength, show (anchorOf tip).number = tip.number from rfl, ← hnumbers,
      List.forall₂_map_left_iff, List.forall₂_map_right_iff, List.forall₂_same]
    intro block hblock
    obtain ⟨value, hvalue, hgives⟩ := h.block block hblock
    simp only [fetchHeader, bind_eq_ok]
    exact ⟨value, hvalue, hgives.canonicalHeader (hchained.block block hblock).2.1 _⟩
  · refine ⟨anchorOf (lastOf tip blocks), ?_, rfl, rfl⟩
    obtain ⟨init, last, rfl⟩ := (List.eq_nil_or_concat blocks).resolve_left hne
    simp [lastOf]
  · have hentries : entriesOf issuerKeyId blocks =
        (blocks.flatMap fun block => block.ids.map fun id => (block.source, id)).map fun entry =>
          (entry.1.number, eventOf issuerKeyId entry.2) := by
      rw [List.map_flatMap]
      simp only [List.map_map]
      rfl
    rw [hentries, List.forall₂_map_right_iff]
    rw [List.forall₂_iff_zip] at hreports ⊢
    refine ⟨hreports.1, fun {log entry} hmem => ?_⟩
    have hreport := hreports.2 hmem
    obtain ⟨block, hblock, hentry⟩ := List.mem_flatMap.mp (List.of_mem_zip hmem).2
    obtain ⟨id, -, rfl⟩ := List.mem_map.mp hentry
    refine ⟨hreport.blockNumber, ⟨anchorOf block.source, ?_, hreport.blockHash.canonical _⟩,
      hreport.logIndex, hreport.issuerKeyId.canonical _, hreport.statusId, rfl⟩
    obtain ⟨k, hk, rfl⟩ := List.mem_iff_getElem.mp hblock
    have hnumber : blocks[k].source.number = tip.number + 1 + k := by
      have hget := congrArg (·[k]?) hnumbers
      simpa [hk] using hget
    have hindex : blocks[k].source.number - ((anchorOf tip).number + 1) = k := by
      show blocks[k].source.number - (tip.number + 1) = k
      omega
    rw [hindex, List.getElem?_map, List.getElem?_eq_getElem hk]
    rfl
  · have hinOrder := @Chained.inOrder _ _ _ issuerKeyId hchained
    rw [← hlast] at hinOrder
    refine hinOrder.nextLogs rfl hpos ?_ ?_
    · intro entry hentry
      obtain ⟨block, hblock, id, hid, rfl⟩ := mem_entriesOf.mp hentry
      have hbound := ((hchained.block block hblock).2.2.2 id hid).1
      show (id.1 : Int) ≤ _
      rw [U32_MAX] at hbound
      rw [MAX_SAFE_INTEGER]
      omega
    · intro entry _
      exact .inl (by show (-1 : Int) < entry.1; omega)

end

-- The transcript of a chain behind a builder's tip.
def transcriptOf (b : PackedStatusSnapshotBuilder) (blocks : List ChainBlock) : SourceWire where
  schema := PACKED_STATUS_SOURCE_SCHEMA
  chainId := b.chainId.repr
  issuanceRegistry := bytesToHex b.issuanceRegistry
  issuerKeyId := bytesToHex b.issuerKeyId
  anchor := (anchorOf b.tip).wire
  blocks := blocks.map fun block =>
    blockWire (byBlock (entriesOf b.issuerKeyId blocks)) (anchorOf block.source)

section

variable {poseidon : Poseidon} {b : PackedStatusSnapshotBuilder}
  {input : CollectZkIdentityFinalizedStatusInput} {blocks : List ChainBlock}

theorem collectBlocks_served
    (hserves : Serves input.reader b.chainId b.issuanceRegistry b.issuerKeyId b.tip blocks)
    (hchained : Chained b.tip b.nextStatusId blocks) (hpos : 0 < b.nextStatusId)
    (hbound : blocks.length ≤ ZK_IDENTITY_FINALIZED_INGESTION_MAX_BLOCKS) :
    collectBlocks viem input.reader (bytesToHex b.issuanceRegistry) (bytesToHex b.issuerKeyId)
      b.nextStatusId (anchorOf b.tip) (anchorOf (lastOf b.tip blocks)) =
        .ok (transcriptOf b blocks).blocks := by
  have hlast := hchained.last_number
  refine collectBlocks_ok.mpr ?_
  rcases eq_or_ne blocks [] with rfl | hne
  · exact .inl ⟨rfl, rfl, rfl⟩
  · have hlength := List.length_pos_of_ne_nil hne
    obtain ⟨logs, hbranched⟩ := hserves.branched hchained hpos hne
    refine .inr ⟨?_, ?_, _, logs, _, hbranched, ?_⟩
    · show b.tip.number < (lastOf b.tip blocks).number
      omega
    · show (lastOf b.tip blocks).number - b.tip.number ≤ _
      omega
    · rw [List.map_map]
      rfl

-- The collection from an honest node succeeds, as far as the bound on its blocks.
theorem collect_served (hsound : Sound poseidon b) (hmatches : Matches input (b.snapshot poseidon))
    (hregistry : viem.isAddress input.issuanceRegistry = true)
    (hissuer : isHexText input.issuerKeyId = true) (hchain : (b.chainId : Int) ≤ MAX_SAFE_INTEGER)
    (hserves : Serves input.reader b.chainId b.issuanceRegistry b.issuerKeyId b.tip blocks)
    (hchained : Chained b.tip b.nextStatusId blocks)
    (hbound : blocks.length ≤ ZK_IDENTITY_FINALIZED_INGESTION_MAX_BLOCKS) :
    collectZkIdentityFinalizedStatusTranscript viem input = .ok (transcriptOf b blocks) := by
  obtain ⟨l, past, hlinked⟩ := hsound.tracks
  have hpos : b.nextStatusId ≠ 0 := hlinked.tracks.pos
  have hnext : b.nextStatusId ≤ MAX_NEXT_STATUS_ID := hlinked.tracks.bound
  have hchainPos := Nat.pos_of_ne_zero hsound.chainId
  obtain ⟨value, hvalue, hgives⟩ := hserves.finalized
  have hlastHash : (lastOf b.tip blocks).hash ≠ ZERO_HASH := by
    rw [lastOf]
    cases hlast : blocks.getLast? with
    | none => exact hsound.tip
    | some block => exact (hchained.block block (List.mem_of_getLast? hlast)).2.1
  have hanchor : Gives input.anchor b.tip := by
    rw [hmatches.anchor]
    exact ⟨rfl, spells_bytesToHex _, spells_bytesToHex _⟩
  have hchainOk : positiveChainId input.chainId = .ok b.chainId := by
    rw [hmatches.chainId]
    exact positiveSafeInteger_ok.mpr ⟨rfl, hchainPos, hchain⟩
  have hregistryOk : ∀ label, canonicalAddress viem (.str input.issuanceRegistry) label =
      .ok (bytesToHex b.issuanceRegistry) := by
    intro label
    have htext := hregistry
    rw [Viem.isAddress, decide_eq_true_iff] at htext
    have hhex := htext.1
    rw [isAddressText, decide_eq_true_iff] at hhex
    have hlower : toLowerCase input.issuanceRegistry = bytesToHex b.issuanceRegistry :=
      hmatches.issuanceRegistry
    rw [canonicalAddress, if_neg, viem.lower _ htext.1, hlower]
    rintro (hno | hzero)
    · exact hno hregistry
    · rw [← bigIntOfHex_toLowerCase hhex.1, hlower, bigInt_bytesToHex (by decide)] at hzero
      exact hsound.issuanceRegistry (BitVec.eq_of_toNat_eq hzero)
  have hissuerOk : Spells input.issuerKeyId b.issuerKeyId := ⟨hissuer, hmatches.issuerKeyId⟩
  have hexpected : input.expectedNextStatusId = (b.nextStatusId : Int) := hmatches.next
  simp only [collectZkIdentityFinalizedStatusTranscript, bind_eq_ok, check_eq_ok]
  refine ⟨_, hchainOk, _, hregistryOk _, _, hissuerOk.canonical _,
    bytesToHex_ne_zero.mpr hsound.issuerKeyId, ?_, _, hanchor.canonicalHeader hsound.tip _, _,
    hserves.chainId, ?_, _, hvalue, _, hgives.canonicalHeader hlastHash _, _, ?_, rfl⟩
  · rw [MAX_NEXT_STATUS_ID] at hnext
    rw [hexpected, ZK_IDENTITY_MAX_NEXT_STATUS_ID]
    omega
  · simp [sameChainId]
  · rw [hexpected]
    exact collectBlocks_served hserves hchained (Nat.pos_of_ne_zero hpos) hbound

-- Past the bound no collection succeeds, whatever else a node answers.
theorem collect_far {t : SourceWire} (hmatches : Matches input (b.snapshot poseidon))
    {value : ZkIdentityFinalizedBlockHeader} (hvalue : input.reader.getFinalizedBlock = .ok value)
    (hfar : (b.tip.number + ZK_IDENTITY_FINALIZED_INGESTION_MAX_BLOCKS : Nat) < value.number) :
    collectZkIdentityFinalizedStatusTranscript viem input ≠ .ok t := by
  intro hcollect
  obtain ⟨answer, finalized, hcollected⟩ := hmatches.collected hcollect
  have hanswer := hcollected.answered
  rw [hvalue, Except.ok.injEq] at hanswer
  subst hanswer
  have hnumber := hcollected.target.number
  have hanchor : (anchorOf (b.snapshot poseidon).source).number = b.tip.number := rfl
  rcases collectBlocks_ok.mp hcollected.blocks with ⟨heq, -⟩ | ⟨-, hle, -⟩
  · omega
  · omega

theorem distinct_transcriptOf
    (h : (b.tip.hash :: blocks.map fun block => block.source.hash).Nodup) :
    Distinct (transcriptOf b blocks) := by
  have hmap : (transcriptOf b blocks).anchor.hash ::
      (transcriptOf b blocks).blocks.map BlockWire.hash =
        (b.tip.hash :: blocks.map fun block => block.source.hash).map bytesToHex := by
    rw [transcriptOf, List.map_cons, List.map_map, List.map_map]
    rfl
  rw [Distinct, hmap]
  exact h.map (bytesToHex_injective (by decide))

theorem fitsBuilder_transcriptOf (viem : Viem)
    (hserves : Serves input.reader b.chainId b.issuanceRegistry b.issuerKeyId b.tip blocks)
    (hchained : Chained b.tip b.nextStatusId blocks) (hpos : 0 < b.nextStatusId) :
    FitsBuilder (transcriptOf b blocks) := by
  intro wire hwire
  obtain ⟨block, hblock, rfl⟩ := List.mem_map.mp hwire
  have hne := List.ne_nil_of_mem hblock
  obtain ⟨logs, hbranched⟩ : ∃ logs, Branched viem input.reader _ _ _ _ _ _ logs _ :=
    hserves.branched hchained hpos hne
  have hlast := hchained.last_number
  have hlength := List.length_pos_of_ne_nil hne
  have hfiled := hbranched.filed (by
    show b.tip.number < (lastOf b.tip blocks).number
    omega)
  refine ⟨⟨_, (hchained.block block hblock).1, rfl⟩, ?_⟩
  intro e he
  have hentry : (block.source.number, e) ∈ entriesOf b.issuerKeyId blocks := by
    rw [← hfiled.all, List.flatMap_map]
    exact List.mem_flatMap.mpr ⟨block, hblock, List.mem_map_of_mem he⟩
  obtain ⟨other, hother, id, hid, heq⟩ := mem_entriesOf.mp hentry
  rw [Prod.mk.injEq] at heq
  rw [heq.2]
  exact ((hchained.block other hother).2.2.2 id hid).1

-- What the collection gives, the builder takes to the end of the chain.
theorem advances_served {fromStr : FromStr} {checkpoint : String} (hsound : Sound poseidon b)
    (hnonzero : ∀ left right, registryNode poseidon left right ≠ 0) (hread : fromStr.ReadsBack)
    (hsource : fromStr.ReadsSource) (hcheckpoint : (b.snapshot poseidon).toJson = some checkpoint)
    (hmatches : Matches input (b.snapshot poseidon))
    (hcollect : collectZkIdentityFinalizedStatusTranscript viem input =
      .ok (transcriptOf b blocks))
    (hserves : Serves input.reader b.chainId b.issuanceRegistry b.issuerKeyId b.tip blocks)
    (hchained : Chained b.tip b.nextStatusId blocks)
    (hdistinct : (b.tip.hash :: blocks.map fun block => block.source.hash).Nodup) :
    Advances poseidon fromStr checkpoint (b.snapshot poseidon) (transcriptOf b blocks) := by
  obtain ⟨l, past, hlinked⟩ := hsound.tracks
  have hpos : b.nextStatusId ≠ 0 := hlinked.tracks.pos
  obtain ⟨answer, finalized, hcollected⟩ := hmatches.collected hcollect
  obtain ⟨headers, bb, hmade⟩ := hcollected.made
  refine hmade.advances hsound hnonzero hread hsource hcheckpoint hcollected
    (distinct_transcriptOf hdistinct)
    (fitsBuilder_transcriptOf viem hserves hchained (Nat.pos_of_ne_zero hpos)) ?_
  intro header hheader
  have hblock : blockWire bb header ∈ (transcriptOf b blocks).blocks :=
    hmade.blocks ▸ List.mem_map_of_mem hheader
  obtain ⟨block, -, heq⟩ := List.mem_map.mp hblock
  rw [blockWire, blockWire, BlockWire.mk.injEq, anchorOf] at heq
  rw [← heq.2.1]
  exact padded_bytesToHex _

end

end Ubi2.StatusSnapshot
