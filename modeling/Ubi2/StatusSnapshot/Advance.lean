import Ubi2.StatusSnapshot.Transcript

namespace Ubi2.StatusSnapshot

open Ubi2.Runtime Ubi2.Lib Ubi2.Lib.Except Sdk PackedStatusSnapshotBuilder

variable {viem : Viem} {poseidon : Poseidon} {b : PackedStatusSnapshotBuilder}

-- What a builder has been configured with, and a tip that is a block.
structure Trusted (b : PackedStatusSnapshotBuilder) : Prop where
  chainId : b.chainId ≠ 0
  issuanceRegistry : b.issuanceRegistry ≠ ZERO_ADDRESS
  issuerKeyId : b.issuerKeyId ≠ ZERO_HASH
  tip : b.tip.hash ≠ ZERO_HASH

theorem Trusted.of_new {chainId : Nat} {registry : Address} {issuer : Hash}
    {anchor : SourceBlockRef} (h : new chainId registry issuer anchor = .ok b) : Trusted b := by
  rw [new] at h
  split at h
  · cases h
  · rename_i hfields
    cases h
    simp only [not_or] at hfields
    exact ⟨hfields.1, hfields.2.1, hfields.2.2.1, hfields.2.2.2⟩

theorem Trusted.append {b' : PackedStatusSnapshotBuilder} {m : Moment} {past : List Moment}
    (hlinked : Linked poseidon m past) (h : Trusted m.builder) {block : FinalizedStatusBlock}
    (happly : m.builder.applyFinalizedBlock poseidon block = (.ok (), b')) : Trusted b' := by
  rcases applyFinalizedBlock_cases happly with ⟨_, herr, _⟩ | ⟨_, undo, b₁, happ⟩
  · cases herr
  · obtain ⟨next, t, s, hfields⟩ := hlinked.tracks.canonical.fields happ
    rw [happ.result, hfields]
    exact ⟨h.chainId, h.issuanceRegistry, h.issuerKeyId, happ.nonzero⟩

theorem Reachable.trusted {s : Session} (h : Reachable poseidon s) :
    ∀ m ∈ s.retained, Trusted m.builder := by
  induction h with
  | new h =>
    intro m hm
    rw [Session.retained, List.mem_singleton] at hm
    subst hm
    exact Trusted.of_new h
  | restore h =>
    intro m hm
    rw [Session.retained, List.mem_singleton] at hm
    subst hm
    have hr := Restored.of_restore h
    have hok := hr.ok
    refine ⟨?_, ?_, ?_, ?_⟩
    · exact hr.chainId ▸ hok.chainId
    · exact hr.issuanceRegistry ▸ hok.issuanceRegistry
    · exact hr.issuerKeyId ▸ hok.issuerKeyId
    · exact hr.tip ▸ hok.source
  | @step s s' op hs hstep ih =>
    have hlinked := hs.linked
    cases op with
    | apply block =>
      rw [Session.step] at hstep
      cases happly : s.now.builder.applyFinalizedBlock poseidon block with
      | mk result b =>
        rw [happly] at hstep
        cases result with
        | error error =>
          cases hstep
          rw [hlinked.tracks.canonical.applyFinalizedBlock_error happly]
          exact ih
        | ok u =>
          cases hstep
          intro m hm
          rcases List.mem_cons.mp hm with rfl | hm
          · exact Trusted.append hlinked (ih s.now List.mem_cons_self) happly
          · exact ih m hm
    | rewind hash =>
      rw [Session.step] at hstep
      cases hdrop : s.retained.dropWhile fun p => p.builder.tip.hash ≠ hash with
      | nil =>
        have hunknown : ∀ p ∈ s.now :: s.past, p.builder.tip.hash ≠ hash := by
          simpa [Session.retained] using List.dropWhile_eq_nil_iff.mp hdrop
        rw [hlinked.rewindTo_unknown hunknown] at hstep
        cases hstep
        exact ih
      | cons p rest =>
        rw [hlinked.rewindTo_known hdrop] at hstep
        simp only [hdrop] at hstep
        cases hstep
        intro m hm
        have hsuffix : p :: rest <:+ s.retained := hdrop ▸ List.dropWhile_suffix _
        exact ih m (hsuffix.subset hm)

-- A reachable builder whose numbers fit their types is sound.
theorem Reachable.sound {s : Session} (h : Reachable poseidon s)
    (hchain : s.now.builder.chainId ≤ U64_MAX) (htip : s.now.builder.tip.number ≤ U64_MAX) :
    Sound poseidon s.now.builder := by
  have htrusted := h.trusted s.now List.mem_cons_self
  exact ⟨⟨_, _, h.linked⟩, htrusted.chainId, hchain, htrusted.issuanceRegistry,
    htrusted.issuerKeyId, htrusted.tip, htip⟩

-- The headers and the events that the blocks of a transcript are made of.
structure Made (viem : Viem) (reader : ZkIdentityFinalizedRpcReader)
    (snapshot : PackedStatusSnapshot) (finalized : CanonicalHeader) (t : SourceWire)
    (headers : List CanonicalHeader) (bb : Nat → List EventWire) : Prop where
  blocks : t.blocks = headers.map (blockWire bb)
  length : snapshot.source.number + headers.length = finalized.number
  fetched : List.Forall₂ (fun n header => fetchHeader viem reader n = .ok header)
    (List.range' (snapshot.source.number + 1) headers.length) headers
  branch : Branch (snapshot.source.number + 1) (bytesToHex snapshot.source.hash) headers
  shape : ∀ header ∈ headers, ∀ e ∈ bb header.number,
    e = ⟨"credential-allocated", e.logIndex, t.issuerKeyId, e.statusId, none⟩
  order : ∀ header ∈ headers, (bb header.number).Pairwise fun a b => a.logIndex < b.logIndex
  dense : Numbered snapshot.nextStatusId EventWire.statusId
    (headers.flatMap fun header => bb header.number)
  bound : ∀ header ∈ headers, ∀ e ∈ bb header.number, e.statusId ≤ U32_MAX

theorem Collected.made {reader : ZkIdentityFinalizedRpcReader}
    {snapshot : PackedStatusSnapshot} {answer : ZkIdentityFinalizedBlockHeader}
    {finalized : CanonicalHeader} {t : SourceWire}
    (h : Collected viem reader snapshot answer finalized t) :
    ∃ headers bb, Made viem reader snapshot finalized t headers bb := by
  rcases collectBlocks_ok.mp h.blocks with ⟨hnumber, -, hnil⟩ |
    ⟨hlt, -, headers, logs, entries, hbranched, hblocks⟩
  · exact ⟨[], fun _ => [], hnil, hnumber.symm, .nil, trivial, nofun, nofun, Numbered.nil, nofun⟩
  · have hfiled := hbranched.filed hlt
    have hbehind : snapshot.source.number < finalized.number := hlt
    have hlength : headers.length = finalized.number - snapshot.source.number := hbranched.length
    generalize byBlock entries = bb at hblocks hfiled
    have hmem : ∀ header ∈ headers, ∀ e ∈ bb header.number, (header.number, e) ∈ entries := by
      intro header hheader e he
      rw [← hfiled.all]
      exact List.mem_flatMap.mpr ⟨header, hheader, List.mem_map_of_mem he⟩
    exact ⟨headers, bb, hblocks, by omega, hbranched.fetched, hbranched.branch,
      fun header hheader e he => hfiled.shape _ (hmem header hheader e he), hfiled.order,
      hfiled.dense, fun header hheader e he => hfiled.bound _ (hmem header hheader e he)⟩

theorem parseBlockRef_iff {wire : BlockRefWire} {ref : SourceBlockRef} :
    parseBlockRef wire = .ok ref ↔ ref.number ≤ U64_MAX ∧ wire = (anchorOf ref).wire := by
  obtain ⟨number, hash, parentHash⟩ := wire
  simp only [parseBlockRef, bind_eq_ok, pure_eq_ok, parseCanonicalU64_iff,
    bytesFromHex_iff (w := 256) (by decide), CanonicalHeader.wire, anchorOf]
  constructor
  · rintro ⟨n, ⟨hn, rfl⟩, x, rfl, y, rfl, rfl⟩
    exact ⟨hn, rfl⟩
  · rintro ⟨hn, hwire⟩
    cases hwire
    exact ⟨_, ⟨hn, rfl⟩, _, rfl, _, rfl, rfl⟩

-- The numbers of the records in a transcript are those of their types.
structure SourceWire.Fits (w : SourceWire) : Prop where
  events : ∀ block ∈ w.blocks, ∀ e ∈ block.events, e.logIndex ≤ U32_MAX ∧ e.statusId ≤ U32_MAX

-- A transcript that was written is read back.
def FromStr.ReadsSource (fromStr : FromStr) : Prop :=
  ∀ w : SourceWire, w.Fits → fromStr.source w.json.compact = some w

def Distinct (t : SourceWire) : Prop := (t.anchor.hash :: t.blocks.map BlockWire.hash).Nodup

-- Block numbers and log indices are those of the builder's types.
def FitsBuilder (t : SourceWire) : Prop :=
  ∀ block ∈ t.blocks, (∃ n ≤ U64_MAX, block.number = n.repr) ∧
    ∀ e ∈ block.events, e.logIndex ≤ U32_MAX

-- The builder advances a checkpoint by a transcript to its last block.
def Advances (poseidon : Poseidon) (fromStr : FromStr) (checkpoint : String)
    (snapshot : PackedStatusSnapshot) (t : SourceWire) : Prop :=
  ∃ next out, advancePackedStatusSnapshotFromJson poseidon fromStr checkpoint t.json.compact =
      some (.ok out) ∧ PackedStatusSnapshot.toJson next = some out ∧
    lastRef t.anchor t.blocks = (anchorOf next.source).wire ∧
    next.nextStatusId = snapshot.nextStatusId + (t.blocks.flatMap BlockWire.events).length

theorem Made.header {reader : ZkIdentityFinalizedRpcReader} {snapshot : PackedStatusSnapshot}
    {finalized : CanonicalHeader} {t : SourceWire} {headers : List CanonicalHeader}
    {bb : Nat → List EventWire} (h : Made viem reader snapshot finalized t headers bb)
    {header : CanonicalHeader} (hheader : header ∈ headers) :
    ∃ n value, snapshot.source.number < n ∧ n ≤ finalized.number ∧
      reader.getBlock n = .ok value ∧ HeaderOk value header := by
  obtain ⟨n, hn, hfetch⟩ := exists_of_forall₂_right h.fetched hheader
  simp only [fetchHeader, bind_eq_ok] at hfetch
  obtain ⟨value, hvalue, hok⟩ := hfetch
  rw [List.mem_range'_1] at hn
  have hlength := h.length
  exact ⟨n, value, by omega, by omega, hvalue, canonicalHeader_ok hok⟩

theorem Made.readable {reader : ZkIdentityFinalizedRpcReader} {snapshot : PackedStatusSnapshot}
    {finalized : CanonicalHeader} {t : SourceWire} {headers : List CanonicalHeader}
    {bb : Nat → List EventWire} (h : Made viem reader snapshot finalized t headers bb)
    (hfits : FitsBuilder t) (hpadded : ∀ header ∈ headers, Padded header.hash) :
    ∀ header ∈ headers, Readable header := by
  intro header hheader
  obtain ⟨_, value, -, -, -, hok⟩ := h.header hheader
  have hblock : blockWire bb header ∈ t.blocks := h.blocks ▸ List.mem_map_of_mem hheader
  obtain ⟨⟨n, hn, hnumber⟩, -⟩ := hfits _ hblock
  have heq : header.number = n := by
    have hvalue := congrArg bigIntOfDecimal hnumber
    rwa [bigInt_repr, show (blockWire bb header).number = header.number.repr from rfl,
      bigInt_repr] at hvalue
  exact hok.readable (heq ▸ hn) (hpadded header hheader)

theorem Sound.restored (h : Sound poseidon b)
    (hnonzero : ∀ left right, registryNode poseidon left right ≠ 0) :
    Sound poseidon (b.onto b.tip []) :=
  ⟨⟨_, _, Tracks.of_restore (h.restore_snapshot hnonzero)⟩, h.chainId, h.chainBound,
    h.issuanceRegistry, h.issuerKeyId, h.tip, h.tipBound⟩

theorem Made.advances {reader : ZkIdentityFinalizedRpcReader} {fromStr : FromStr}
    {answer : ZkIdentityFinalizedBlockHeader} {finalized : CanonicalHeader} {t : SourceWire}
    {headers : List CanonicalHeader} {bb : Nat → List EventWire} {checkpoint : String}
    (hsound : Sound poseidon b) (hnonzero : ∀ left right, registryNode poseidon left right ≠ 0)
    (hread : fromStr.ReadsBack) (hsource : fromStr.ReadsSource)
    (hcheckpoint : (b.snapshot poseidon).toJson = some checkpoint)
    (hcollected : Collected viem reader (b.snapshot poseidon) answer finalized t)
    (hmade : Made viem reader (b.snapshot poseidon) finalized t headers bb)
    (hdistinct : Distinct t) (hfits : FitsBuilder t)
    (hpadded : ∀ header ∈ headers, Padded header.hash) :
    Advances poseidon fromStr checkpoint (b.snapshot poseidon) t := by
  have hreadable := hmade.readable hfits hpadded
  have htip : (b.snapshot poseidon).source = b.tip := rfl
  have hissuer : t.issuerKeyId = bytesToHex b.issuerKeyId := hcollected.issuerKeyId
  have hshape := hmade.shape
  rw [hissuer] at hshape
  let blocks := headers.map (blockOf b.issuerKeyId bb)
  have hparsed : t.blocks.mapM parseBlock = .ok blocks := by
    rw [hmade.blocks]
    exact parseBlocks hmade.branch hreadable hshape
  have hanchor : parseBlockRef t.anchor = .ok b.tip :=
    parseBlockRef_iff.mpr ⟨hsound.tipBound, hcollected.anchor⟩
  have hsourceOk : SourceOk t ⟨b.chainId, b.issuanceRegistry, b.issuerKeyId, b.tip, blocks⟩ :=
    { schema := hcollected.schema
      chainId := parseCanonicalU64_iff.mpr ⟨hsound.chainBound, hcollected.chainId⟩
      issuanceRegistry := (bytesFromHex_iff (by decide)).mpr hcollected.issuanceRegistry
      issuerKeyId := (bytesFromHex_iff (by decide)).mpr hcollected.issuerKeyId
      anchor := hanchor
      blocks := hparsed }
  have htext : fromStr.source t.json.compact = some t := by
    refine hsource t ⟨fun block hblock e he => ⟨(hfits block hblock).2 e he, ?_⟩⟩
    rw [hmade.blocks] at hblock
    obtain ⟨header, hheader, rfl⟩ := List.mem_map.mp hblock
    exact hmade.bound header hheader e he
  -- the builder that the checkpoint restores to
  have hrestore := hsound.restore_snapshot hnonzero
  have hsound₀ := hsound.restored hnonzero
  have hextends : Extends (b.onto b.tip []).issuerKeyId (b.onto b.tip []).tip
      (b.onto b.tip []).nextStatusId blocks :=
    extends_blockOf hmade.branch hreadable hmade.order hmade.dense hmade.bound
  have hwords : (b.tip.hash :: blocks.map fun block => block.source.hash).Nodup := by
    refine List.Nodup.of_map (f := bytesToHex) ?_
    have hhashes : (blocks.map fun block => block.source.hash).map bytesToHex =
        t.blocks.map BlockWire.hash := by
      rw [hmade.blocks, List.map_map, List.map_map, List.map_map]
      exact List.map_congr_left fun header hheader => (hreadable header hheader).hash.symm
    rw [List.map_cons, hhashes]
    have hanchorHash : t.anchor.hash = bytesToHex b.tip.hash := by
      rw [hcollected.anchor]
      rfl
    rw [← hanchorHash]
    exact hdistinct
  obtain ⟨hnew, hdistinctWords⟩ := List.nodup_cons.mp hwords
  obtain ⟨b', happly, hnext⟩ := hsound₀.applySourceBlocks_extends hextends hdistinctWords (by
    rintro block hblock (hbase | ⟨entry, hentry, -⟩)
    · exact hnew (hbase ▸ List.mem_map_of_mem hblock)
    · cases hentry)
  obtain ⟨hsound', htip', -⟩ := hsound₀.applySourceBlocks happly
  obtain ⟨out, hout⟩ := hsound'.exists_toJson
  refine ⟨b'.snapshot poseidon, out, writeResult_iff.mpr ⟨b', ?_, hout⟩, hout, ?_, ?_⟩
  · simp only [bind_eq_ok, check_eq_ok]
    refine ⟨_, hsound.fromJson_toJson hnonzero hread hcheckpoint, _,
      (parseSourceJson_iff htext).mpr hsourceOk, ?_, _, hrestore, happly⟩
    simp only [not_or, not_not]
    exact ⟨rfl, rfl, rfl, rfl⟩
  · have hlast := parseBlockRef_lastRef hanchor hparsed
    have hsource' : (b'.snapshot poseidon).source = lastSource b.tip blocks := htip'
    rw [hsource']
    exact (parseBlockRef_iff.mp hlast).2
  · have hcount : (blocks.map fun block => block.events.length).sum =
        (t.blocks.flatMap BlockWire.events).length := by
      rw [hmade.blocks, List.length_flatMap, List.map_map, List.map_map]
      refine congrArg List.sum (List.map_congr_left fun header _ => ?_)
      show (allocations b.issuerKeyId (idsOf (bb header.number))).length = _
      rw [allocations, List.length_map, idsOf, List.length_map]
      rfl
    have hnext' : (b'.snapshot poseidon).nextStatusId = _ := hnext
    rw [hnext', hcount]
    rfl

-- The block headers that a reader gives have hashes with all their digits.
def FullHashes (reader : ZkIdentityFinalizedRpcReader) (anchor : Nat) : Prop :=
  ∀ answer, reader.getFinalizedBlock = .ok answer → ∀ n value, anchor < n →
    (n : Int) ≤ answer.number → reader.getBlock n = .ok value → Padded value.hash

theorem Made.padded_iff {reader : ZkIdentityFinalizedRpcReader} {snapshot : PackedStatusSnapshot}
    {answer : ZkIdentityFinalizedBlockHeader} {finalized : CanonicalHeader} {t : SourceWire}
    {headers : List CanonicalHeader} {bb : Nat → List EventWire}
    (hcollected : Collected viem reader snapshot answer finalized t)
    (hmade : Made viem reader snapshot finalized t headers bb) :
    (∀ header ∈ headers, Padded header.hash) ↔ FullHashes reader snapshot.source.number := by
  have htarget := hcollected.target.number
  have hlength := hmade.length
  constructor
  · intro h answer' hanswer n value hlower hupper hvalue
    rw [hcollected.answered] at hanswer
    cases hanswer
    have hn : n ∈ List.range' (snapshot.source.number + 1) headers.length := by
      rw [List.mem_range'_1]
      omega
    obtain ⟨header, hheader, hfetch⟩ := exists_of_forall₂_right hmade.fetched.flip hn
    simp only [fetchHeader, hvalue, bind_eq_ok, Except.ok.injEq, exists_eq_left'] at hfetch
    rw [← padded_toLowerCase, ← (canonicalHeader_ok hfetch).hash]
    exact h header hheader
  · intro h header hheader
    obtain ⟨n, value, hlower, hupper, hvalue, hok⟩ := hmade.header hheader
    rw [hok.hash, padded_toLowerCase]
    exact h answer hcollected.answered n value hlower (by omega) hvalue

-- What the builder accepts has all the digits of its hashes.
theorem Made.padded_of_advances {reader : ZkIdentityFinalizedRpcReader} {fromStr : FromStr}
    {snapshot : PackedStatusSnapshot} {finalized : CanonicalHeader} {t : SourceWire}
    {headers : List CanonicalHeader} {bb : Nat → List EventWire} {checkpoint : String}
    (hsource : fromStr.ReadsSource)
    (hmade : Made viem reader snapshot finalized t headers bb) (hfits : FitsBuilder t)
    (h : Advances poseidon fromStr checkpoint snapshot t) :
    ∀ header ∈ headers, Padded header.hash := by
  obtain ⟨next, out, hadvance, -⟩ := h
  obtain ⟨b', hb', -⟩ := writeResult_iff.mp hadvance
  simp only [bind_eq_ok, check_eq_ok] at hb'
  obtain ⟨_, -, source, hparse, -⟩ := hb'
  have htext : fromStr.source t.json.compact = some t := by
    refine hsource t ⟨fun block hblock e he => ⟨(hfits block hblock).2 e he, ?_⟩⟩
    rw [hmade.blocks] at hblock
    obtain ⟨header, hheader, rfl⟩ := List.mem_map.mp hblock
    exact hmade.bound header hheader e he
  have hblocks := ((parseSourceJson_iff htext).mp hparse).blocks
  intro header hheader
  have hblock : blockWire bb header ∈ t.blocks := hmade.blocks ▸ List.mem_map_of_mem hheader
  obtain ⟨block, -, hparsed⟩ := exists_of_forall₂_right (mapM_eq_ok.mp hblocks).flip hblock
  simp only [parseBlock, bind_eq_ok] at hparsed
  obtain ⟨ref, href, -⟩ := hparsed
  have hhash : header.hash = bytesToHex ref.hash :=
    congrArg BlockRefWire.hash (parseBlockRef_iff.mp href).2
  rw [hhash]
  exact padded_bytesToHex _

-- A transcript holds the finalized branch after the checkpoint with all its logs. The builder
-- takes it, when it can at all, just if the reader wrote the hashes of its blocks out in full.
theorem ingestion_feeds_builder {poseidon : Poseidon} {fromStr : FromStr} {viem : Viem}
    {s : Session} {checkpoint : String} {input : CollectZkIdentityFinalizedStatusInput}
    {t : SourceWire} (hnonzero : ∀ left right, registryNode poseidon left right ≠ 0)
    (hread : fromStr.ReadsBack) (hsource : fromStr.ReadsSource) (hs : Reachable poseidon s)
    (hchain : s.now.builder.chainId ≤ U64_MAX) (htip : s.now.builder.tip.number ≤ U64_MAX)
    (hcheckpoint : (s.now.builder.snapshot poseidon).toJson = some checkpoint)
    (hinput : Matches input (s.now.builder.snapshot poseidon))
    (hcollect : collectZkIdentityFinalizedStatusTranscript viem input = .ok t) :
    (∃ answer finalized, input.reader.getFinalizedBlock = .ok answer ∧
      HeaderOk answer finalized ∧
      Follows input.reader (s.now.builder.snapshot poseidon) finalized t) ∧
    ((Distinct t → FitsBuilder t →
        Advances poseidon fromStr checkpoint (s.now.builder.snapshot poseidon) t) ↔
      (Distinct t → FitsBuilder t →
        FullHashes input.reader s.now.builder.tip.number)) := by
  obtain ⟨answer, finalized, hcollected⟩ := hinput.collected hcollect
  obtain ⟨headers, bb, hmade⟩ := hcollected.made
  refine ⟨⟨answer, finalized, hcollected.answered, hcollected.target, hcollected.follows⟩, ?_⟩
  constructor
  · intro h hdistinct hfits
    have hpadded := hmade.padded_of_advances hsource hfits (h hdistinct hfits)
    exact (hmade.padded_iff hcollected).mp hpadded
  · intro h hdistinct hfits
    have hpadded := (hmade.padded_iff hcollected).mpr (h hdistinct hfits)
    exact hmade.advances (hs.sound hchain htip) hnonzero hread hsource hcheckpoint hcollected
      hdistinct hfits hpadded

-- A block with one allocation behind the sample builder, under a hash of the reader's choice.
def sampleViem : Viem := viemWith id fun _ _ => rfl

def sampleHeader (hash : String) : ZkIdentityFinalizedBlockHeader :=
  ⟨(101 : Nat), hash, bytesToHex 1#256⟩

def sampleReader (hash : String) : ZkIdentityFinalizedRpcReader where
  getChainId := .ok (.integer 84532)
  getFinalizedBlock := .ok (sampleHeader hash)
  getBlock := fun _ => .ok (sampleHeader hash)
  getCredentialAllocatedLogs := fun _ _ _ _ =>
    .ok [⟨(101 : Nat), hash, .integer (0 : Nat), bytesToHex 0x22#256, .integer (1 : Nat)⟩]

def sampleInput (hash : String) : CollectZkIdentityFinalizedStatusInput where
  reader := sampleReader hash
  chainId := .integer (84532 : Nat)
  issuanceRegistry := bytesToHex 0x11#160
  issuerKeyId := bytesToHex 0x22#256
  anchor := ⟨(100 : Nat), bytesToHex 1#256, bytesToHex 0#256⟩
  expectedNextStatusId := (1 : Nat)

def sampleEvent : EventWire := ⟨"credential-allocated", 0, bytesToHex 0x22#256, 1, none⟩

def sampleTranscript (hash : String) : SourceWire where
  schema := PACKED_STATUS_SOURCE_SCHEMA
  chainId := (84532).repr
  issuanceRegistry := bytesToHex 0x11#160
  issuerKeyId := bytesToHex 0x22#256
  anchor := ⟨(100).repr, bytesToHex 1#256, bytesToHex 0#256⟩
  blocks := [⟨(101).repr, hash, bytesToHex 1#256, [sampleEvent]⟩]

theorem matches_sample (hash : String) :
    Matches (sampleInput hash) (sampleBuilder.snapshot samplePoseidon) where
  chainId := rfl
  issuanceRegistry := (hexText_bytesToHex _).toLowerCase
  issuerKeyId := (hexText_bytesToHex _).toLowerCase
  anchor := rfl
  next := rfl

theorem collect_sample {hash : String} (hbytes : IsBytes32 hash) (hzero : bigIntOfHex hash ≠ 0) :
    collectZkIdentityFinalizedStatusTranscript sampleViem (sampleInput hash) =
      .ok (sampleTranscript hash) := by
  have hanchor : canonicalHeader sampleViem (sampleInput hash).anchor "packed-status anchor" =
      .ok ⟨100, bytesToHex 1#256, bytesToHex 0#256⟩ :=
    canonicalHeader_text (isBytes32_bytesToHex _)
      (by rw [bigInt_bytesToHex (by decide)]; decide) (isBytes32_bytesToHex _) _
  have hheader : ∀ label, canonicalHeader sampleViem (sampleHeader hash) label =
      .ok ⟨101, hash, bytesToHex 1#256⟩ :=
    fun label => canonicalHeader_text hbytes hzero (isBytes32_bytesToHex _) label
  have hissuer : ∀ label, canonicalBytes32 sampleViem (.str (bytesToHex 0x22#256)) label false =
      .ok (bytesToHex 0x22#256) :=
    fun label => canonicalBytes32_str (isBytes32_bytesToHex _) nofun
  have hissuerValue : bigIntOfHex (bytesToHex 0x22#256) ≠ 0 := by
    rw [bigInt_bytesToHex (by decide)]
    decide
  let header : CanonicalHeader := ⟨101, hash, bytesToHex 1#256⟩
  have hbranched : Branched sampleViem (sampleReader hash) (bytesToHex 0x11#160)
      (bytesToHex 0x22#256) 1 ⟨100, bytesToHex 1#256, bytesToHex 0#256⟩ header [header]
      [⟨(101 : Nat), hash, .integer (0 : Nat), bytesToHex 0x22#256, .integer (1 : Nat)⟩]
      [(101, sampleEvent)] := by
    refine ⟨rfl, ?_, ⟨rfl, rfl, trivial⟩, ⟨header, rfl, rfl, rfl⟩, rfl, ?_, ?_, trivial⟩
    · refine .cons ?_ .nil
      simp only [fetchHeader, sampleReader, bind_eq_ok, Except.ok.injEq, exists_eq_left']
      exact hheader _
    · exact .cons ⟨rfl, ⟨header, rfl, canonicalBytes32_str hbytes nofun⟩, rfl, hissuer _, rfl, rfl⟩
        .nil
    · exact ⟨Nat.le_refl 101, Nat.le_refl 101, by decide, Or.inl (by decide), rfl, by decide,
        by decide⟩
  have hblocks : collectBlocks sampleViem (sampleReader hash) (bytesToHex 0x11#160)
      (bytesToHex 0x22#256) (1 : Nat) ⟨100, bytesToHex 1#256, bytesToHex 0#256⟩ header =
      .ok (sampleTranscript hash).blocks :=
    collectBlocks_ok.mpr (.inr ⟨Nat.lt_succ_self 100, show 1 ≤ 512 by decide, _, _, _, hbranched,
      rfl⟩)
  simp only [collectZkIdentityFinalizedStatusTranscript, bind_eq_ok, check_eq_ok]
  refine ⟨84532, rfl, _, canonicalAddress_str sampleViem _ (by decide), _, hissuer _,
    hissuerValue, ?_, _, hanchor, _, rfl, ?_, _, rfl, header, hheader _, _, hblocks, rfl⟩
  · simp [sampleInput, ZK_IDENTITY_MAX_NEXT_STATUS_ID]
  · decide

theorem registryNode_sample (left right : StatusField) :
    registryNode samplePoseidon left right ≠ 0 := by
  have hfive : registryNode samplePoseidon left right = Fin.ofNat BN254_FR 5 := rfl
  rw [hfive]
  decide

theorem compactFromStr_readsSource : compactFromStr.ReadsSource :=
  fun w _ => compactFromStr_source w

theorem distinct_sample {hash : String} (h : hash ≠ bytesToHex 1#256) :
    Distinct (sampleTranscript hash) := by
  rw [Distinct, List.nodup_cons]
  refine ⟨?_, List.nodup_singleton _⟩
  rw [sampleTranscript, List.map_singleton, List.mem_singleton]
  exact h.symm

theorem fitsBuilder_sample (hash : String) : FitsBuilder (sampleTranscript hash) := by
  intro block hblock
  rw [sampleTranscript, List.mem_singleton] at hblock
  subst hblock
  refine ⟨⟨101, by decide, rfl⟩, ?_⟩
  intro e he
  rw [List.mem_singleton.mp he]
  decide

theorem ingestion_feeds_builder_sample :
    ∃ checkpoint, (sampleBuilder.snapshot samplePoseidon).toJson = some checkpoint ∧
      Advances samplePoseidon compactFromStr checkpoint (sampleBuilder.snapshot samplePoseidon)
        (sampleTranscript (bytesToHex 2#256)) := by
  have hsound := reachable_sampleBuilder.sound (by decide) (by decide)
  obtain ⟨checkpoint, hcheckpoint⟩ := hsound.exists_toJson
  have hbytes := isBytes32_bytesToHex 2#256
  have hzero : bigIntOfHex (bytesToHex 2#256) ≠ 0 := by
    rw [bigInt_bytesToHex (by decide)]
    decide
  have hne : bytesToHex 2#256 ≠ bytesToHex 1#256 := by
    intro heq
    have hvalue := congrArg bigIntOfHex heq
    rw [bigInt_bytesToHex (by decide), bigInt_bytesToHex (by decide)] at hvalue
    exact absurd hvalue (by decide)
  refine ⟨checkpoint, hcheckpoint, ?_⟩
  refine (ingestion_feeds_builder registryNode_sample compactFromStr_readsBack
    compactFromStr_readsSource reachable_sampleBuilder (by decide) (by decide) hcheckpoint
    (matches_sample _) (collect_sample hbytes hzero)).2.mpr ?_ (distinct_sample hne)
    (fitsBuilder_sample _)
  intro _ _ answer _ n value _ _ hvalue
  cases hvalue
  exact padded_bytesToHex 2#256

-- A hash that lacks its first digit passes for 32 bytes.
def shortHash : String := String.ofList ('0' :: 'x' :: Hex.fixed 63 2)

theorem hexText_shortHash : HexText shortHash (Hex.fixed 63 2) :=
  ⟨rfl, fun _ hc => Hex.mem_fixed hc⟩

theorem ingestion_feeds_builder_fails :
    collectZkIdentityFinalizedStatusTranscript sampleViem (sampleInput shortHash) =
        .ok (sampleTranscript shortHash) ∧
      Matches (sampleInput shortHash) (sampleBuilder.snapshot samplePoseidon) ∧
      Distinct (sampleTranscript shortHash) ∧ FitsBuilder (sampleTranscript shortHash) ∧
      ∀ checkpoint, ¬Advances samplePoseidon compactFromStr checkpoint
        (sampleBuilder.snapshot samplePoseidon) (sampleTranscript shortHash) := by
  have hlength : shortHash.toList.length = 65 := by
    rw [hexText_shortHash.length, Hex.length_fixed]
  have hbytes : IsBytes32 shortHash := ⟨_, hexText_shortHash, .inl (Hex.length_fixed _ _)⟩
  have hzero : bigIntOfHex shortHash ≠ 0 := by
    rw [hexText_shortHash.bigInt, Hex.value_fixed (by decide)]
    decide
  have hne : shortHash ≠ bytesToHex 1#256 := by
    intro heq
    have hpadded : Padded shortHash := heq ▸ padded_bytesToHex 1#256
    rw [Padded, hlength] at hpadded
    exact absurd hpadded (by decide)
  have hcollect := collect_sample hbytes hzero
  refine ⟨hcollect, matches_sample _, distinct_sample hne, fitsBuilder_sample _, ?_⟩
  intro checkpoint hadvances
  obtain ⟨answer, finalized, hcollected⟩ := (matches_sample _).collected hcollect
  obtain ⟨headers, bb, hmade⟩ := hcollected.made
  have hfull := (hmade.padded_iff hcollected).mp
    (hmade.padded_of_advances compactFromStr_readsSource (fitsBuilder_sample _) hadvances)
  have hpadded := hfull _ rfl 101 _ (by decide) (Int.le_refl _) rfl
  rw [Padded] at hpadded
  exact absurd (hlength.symm.trans hpadded) (by decide)

end Ubi2.StatusSnapshot
