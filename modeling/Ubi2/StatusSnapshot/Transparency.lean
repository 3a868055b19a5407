import Ubi2.StatusSnapshot.Checkpoint

namespace Ubi2.StatusSnapshot

open Ubi2.Runtime Ubi2.Lib Ubi2.Lib.Except PackedStatusSnapshotBuilder

section
variable {poseidon : Poseidon} {b b' : PackedStatusSnapshotBuilder}

-- The builder on another anchor, with another history.
def PackedStatusSnapshotBuilder.onto (b : PackedStatusSnapshotBuilder) (anchor : SourceBlockRef)
    (history : List BlockUndo) : PackedStatusSnapshotBuilder :=
  { b with anchor := anchor, history := history }

theorem applyEvent_onto {event : PackedStatusSourceEvent} {undo : EventUndo}
    (anchor : SourceBlockRef) (history : List BlockUndo)
    (h : b.applyEvent poseidon event = .ok (undo, b')) :
    (b.onto anchor history).applyEvent poseidon event = .ok (undo, b'.onto anchor history) := by
  have hmap : (b.onto anchor history).applyEvent poseidon event =
      (b.applyEvent poseidon event).map fun done => (done.1, done.2.onto anchor history) := by
    have hselect : (b.onto anchor history).selectStatus event = b.selectStatus event := by
      cases event <;> rfl
    have hchunk : (b.onto anchor history).chunk = b.chunk := rfl
    have hissuer : (b.onto anchor history).issuerKeyId = b.issuerKeyId := rfl
    rw [applyEvent, applyEvent, hselect, hissuer, hchunk]
    by_cases hwrong : event.issuerKeyId ≠ b.issuerKeyId
    · rw [if_pos hwrong, if_pos hwrong]
      rfl
    · rw [if_neg hwrong, if_neg hwrong]
      cases b.selectStatus event with
      | error error => rfl
      | ok selected =>
        obtain ⟨statusId, failClosed⟩ := selected
        simp only
        by_cases hbit : failClosed =
            (b.chunk (statusId >>> 8)).isRevokedOrUnallocated (statusId &&& 0xff)
        · rw [if_pos hbit, if_pos hbit]
          rfl
        · rw [if_neg hbit, if_neg hbit]
          cases failClosed <;> rfl
  rw [hmap, h]
  rfl

theorem applyEvents_onto {n : Nat} {events : List PackedStatusSourceEvent}
    {undo undo' : List EventUndo} {previous : Option Nat} (anchor : SourceBlockRef)
    (history : List BlockUndo)
    (h : applyEvents poseidon n events undo previous b = (.ok undo', b')) :
    applyEvents poseidon n events undo previous (b.onto anchor history) =
      (.ok undo', b'.onto anchor history) := by
  induction events generalizing b undo previous with
  | nil =>
    rw [applyEvents] at h
    cases h
    rfl
  | cons event events ih =>
    rw [applyEvents] at h
    rw [applyEvents]
    by_cases horder : previous.any fun previous => event.logIndex ≤ previous
    · rw [if_pos horder] at h
      cases h
    · rw [if_neg horder] at h
      rw [if_neg horder]
      cases hevent : b.applyEvent poseidon event with
      | error error =>
        rw [hevent] at h
        cases h
      | ok done =>
        obtain ⟨eventUndo, b₁⟩ := done
        rw [hevent] at h
        rw [applyEvent_onto anchor history hevent]
        exact ih h

-- The block hashes that a builder refuses to index again.
def PackedStatusSnapshotBuilder.Knows (b : PackedStatusSnapshotBuilder) (hash : Hash) : Prop :=
  hash = b.anchor.hash ∨ ∃ entry ∈ b.history, entry.source.hash = hash

-- A builder that knows fewer blocks accepts what the other accepts.
theorem PackedStatusSnapshotBuilder.Canonical.appended_onto (hc : Canonical poseidon b) {block : FinalizedStatusBlock}
    {undo : List EventUndo} {b₁ : PackedStatusSnapshotBuilder} {anchor : SourceBlockRef}
    {history : List BlockUndo} (happ : Appended poseidon b block undo b₁ b')
    (hknows : ∀ hash, (b.onto anchor history).Knows hash → b.Knows hash) :
    ∃ history', (b.onto anchor history).applyFinalizedBlock poseidon block =
        (.ok (), b'.onto anchor history') ∧
      ∀ hash, (b'.onto anchor history').Knows hash → b'.Knows hash := by
  obtain ⟨next, t, s, hfields⟩ := hc.fields happ
  have hhistory : b₁.history = b.history := by rw [hfields]
  have hanchor : b₁.anchor = b.anchor := by rw [hfields]
  have hfresh : ¬(b.onto anchor history).Knows block.source.hash := by
    intro h
    rcases hknows _ h with hbase | ⟨entry, hentry, heq⟩
    · exact happ.fresh.1 hbase
    · exact happ.fresh.2 entry hentry heq
  have hnew : ¬(block.source.hash = (b.onto anchor history).anchor.hash ∨
      (b.onto anchor history).history.any
        (fun entry => entry.source.hash = block.source.hash) = true) := by
    rintro (hbase | hentry)
    · exact hfresh (Or.inl hbase)
    · obtain ⟨entry, hmem, heq⟩ := List.any_eq_true.mp hentry
      exact hfresh (Or.inr ⟨entry, hmem, of_decide_eq_true heq⟩)
  refine ⟨⟨block.source, b.tip, b.nextStatusId, undo⟩ :: history, ?_, ?_⟩
  · rw [applyFinalizedBlock, show (b.onto anchor history).tip = b.tip from rfl, if_neg happ.max, if_neg (not_not.mpr happ.number),
      if_neg (not_or.mpr ⟨not_not.mpr happ.parent, happ.nonzero⟩), if_neg hnew,
      show (b.onto anchor history).nextStatusId = b.nextStatusId from rfl,
      applyEvents_onto anchor history happ.events, happ.result]
    rfl
  · intro hash hknown
    rw [happ.result]
    rcases hknown with hbase | ⟨entry, hmem, heq⟩
    · rcases hknows hash (Or.inl hbase) with hb | ⟨entry, hentry, heq⟩
      · exact Or.inl (hb.trans (congrArg SourceBlockRef.hash hanchor.symm))
      · exact Or.inr ⟨entry, List.mem_cons_of_mem _ (hhistory ▸ hentry), heq⟩
    · cases List.mem_cons.mp hmem with
      | inl hfirst => exact Or.inr ⟨_, List.mem_cons_self, hfirst ▸ heq⟩
      | inr hold =>
        rcases hknows hash (Or.inr ⟨entry, hold, heq⟩) with hb | ⟨entry', hentry, heq'⟩
        · exact Or.inl (hb.trans (congrArg SourceBlockRef.hash hanchor.symm))
        · exact Or.inr ⟨entry', List.mem_cons_of_mem _ (hhistory ▸ hentry), heq'⟩

-- What makes the checkpoint of a builder acceptable.
structure Sound (poseidon : Poseidon) (b : PackedStatusSnapshotBuilder) : Prop where
  tracks : ∃ l past, Linked poseidon ⟨b, l⟩ past
  chainId : b.chainId ≠ 0
  chainBound : b.chainId ≤ U64_MAX
  issuanceRegistry : b.issuanceRegistry ≠ ZERO_ADDRESS
  issuerKeyId : b.issuerKeyId ≠ ZERO_HASH
  tip : b.tip.hash ≠ ZERO_HASH
  tipBound : b.tip.number ≤ U64_MAX

theorem Sound.of_new {chainId : Nat} {registry : Address} {issuer : Hash}
    {anchor : SourceBlockRef} (h : new chainId registry issuer anchor = .ok b)
    (hchain : chainId ≤ U64_MAX) (hnumber : anchor.number ≤ U64_MAX) : Sound poseidon b := by
  have hlinked : Linked poseidon ⟨b, Ledger.genesis⟩ [] := Tracks.of_new h
  rw [new] at h
  split at h
  · cases h
  rename_i hfields
  cases h
  simp only [not_or] at hfields
  exact ⟨⟨_, _, hlinked⟩, hfields.1, hchain, hfields.2.1, hfields.2.2.1, hfields.2.2.2, hnumber⟩

theorem Sound.appended (h : Sound poseidon b) {block : FinalizedStatusBlock}
    (happly : b.applyFinalizedBlock poseidon block = (.ok (), b')) :
    Sound poseidon b' ∧ b'.tip = block.source ∧ b'.chainId = b.chainId ∧
      b'.issuanceRegistry = b.issuanceRegistry ∧ b'.issuerKeyId = b.issuerKeyId := by
  obtain ⟨l, past, hlinked⟩ := h.tracks
  rcases applyFinalizedBlock_cases happly with ⟨_, herr, _⟩ | ⟨_, undo, b₁, happ⟩
  · cases herr
  obtain ⟨next, t, s, hfields⟩ := hlinked.tracks.canonical.fields happ
  have hbound := h.tipBound
  have hmax := happ.max
  have hresult : b' = { b with
      nextStatusId := next
      chunks := t
      nodes := s
      tip := block.source
      history := ⟨block.source, b.tip, b.nextStatusId, undo⟩ :: b.history } := by
    rw [happ.result, hfields]
  refine ⟨⟨⟨_, _, hlinked.append happly⟩, ?_, ?_, ?_, ?_, ?_, ?_⟩, ?_, ?_, ?_, ?_⟩ <;>
    rw [hresult]
  · exact h.chainId
  · exact h.chainBound
  · exact h.issuanceRegistry
  · exact h.issuerKeyId
  · exact happ.nonzero
  · rw [happ.number]
    omega

theorem new_fields {chainId : Nat} {registry : Address} {issuer : Hash}
    {anchor : SourceBlockRef} (h : new chainId registry issuer anchor = .ok b) :
    b.chainId = chainId ∧ b.issuanceRegistry = registry ∧ b.issuerKeyId = issuer ∧
      b.tip = anchor := by
  rw [new] at h
  split at h
  · cases h
  · cases h
    exact ⟨rfl, rfl, rfl, rfl⟩

-- A builder knows its own tip, which is all that its checkpoint keeps.
theorem Sound.knows_tip (h : Sound poseidon b) :
    ∀ hash, (b.onto b.tip []).Knows hash → b.Knows hash := by
  rintro hash (hbase | ⟨entry, hmem, -⟩)
  · obtain ⟨l, past, hlinked⟩ := h.tracks
    have hknown := (hlinked.known hash).mpr ⟨_, List.mem_cons_self, Eq.symm hbase⟩
    rcases hknown with hanchor | hentry
    · exact Or.inl hanchor
    · obtain ⟨entry, hentry, heq⟩ := List.any_eq_true.mp hentry
      exact Or.inr ⟨entry, hentry, of_decide_eq_true heq⟩
  · cases hmem

-- The reference that a run of blocks leaves the tip at.
def lastSource (anchor : SourceBlockRef) (blocks : List FinalizedStatusBlock) : SourceBlockRef :=
  (blocks.getLast?.map FinalizedStatusBlock.source).getD anchor

theorem Sound.applySourceBlocks (h : Sound poseidon b) {blocks : List FinalizedStatusBlock}
    (happly : applySourceBlocks poseidon b blocks = .ok b') :
    Sound poseidon b' ∧ b'.tip = lastSource b.tip blocks ∧ b'.chainId = b.chainId ∧
      b'.issuanceRegistry = b.issuanceRegistry ∧ b'.issuerKeyId = b.issuerKeyId := by
  induction blocks generalizing b with
  | nil =>
    rw [StatusSnapshot.applySourceBlocks] at happly
    cases happly
    exact ⟨h, rfl, rfl, rfl, rfl⟩
  | cons block blocks ih =>
    rw [StatusSnapshot.applySourceBlocks] at happly
    split at happly
    · rename_i b₁ hblock
      obtain ⟨hsound, htip, hchain, hregistry, hissuer⟩ := h.appended hblock
      obtain ⟨hsound', htip', hchain', hregistry', hissuer'⟩ := ih hsound happly
      refine ⟨hsound', ?_, hchain'.trans hchain, hregistry'.trans hregistry,
        hissuer'.trans hissuer⟩
      rw [htip', htip, lastSource, lastSource, List.getLast?_cons]
      cases blocks.getLast? <;> rfl
    · cases happly

theorem applySourceBlocks_append {blocks blocks' : List FinalizedStatusBlock} :
    applySourceBlocks poseidon b (blocks ++ blocks') = .ok b' ↔
      ∃ b₁, applySourceBlocks poseidon b blocks = .ok b₁ ∧
        applySourceBlocks poseidon b₁ blocks' = .ok b' := by
  induction blocks generalizing b with
  | nil => simp [applySourceBlocks]
  | cons block blocks ih =>
    rw [List.cons_append, applySourceBlocks, applySourceBlocks]
    split
    · exact ih
    · simp

theorem Sound.applySourceBlocks_onto (h : Sound poseidon b) {blocks : List FinalizedStatusBlock}
    {anchor : SourceBlockRef} {history : List BlockUndo}
    (hknows : ∀ hash, (b.onto anchor history).Knows hash → b.Knows hash)
    (happly : StatusSnapshot.applySourceBlocks poseidon b blocks = .ok b') :
    ∃ history', StatusSnapshot.applySourceBlocks poseidon (b.onto anchor history) blocks =
      .ok (b'.onto anchor history') := by
  induction blocks generalizing b history with
  | nil =>
    rw [StatusSnapshot.applySourceBlocks] at happly
    cases happly
    exact ⟨history, rfl⟩
  | cons block blocks ih =>
    rw [StatusSnapshot.applySourceBlocks] at happly
    split at happly
    · rename_i b₁ hblock
      obtain ⟨l, past, hlinked⟩ := h.tracks
      rcases applyFinalizedBlock_cases hblock with ⟨_, herr, _⟩ | ⟨_, undo, b₀, happ⟩
      · cases herr
      obtain ⟨history₁, hblock', hknows'⟩ :=
        hlinked.tracks.canonical.appended_onto happ hknows
      obtain ⟨history', hrest⟩ := ih (h.appended hblock).1 hknows' happly
      refine ⟨history', ?_⟩
      rw [StatusSnapshot.applySourceBlocks, hblock']
      exact hrest
    · cases happly

theorem chunk_snapshot (b : PackedStatusSnapshotBuilder) (i : Nat) :
    (b.snapshot poseidon).chunk i = b.chunk i := by
  have hfind : (b.snapshot poseidon).chunks.find? (fun chunk => chunk.index = i) =
      (b.chunks.get i).map fun row => ⟨row.1, row.2⟩ := List.find?_map
  rw [PackedStatusSnapshot.chunk, hfind, Option.map_map]
  rfl

-- The checkpoint of a sound builder is accepted.
theorem Sound.snapshotOk (h : Sound poseidon b)
    (hnonzero : ∀ left right, registryNode poseidon left right ≠ 0) :
    SnapshotOk (b.snapshot poseidon) := by
  obtain ⟨l, past, hlinked⟩ := h.tracks
  have htracks := hlinked.tracks
  have hcanonical := htracks.canonical
  have hpos : b.nextStatusId ≠ 0 := htracks.pos
  have hbound : b.nextStatusId ≤ MAX_NEXT_STATUS_ID := htracks.bound
  have hvalue : ∀ row ∈ b.chunks.rows, ∀ bit < 256,
      row.2.isRevokedOrUnallocated bit = b.isRevokedOrUnallocated (256 * row.1 + bit) := by
    intro row hrow bit hbit
    have hchunk : b.chunk row.1 = row.2 := by
      rw [PackedStatusSnapshotBuilder.chunk, Table.get_of_mem hrow]
      rfl
    rw [← hchunk, isRevokedOrUnallocated_at b row.1 hbit]
  -- a stored chunk has the clear bit of an allocated id
  have hclear : ∀ row ∈ b.chunks.rows, ∃ bit < 256,
      256 * row.1 + bit ≠ 0 ∧ 256 * row.1 + bit < b.nextStatusId := by
    intro row hrow
    by_contra hnone
    apply hcanonical.chunks row hrow
    apply PackedStatusChunk.ext_bits
    intro bit hbit
    rw [PackedStatusChunk.isRevokedOrUnallocated_FAIL_CLOSED hbit, hvalue row hrow bit hbit]
    cases hset : b.isRevokedOrUnallocated (256 * row.1 + bit) with
    | true => rfl
    | false =>
      have hin := (htracks.allocated _).mp ((htracks.clear _).mp hset).1
      exact absurd ⟨bit, hbit, hin⟩ hnone
  have hlast := statusId_eq (b.nextStatusId - 1)
  have hlastBit := bit_lt (b.nextStatusId - 1)
  refine
    { schema := rfl
      chainId := h.chainId
      issuanceRegistry := h.issuanceRegistry
      issuerKeyId := h.issuerKeyId
      source := h.tip
      nextPos := hpos
      nextBound := hbound
      root := ?_
      empty := ?_
      chunks := ?_
      sorted := ?_ }
  · show b.root poseidon ≠ 0
    rw [hcanonical.root_eq]
    exact hnonzero _ _
  · intro hone
    cases hrows : b.chunks.rows with
    | nil =>
      show b.chunks.rows.map _ = []
      rw [hrows, List.map_nil]
    | cons row rows =>
      obtain ⟨bit, hbit, hne, hlt⟩ := hclear row (by rw [hrows]; exact List.mem_cons_self)
      have hone' : b.nextStatusId = 1 := hone
      omega
  · intro chunk hchunk
    obtain ⟨row, hrow, rfl⟩ := List.mem_map.mp hchunk
    obtain ⟨bit, hbit, hne, hlt⟩ := hclear row hrow
    have hmax : MAX_CHUNK_INDEX = 16777215 := rfl
    rw [MAX_NEXT_STATUS_ID] at hbound
    refine
      { bound := ?_
        stored := hcanonical.chunks row hrow
        last := ?_
        zero := ?_
        tail := ?_ }
    · show row.1 ≤ MAX_CHUNK_INDEX
      omega
    · show row.1 ≤ (b.nextStatusId - 1) >>> 8
      omega
    · intro hzero
      have hzero' : row.1 = 0 := hzero
      show row.2.isRevokedOrUnallocated 0 = true
      rw [hvalue row hrow 0 (by omega), hzero']
      exact htracks.coherent.zero
    · intro htop
      have htop' : row.1 = (b.nextStatusId - 1) >>> 8 := htop
      refine (unallocatedTailIsFailClosed_iff hlastBit).mpr ?_
      intro after hafter hgt
      have hgt' : (b.nextStatusId - 1) &&& 0xff < after := hgt
      show row.2.isRevokedOrUnallocated after = true
      rw [hvalue row hrow after hafter]
      apply htracks.above
      show 256 * row.1 + after ≥ b.nextStatusId
      omega
  · exact List.pairwise_map.mpr b.chunks.sorted

-- A checkpoint restores to the builder it was taken from, on a new anchor.
theorem Sound.restore_snapshot (h : Sound poseidon b)
    (hnonzero : ∀ left right, registryNode poseidon left right ≠ 0) :
    restore poseidon (b.snapshot poseidon) = .ok (b.onto b.tip []) := by
  have hok := h.snapshotOk hnonzero
  obtain ⟨l, past, hlinked⟩ := h.tracks
  have hcanonical := hlinked.tracks.canonical
  have hrebuilt := canonical_rebuilt poseidon (b.snapshot poseidon)
  obtain ⟨hchunks, hnodes⟩ := hrebuilt.unique hcanonical fun i =>
    (chunk_rebuilt hok.sorted i).trans (chunk_snapshot b i)
  have heq : b.onto b.tip [] = rebuilt poseidon (b.snapshot poseidon) := by
    obtain ⟨t, n, hfields⟩ := rebuilt_fields poseidon (b.snapshot poseidon)
    rw [hfields] at hchunks hnodes
    rw [hfields, onto, ← hchunks, ← hnodes]
    rfl
  exact restore_iff.mpr ⟨hok, heq, rfl⟩

-- The text of a sound builder reads back as its checkpoint.
theorem Sound.fromJson_toJson (h : Sound poseidon b)
    (hnonzero : ∀ left right, registryNode poseidon left right ≠ 0) {fromStr : FromStr}
    (hread : fromStr.ReadsBack) {json : String}
    (hwrite : (b.snapshot poseidon).toJson = some json) :
    PackedStatusSnapshot.fromJson fromStr json = .ok (b.snapshot poseidon) := by
  have hok := h.snapshotOk hnonzero
  obtain ⟨wire, hwire, hjson⟩ := Option.map_eq_some_iff.mp hwrite
  obtain ⟨activated, hactivated, hfields⟩ := Option.map_eq_some_iff.mp hwire
  have hfits : wire.Fits := by
    have hbound := hok.nextBound
    rw [MAX_NEXT_STATUS_ID] at hbound
    rw [PackedStatusSnapshot.activatedThroughStatusId] at hactivated
    simp only [Option.ite_none_left_eq_some, not_or, not_lt, Option.some.injEq] at hactivated
    rw [← hfields]
    refine ⟨?_, ?_, ?_⟩
    · show (b.snapshot poseidon).nextStatusId ≤ U64_MAX
      rw [U64_MAX]
      omega
    · show activated ≤ U32_MAX
      omega
    · intro chunk hchunk
      obtain ⟨c, hc, rfl⟩ := List.mem_map.mp hchunk
      have hindex := (hok.chunks c hc).bound
      have hmax : MAX_CHUNK_INDEX = 16777215 := rfl
      show c.index ≤ U32_MAX
      rw [U32_MAX]
      omega
  rw [PackedStatusSnapshot.fromJson, ← hjson, hread wire hfits]
  exact PackedStatusSnapshot.fromWire_iff.mpr ⟨hok, h.chainBound, h.tipBound, hwire⟩

-- A sound builder has a text.
theorem Sound.exists_toJson (h : Sound poseidon b) :
    ∃ json, (b.snapshot poseidon).toJson = some json := by
  obtain ⟨l, past, hlinked⟩ := h.tracks
  have hpos : b.nextStatusId ≠ 0 := hlinked.tracks.pos
  have hbound : b.nextStatusId ≤ MAX_NEXT_STATUS_ID := hlinked.tracks.bound
  rw [MAX_NEXT_STATUS_ID] at hbound
  have hactivated : (b.snapshot poseidon).activatedThroughStatusId =
      some (b.nextStatusId - 1) := by
    have hnext : (b.snapshot poseidon).nextStatusId = b.nextStatusId := rfl
    rw [PackedStatusSnapshot.activatedThroughStatusId, hnext, U32_MAX, if_neg (by omega)]
  rw [PackedStatusSnapshot.toJson, PackedStatusSnapshot.toWire, hactivated]
  exact ⟨_, rfl⟩

theorem writeResult_iff {r : Except PackedStatusSnapshotError PackedStatusSnapshotBuilder}
    {json : String} :
    writeResult poseidon r = some (.ok json) ↔
      ∃ b, r = .ok b ∧ (b.snapshot poseidon).toJson = some json := by
  cases r with
  | error error => simp [writeResult]
  | ok b =>
    rw [writeResult, Option.map_eq_some_iff]
    constructor
    · rintro ⟨text, htext, heq⟩
      cases heq
      exact ⟨b, rfl, htext⟩
    · rintro ⟨b', heq, htext⟩
      cases heq
      exact ⟨json, htext, rfl⟩

-- What a source that is accepted has been read to.
structure SourceOk (wire : SourceWire) (source : ParsedSource) : Prop where
  schema : wire.schema = PACKED_STATUS_SOURCE_SCHEMA
  chainId : parseCanonicalU64 wire.chainId = .ok source.chainId
  issuanceRegistry : bytesFromHex 160 wire.issuanceRegistry = .ok source.issuanceRegistry
  issuerKeyId : bytesFromHex 256 wire.issuerKeyId = .ok source.issuerKeyId
  anchor : parseBlockRef wire.anchor = .ok source.anchor
  blocks : wire.blocks.mapM parseBlock = .ok source.blocks

theorem parseSource_iff {wire : SourceWire} {source : ParsedSource} :
    parseSource wire = .ok source ↔ SourceOk wire source := by
  simp only [parseSource, check_eq_ok, bind_eq_ok, pure_eq_ok, not_not]
  constructor
  · rintro ⟨hschema, chainId, hc, registry, hr, issuer, hi, anchor, ha, blocks, hb, rfl⟩
    exact ⟨hschema, hc, hr, hi, ha, hb⟩
  · intro h
    exact ⟨h.schema, _, h.chainId, _, h.issuanceRegistry, _, h.issuerKeyId, _, h.anchor, _,
      h.blocks, rfl⟩

theorem parseSourceJson_iff {fromStr : FromStr} {json : String} {wire : SourceWire}
    {source : ParsedSource} (hread : fromStr.source json = some wire) :
    parseSourceJson fromStr json = .ok source ↔ SourceOk wire source := by
  rw [parseSourceJson, hread]
  exact parseSource_iff

theorem parseBlockRef_bound {wire : BlockRefWire} {ref : SourceBlockRef}
    (h : parseBlockRef wire = .ok ref) : ref.number ≤ U64_MAX := by
  simp only [parseBlockRef, bind_eq_ok, pure_eq_ok] at h
  obtain ⟨number, hnumber, _, _, _, _, rfl⟩ := h
  exact (parseCanonicalU64_iff.mp hnumber).1

-- The reference of the last block, or the anchor.
def lastRef (anchor : BlockRefWire) (blocks : List BlockWire) : BlockRefWire :=
  (blocks.getLast?.map BlockWire.ref).getD anchor

theorem parseBlockRef_lastRef {anchor : BlockRefWire} {ref : SourceBlockRef}
    {blocks : List BlockWire} {parsed : List FinalizedStatusBlock}
    (hanchor : parseBlockRef anchor = .ok ref) (hblocks : blocks.mapM parseBlock = .ok parsed) :
    parseBlockRef (lastRef anchor blocks) = .ok (lastSource ref parsed) := by
  rcases List.eq_nil_or_concat blocks with rfl | ⟨init, last, rfl⟩
  · rw [List.mapM_nil, pure_eq_ok] at hblocks
    subst hblocks
    exact hanchor
  · rw [List.concat_eq_append, List.mapM_append] at hblocks
    simp only [bind_eq_ok, pure_eq_ok, List.mapM_cons, List.mapM_nil] at hblocks
    obtain ⟨init', _, _, ⟨block, hblock, _, rfl, rfl⟩, rfl⟩ := hblocks
    simp only [parseBlock, bind_eq_ok, pure_eq_ok] at hblock
    obtain ⟨source, hsource, _, _, rfl⟩ := hblock
    simpa [lastRef, lastSource] using hsource

end

-- A transcript may be cut anywhere: building the first part and advancing its checkpoint with
-- the rest writes what building the whole writes. A checkpoint is restored only if no bit
-- outside its allocated ids is clear and its root is that of its chunks.
theorem checkpoint_transparent {poseidon : Poseidon} {fromStr : FromStr}
    (hnonzero : ∀ left right, registryNode poseidon left right ≠ 0)
    (hread : fromStr.ReadsBack) :
    (∀ (json jsonPrefix jsonSuffix out : String) (wire : SourceWire)
        (blocksPrefix blocksSuffix : List BlockWire),
      wire.blocks = blocksPrefix ++ blocksSuffix →
      fromStr.source json = some wire →
      fromStr.source jsonPrefix = some { wire with blocks := blocksPrefix } →
      fromStr.source jsonSuffix = some { wire with
        anchor := lastRef wire.anchor blocksPrefix
        blocks := blocksSuffix } →
      buildPackedStatusSnapshotFromJson poseidon fromStr json = some (.ok out) →
      ∃ checkpoint,
        buildPackedStatusSnapshotFromJson poseidon fromStr jsonPrefix =
          some (.ok checkpoint) ∧
        advancePackedStatusSnapshotFromJson poseidon fromStr checkpoint jsonSuffix =
          some (.ok out)) ∧
    (∀ snapshot b, restore poseidon snapshot = .ok b →
      (∀ chunk ∈ snapshot.chunks, ∀ bit < 256,
        chunk.value.isRevokedOrUnallocated bit = false →
        256 * chunk.index + bit ≠ 0 ∧ 256 * chunk.index + bit < snapshot.nextStatusId) ∧
      completeRoot poseidon snapshot.chunk = snapshot.root) := by
  constructor
  · intro json jsonPrefix jsonSuffix out wire blocksPrefix blocksSuffix hblocks hjson hpre
      hsuffix hbuild
    obtain ⟨b, hb, hout⟩ := writeResult_iff.mp hbuild
    simp only [bind_eq_ok] at hb
    obtain ⟨source, hsource, b₀, hnew, happly⟩ := hb
    have hok := (parseSourceJson_iff hjson).mp hsource
    have hparsed := hok.blocks
    rw [hblocks, List.mapM_append] at hparsed
    simp only [bind_eq_ok, pure_eq_ok] at hparsed
    obtain ⟨first, hfirst, rest, hrest, hall⟩ := hparsed
    rw [← hall] at happly
    obtain ⟨b₁, hfirst₁, hpost⟩ := applySourceBlocks_append.mp happly
    have hsound₀ : Sound poseidon b₀ :=
      Sound.of_new hnew (parseCanonicalU64_iff.mp hok.chainId).1 (parseBlockRef_bound hok.anchor)
    obtain ⟨hsound₁, htip, hchain, hregistry, hissuer⟩ := hsound₀.applySourceBlocks hfirst₁
    obtain ⟨hchain₀, hregistry₀, hissuer₀, htip₀⟩ := new_fields hnew
    obtain ⟨checkpoint, hcheckpoint⟩ := hsound₁.exists_toJson
    obtain ⟨history, hadvance⟩ := hsound₁.applySourceBlocks_onto hsound₁.knows_tip hpost
    have hprefixOk : SourceOk { wire with blocks := blocksPrefix }
        { source with blocks := first } :=
      { hok with blocks := hfirst }
    have hsuffixOk : SourceOk { wire with
          anchor := lastRef wire.anchor blocksPrefix
          blocks := blocksSuffix }
        { source with anchor := b₁.tip, blocks := rest } :=
      { hok with
        anchor := by
          rw [htip, htip₀]
          exact parseBlockRef_lastRef hok.anchor hfirst
        blocks := hrest }
    refine ⟨checkpoint, writeResult_iff.mpr ⟨b₁, ?_, hcheckpoint⟩,
      writeResult_iff.mpr ⟨b.onto b₁.tip history, ?_, hout⟩⟩
    · simp only [bind_eq_ok]
      exact ⟨_, (parseSourceJson_iff hpre).mpr hprefixOk, b₀, hnew, hfirst₁⟩
    · simp only [bind_eq_ok, check_eq_ok]
      refine ⟨b₁.snapshot poseidon, hsound₁.fromJson_toJson hnonzero hread hcheckpoint, _,
        (parseSourceJson_iff hsuffix).mpr hsuffixOk, ?_, b₁.onto b₁.tip [],
        hsound₁.restore_snapshot hnonzero, hadvance⟩
      simp only [not_or, not_not]
      exact ⟨(hchain.trans hchain₀).symm, (hregistry.trans hregistry₀).symm,
        (hissuer.trans hissuer₀).symm, rfl⟩
  · intro snapshot b hrestore
    have hr := Restored.of_restore hrestore
    constructor
    · intro chunk hchunk bit hbit hclear
      apply hr.ok.allocated
      have hcode := isRevokedOrUnallocated_at b chunk.index hbit
      rw [PackedStatusSnapshotBuilder.isRevokedOrUnallocated, hr.chunk, hr.chunk,
        hr.ok.chunk_of_mem hchunk, hclear] at hcode
      exact hcode
    · rw [← hr.root, hr.canonical.root_eq]
      congr 1
      funext i
      exact (hr.chunk i).symm

-- A reader of the compact texts, whose fields stand in the order of the records.
section

def SnapshotChunkWire.ofJson (j : Json) : Option SnapshotChunkWire := do
  match ← j.values ["index", "value"] with
  | [index, value] =>
    let index ← index.asNum
    let value ← value.asStr
    pure ⟨index, value⟩
  | _ => none

def snapshotFields : List String :=
  ["schema", "chainId", "issuanceRegistry", "issuerKeyId", "sourceBlockNumber", "sourceBlockHash",
    "sourceBlockParentHash", "nextStatusId", "activatedThroughStatusId", "root", "chunks"]

def SnapshotWire.ofJson (j : Json) : Option SnapshotWire := do
  match ← j.values snapshotFields with
  | [schema, chainId, registry, issuer, number, hash, parent, next, activated, root, chunks] =>
    let schema ← schema.asStr
    let chainId ← chainId.asStr
    let registry ← registry.asStr
    let issuer ← issuer.asStr
    let number ← number.asStr
    let hash ← hash.asStr
    let parent ← parent.asStr
    let next ← next.asNum
    let activated ← activated.asNum
    let root ← root.asStr
    let chunks ← chunks.asArr
    let chunks ← chunks.mapM SnapshotChunkWire.ofJson
    pure ⟨schema, chainId, registry, issuer, number, hash, parent, next, activated, root, chunks⟩
  | _ => none

def BlockRefWire.ofJson (j : Json) : Option BlockRefWire := do
  match ← j.values ["number", "hash", "parentHash"] with
  | [number, hash, parent] =>
    let number ← number.asStr
    let hash ← hash.asStr
    let parent ← parent.asStr
    pure ⟨number, hash, parent⟩
  | _ => none

def EventWire.ofValues : List Json → Option EventWire
  | kind :: logIndex :: issuer :: statusId :: reference => do
    let kind ← kind.asStr
    let logIndex ← logIndex.asNum
    let issuer ← issuer.asStr
    let statusId ← statusId.asNum
    let reference ← reference.head?.mapM Json.asStr
    pure ⟨kind, logIndex, issuer, statusId, reference⟩
  | _ => none

def EventWire.ofJson (j : Json) : Option EventWire :=
  let names := ["kind", "logIndex", "issuerKeyId", "statusId"]
  ((j.values names).or (j.values (names ++ ["authorizationReference"]))).bind EventWire.ofValues

def BlockWire.ofJson (j : Json) : Option BlockWire := do
  match ← j.values ["number", "hash", "parentHash", "events"] with
  | [number, hash, parent, events] =>
    let number ← number.asStr
    let hash ← hash.asStr
    let parent ← parent.asStr
    let events ← events.asArr
    let events ← events.mapM EventWire.ofJson
    pure ⟨number, hash, parent, events⟩
  | _ => none

def SourceWire.ofJson (j : Json) : Option SourceWire := do
  match ← j.values ["schema", "chainId", "issuanceRegistry", "issuerKeyId", "anchor", "blocks"] with
  | [schema, chainId, registry, issuer, anchor, blocks] =>
    let schema ← schema.asStr
    let chainId ← chainId.asStr
    let registry ← registry.asStr
    let issuer ← issuer.asStr
    let anchor ← BlockRefWire.ofJson anchor
    let blocks ← blocks.asArr
    let blocks ← blocks.mapM BlockWire.ofJson
    pure ⟨schema, chainId, registry, issuer, anchor, blocks⟩
  | _ => none

def compactFromStr : FromStr where
  snapshot := fun text => (Json.read text).bind SnapshotWire.ofJson
  source := fun text => (Json.read text).bind SourceWire.ofJson

def BlockRefWire.json (w : BlockRefWire) : Json :=
  .obj [("number", .str w.number), ("hash", .str w.hash), ("parentHash", .str w.parentHash)]

def EventWire.json (w : EventWire) : Json :=
  .obj ([("kind", .str w.kind), ("logIndex", .num w.logIndex), ("issuerKeyId", .str w.issuerKeyId),
    ("statusId", .num w.statusId)] ++
      w.authorizationReference.toList.map fun r => ("authorizationReference", .str r))

def BlockWire.json (w : BlockWire) : Json :=
  .obj [("number", .str w.number), ("hash", .str w.hash), ("parentHash", .str w.parentHash),
    ("events", .arr (w.events.map EventWire.json))]

def SourceWire.json (w : SourceWire) : Json :=
  .obj [("schema", .str w.schema), ("chainId", .str w.chainId),
    ("issuanceRegistry", .str w.issuanceRegistry), ("issuerKeyId", .str w.issuerKeyId),
    ("anchor", w.anchor.json), ("blocks", .arr (w.blocks.map BlockWire.json))]

theorem mapM_map_eq {α β : Type} {f : β → Option α} {g : α → β} (h : ∀ a, f (g a) = some a)
    (l : List α) : (l.map g).mapM f = some l := by
  induction l with
  | nil => rfl
  | cons a l ih =>
    rw [List.map_cons, List.mapM_cons, h, ih]
    rfl

theorem SnapshotChunkWire.ofJson_json (w : SnapshotChunkWire) : ofJson w.json = some w := by
  have hvalues : w.json.values ["index", "value"] = some [.num w.index, .str w.value] :=
    Json.values_obj rfl
  rw [ofJson, hvalues]
  rfl

theorem SnapshotWire.ofJson_json (w : SnapshotWire) : ofJson w.json = some w := by
  have hvalues : w.json.values snapshotFields = some [.str w.schema, .str w.chainId,
      .str w.issuanceRegistry, .str w.issuerKeyId, .str w.sourceBlockNumber,
      .str w.sourceBlockHash, .str w.sourceBlockParentHash, .num w.nextStatusId,
      .num w.activatedThroughStatusId, .str w.root,
      .arr (w.chunks.map SnapshotChunkWire.json)] := Json.values_obj rfl
  rw [ofJson, hvalues]
  show ((w.chunks.map SnapshotChunkWire.json).mapM SnapshotChunkWire.ofJson >>= fun _ => _) = _
  rw [mapM_map_eq SnapshotChunkWire.ofJson_json]
  rfl

theorem BlockRefWire.ofJson_json (w : BlockRefWire) : ofJson w.json = some w := by
  have hvalues : w.json.values ["number", "hash", "parentHash"] =
      some [.str w.number, .str w.hash, .str w.parentHash] := Json.values_obj rfl
  rw [ofJson, hvalues]
  rfl

theorem EventWire.ofJson_json (w : EventWire) : ofJson w.json = some w := by
  obtain ⟨kind, logIndex, issuer, statusId, reference⟩ := w
  cases reference with
  | none =>
    have hvalues : (EventWire.json ⟨kind, logIndex, issuer, statusId, none⟩).values
        ["kind", "logIndex", "issuerKeyId", "statusId"] =
        some [.str kind, .num logIndex, .str issuer, .num statusId] := Json.values_obj rfl
    rw [ofJson, hvalues]
    rfl
  | some reference =>
    have hshort : (EventWire.json ⟨kind, logIndex, issuer, statusId, some reference⟩).values
        ["kind", "logIndex", "issuerKeyId", "statusId"] = none := by
      rw [json, Json.values, if_neg (by simp)]
    have hvalues : (EventWire.json ⟨kind, logIndex, issuer, statusId, some reference⟩).values
        (["kind", "logIndex", "issuerKeyId", "statusId"] ++ ["authorizationReference"]) =
        some [.str kind, .num logIndex, .str issuer, .num statusId, .str reference] :=
      Json.values_obj rfl
    rw [ofJson, hshort, hvalues]
    rfl

theorem BlockWire.ofJson_json (w : BlockWire) : ofJson w.json = some w := by
  have hvalues : w.json.values ["number", "hash", "parentHash", "events"] =
      some [.str w.number, .str w.hash, .str w.parentHash,
        .arr (w.events.map EventWire.json)] := Json.values_obj rfl
  rw [ofJson, hvalues]
  simp only [Option.bind_eq_bind, Option.bind_some, Json.asStr, Json.asArr,
    mapM_map_eq EventWire.ofJson_json]
  rfl

theorem SourceWire.ofJson_json (w : SourceWire) : ofJson w.json = some w := by
  have hvalues : w.json.values
      ["schema", "chainId", "issuanceRegistry", "issuerKeyId", "anchor", "blocks"] =
      some [.str w.schema, .str w.chainId, .str w.issuanceRegistry, .str w.issuerKeyId,
        w.anchor.json, .arr (w.blocks.map BlockWire.json)] := Json.values_obj rfl
  rw [ofJson, hvalues]
  simp only [Option.bind_eq_bind, Option.bind_some, Json.asStr, Json.asArr,
    BlockRefWire.ofJson_json, mapM_map_eq BlockWire.ofJson_json]
  rfl

theorem compactFromStr_readsBack : compactFromStr.ReadsBack := by
  intro w _
  rw [compactFromStr]
  simp only [Json.read_compact, Option.bind_some, SnapshotWire.ofJson_json]

theorem compactFromStr_source (w : SourceWire) :
    compactFromStr.source w.json.compact = some w := by
  rw [compactFromStr]
  simp only [Json.read_compact, Option.bind_some, SourceWire.ofJson_json]

end

-- A transcript of the sample block and one more that allocates an id and revokes another.
def sampleBlockWire : BlockWire :=
  { number := (101).repr
    hash := bytesToHex 2#256
    parentHash := bytesToHex 1#256
    events :=
      [⟨"credential-allocated", 0, bytesToHex 0x22#256, 1, none⟩,
        ⟨"credential-allocated", 1, bytesToHex 0x22#256, 2, none⟩,
        ⟨"credential-revoked", 2, bytesToHex 0x22#256, 1, some (bytesToHex 9#256)⟩] }

def sampleSuffixWire : BlockWire :=
  { number := (102).repr
    hash := bytesToHex 3#256
    parentHash := bytesToHex 2#256
    events :=
      [⟨"credential-allocated", 0, bytesToHex 0x22#256, 3, none⟩,
        ⟨"credential-revoked", 1, bytesToHex 0x22#256, 2, some (bytesToHex 8#256)⟩] }

def sampleSource : SourceWire :=
  { schema := PACKED_STATUS_SOURCE_SCHEMA
    chainId := (84532).repr
    issuanceRegistry := bytesToHex 0x11#160
    issuerKeyId := bytesToHex 0x22#256
    anchor := ⟨(100).repr, bytesToHex 1#256, bytesToHex 0#256⟩
    blocks := [sampleBlockWire, sampleSuffixWire] }

def sampleSuffix : FinalizedStatusBlock :=
  ⟨⟨102, 3#256, 2#256⟩,
    [.CredentialAllocated 0 0x22#256 3, .CredentialRevoked 1 0x22#256 2 8#256]⟩

def sampleBlocks : List FinalizedStatusBlock := [sampleBlock, sampleSuffix]

theorem sourceOk_sample : SourceOk sampleSource
    ⟨84532, 0x11#160, 0x22#256, ⟨100, 1#256, 0#256⟩, sampleBlocks⟩ := by
  have hnumber : ∀ n, n ≤ U64_MAX → parseCanonicalU64 n.repr = .ok n :=
    fun n hn => parseCanonicalU64_iff.mpr ⟨hn, rfl⟩
  have hhash : ∀ x : Hash, bytesFromHex 256 (bytesToHex x) = .ok x :=
    fun x => (bytesFromHex_iff (by decide)).mpr rfl
  have href : ∀ n (h p : Hash), n ≤ U64_MAX →
      parseBlockRef ⟨n.repr, bytesToHex h, bytesToHex p⟩ = .ok ⟨n, h, p⟩ := by
    intro n h p hn
    rw [parseBlockRef, hnumber n hn, hhash, hhash]
    rfl
  have hblock : parseBlock sampleBlockWire = .ok sampleBlock := by
    have hevents : sampleBlockWire.events.mapM parseEvent = .ok sampleBlock.events := by
      simp only [sampleBlockWire, List.mapM_cons, List.mapM_nil, parseEvent, hhash]
      rfl
    rw [parseBlock, hevents]
    simp only [BlockWire.ref, sampleBlockWire, href 101 _ _ (by decide)]
    rfl
  refine ⟨rfl, hnumber _ (by decide), (bytesFromHex_iff (by decide)).mpr rfl, hhash _,
    href 100 _ _ (by decide), ?_⟩
  have hsuffix : parseBlock sampleSuffixWire = .ok sampleSuffix := by
    have hevents : sampleSuffixWire.events.mapM parseEvent = .ok sampleSuffix.events := by
      simp only [sampleSuffixWire, List.mapM_cons, List.mapM_nil, parseEvent, hhash]
      rfl
    rw [parseBlock, hevents]
    simp only [BlockWire.ref, sampleSuffixWire, href 102 _ _ (by decide)]
    rfl
  simp only [sampleSource, List.mapM_cons, List.mapM_nil, hblock, hsuffix]
  rfl

theorem exists_build_sample : ∃ out,
    buildPackedStatusSnapshotFromJson samplePoseidon compactFromStr
      sampleSource.json.compact = some (.ok out) := by
  have hok : (applySourceBlocks samplePoseidon sampleBuilder sampleBlocks).isOk = true := by
    decide
  cases happly : applySourceBlocks samplePoseidon sampleBuilder sampleBlocks with
  | error error =>
    rw [happly] at hok
    cases hok
  | ok b =>
    have hnew : new 84532 0x11#160 0x22#256 ⟨100, 1#256, 0#256⟩ = .ok sampleBuilder := rfl
    have hsound : Sound samplePoseidon sampleBuilder :=
      Sound.of_new hnew (by decide) (by decide)
    obtain ⟨out, hout⟩ := (hsound.applySourceBlocks happly).1.exists_toJson
    refine ⟨out, writeResult_iff.mpr ⟨b, ?_, hout⟩⟩
    simp only [bind_eq_ok]
    exact ⟨_, (parseSourceJson_iff (compactFromStr_source _)).mpr sourceOk_sample,
      sampleBuilder, hnew, happly⟩

theorem checkpoint_transparent_sample :
    ∃ checkpoint out,
      buildPackedStatusSnapshotFromJson samplePoseidon compactFromStr
        sampleSource.json.compact = some (.ok out) ∧
      advancePackedStatusSnapshotFromJson samplePoseidon compactFromStr checkpoint
        (SourceWire.json { sampleSource with
          anchor := lastRef sampleSource.anchor (sampleSource.blocks.take 1)
          blocks := sampleSource.blocks.drop 1 }).compact = some (.ok out) := by
  have hnonzero : ∀ left right, registryNode samplePoseidon left right ≠ 0 := by
    intro left right
    have hfive : registryNode samplePoseidon left right = Fin.ofNat BN254_FR 5 := rfl
    rw [hfive]
    decide
  obtain ⟨out, hout⟩ := exists_build_sample
  obtain ⟨checkpoint, -, hadvance⟩ :=
    (checkpoint_transparent hnonzero compactFromStr_readsBack).1 _ _ _ out sampleSource
      (sampleSource.blocks.take 1) (sampleSource.blocks.drop 1) rfl
      (compactFromStr_source _) (compactFromStr_source _) (compactFromStr_source _) hout
  exact ⟨checkpoint, out, hout, hadvance⟩

end Ubi2.StatusSnapshot
