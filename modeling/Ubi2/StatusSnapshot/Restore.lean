import Ubi2.StatusSnapshot.Tree

namespace Ubi2.StatusSnapshot

open Ubi2.Runtime Ubi2.Lib

private theorem getLsbD_lowBitsMask (count : Nat) {i : Nat} (hi : i < 128) :
    (lowBitsMask count).getLsbD i = decide (i < count) := by
  rw [lowBitsMask]
  by_cases hcount : count ≥ 128
  · rw [if_pos hcount, BitVec.getLsbD_allOnes]
    simp only [hi, decide_true]
    exact (decide_eq_true (by omega)).symm
  · have hpos : 0 < 2 ^ count := Nat.two_pow_pos count
    have hlt : 2 ^ count < 2 ^ 128 := Nat.pow_lt_pow_right (by omega) (by omega)
    have hone : (1#128 <<< count).toNat = 2 ^ count := by
      rw [← BitVec.twoPow_eq, BitVec.toNat_twoPow_of_lt (by omega)]
    have hmask : (1#128 <<< count - 1#128).toNat = 2 ^ count - 1 := by
      rw [BitVec.toNat_sub_of_le, hone]
      · rfl
      · rw [BitVec.le_def, hone]
        exact hpos
    rw [if_neg hcount, ← BitVec.testBit_toNat, hmask, Nat.testBit_two_pow_sub_one]

private theorem and_not_eq_not_iff {x mask : U128} :
    x &&& ~~~mask = ~~~mask ↔ ∀ i < 128, mask.getLsbD i = false → x.getLsbD i = true := by
  constructor
  · intro h i hi hmask
    have hbit := congrArg (fun y : U128 => y.getLsbD i) h
    simpa only [BitVec.getLsbD_and, BitVec.getLsbD_not, hi, hmask, decide_true, Bool.not_false,
      Bool.and_true] using hbit
  · intro h
    apply BitVec.eq_of_getLsbD_eq
    intro i hi
    rw [BitVec.getLsbD_and, BitVec.getLsbD_not]
    cases hmask : mask.getLsbD i with
    | true => simp
    | false => simp [h i hi hmask]

private theorem eq_allOnes_iff {x : U128} :
    x = BitVec.allOnes 128 ↔ ∀ i < 128, x.getLsbD i = true := by
  constructor
  · rintro rfl i hi
    rw [BitVec.getLsbD_allOnes, decide_eq_true hi]
  · intro h
    apply BitVec.eq_of_getLsbD_eq
    intro i hi
    rw [h i hi, BitVec.getLsbD_allOnes, decide_eq_true hi]

-- The tail after a bit is closed when every bit after it is set.
theorem unallocatedTailIsFailClosed_iff {chunk : PackedStatusChunk} {lastBit : Nat}
    (hlast : lastBit < 256) :
    unallocatedTailIsFailClosed chunk lastBit = true ↔
      ∀ bit < 256, lastBit < bit → chunk.isRevokedOrUnallocated bit = true := by
  rw [unallocatedTailIsFailClosed]
  by_cases hlow : lastBit < 128
  · simp only [if_pos hlow, decide_eq_true_eq, and_not_eq_not_iff, eq_allOnes_iff]
    constructor
    · rintro ⟨hl, hh⟩ bit hbit hafter
      rw [PackedStatusChunk.isRevokedOrUnallocated_eq]
      by_cases hside : bit < 128
      · rw [if_pos hside]
        apply hl bit hside
        rw [getLsbD_lowBitsMask _ hside]
        exact decide_eq_false (by omega)
      · rw [if_neg hside]
        exact hh (bit - 128) (by omega)
    · intro h
      constructor
      · intro i hi hmask
        rw [getLsbD_lowBitsMask _ hi, decide_eq_false_iff_not] at hmask
        have hbit := h i (by omega) (by omega)
        rwa [PackedStatusChunk.isRevokedOrUnallocated_eq, if_pos hi] at hbit
      · intro i hi
        have hbit := h (i + 128) (by omega) (by omega)
        rwa [PackedStatusChunk.isRevokedOrUnallocated_eq, if_neg (by omega),
          Nat.add_sub_cancel] at hbit
  · simp only [if_neg hlow, decide_eq_true_eq, and_not_eq_not_iff]
    constructor
    · intro hh bit hbit hafter
      rw [PackedStatusChunk.isRevokedOrUnallocated_eq, if_neg (by omega)]
      apply hh (bit - 128) (by omega)
      rw [getLsbD_lowBitsMask _ (by omega)]
      exact decide_eq_false (by omega)
    · intro h i hi hmask
      rw [getLsbD_lowBitsMask _ hi, decide_eq_false_iff_not] at hmask
      have hbit := h (i + 128) (by omega) (by omega)
      rwa [PackedStatusChunk.isRevokedOrUnallocated_eq, if_neg (by omega),
        Nat.add_sub_cancel] at hbit

-- What each chunk of an accepted snapshot has passed.
structure ChunkOk (lastChunk lastBit : Nat) (chunk : PackedStatusSnapshotChunk) : Prop where
  bound : chunk.index ≤ MAX_CHUNK_INDEX
  stored : chunk.value ≠ PackedStatusChunk.FAIL_CLOSED
  last : chunk.index ≤ lastChunk
  zero : chunk.index = 0 → chunk.value.isRevokedOrUnallocated 0 = true
  tail : chunk.index = lastChunk → unallocatedTailIsFailClosed chunk.value lastBit = true

private theorem sorted_cons_iff {previous : Option Nat} {chunk : PackedStatusSnapshotChunk}
    {chunks : List PackedStatusSnapshotChunk} :
    ((∀ p ∈ previous, p < chunk.index) ∧ (∀ c ∈ chunks, chunk.index < c.index) ∧
      chunks.Pairwise (fun c d => c.index < d.index)) ↔
    ((∀ p ∈ previous, ∀ c ∈ chunk :: chunks, p < c.index) ∧
      (chunk :: chunks).Pairwise (fun c d => c.index < d.index)) := by
  rw [List.pairwise_cons]
  constructor
  · rintro ⟨hp, hc, hs⟩
    refine ⟨?_, hc, hs⟩
    intro p hmem c hcmem
    cases List.mem_cons.mp hcmem with
    | inl heq => exact heq ▸ hp p hmem
    | inr hin => exact (hp p hmem).trans (hc c hin)
  · rintro ⟨hp, hc, hs⟩
    exact ⟨fun p hmem => hp p hmem chunk List.mem_cons_self, hc, hs⟩

-- The loop accepts the chunks that are sorted and each in order.
theorem validateChunks_iff {lastChunk lastBit : Nat} {previous : Option Nat}
    {chunks : List PackedStatusSnapshotChunk} :
    validateChunks lastChunk lastBit previous chunks = .ok () ↔
      (∀ chunk ∈ chunks, ChunkOk lastChunk lastBit chunk) ∧
      (∀ p ∈ previous, ∀ c ∈ chunks, p < c.index) ∧
      chunks.Pairwise (fun c d => c.index < d.index) := by
  induction chunks generalizing previous with
  | nil => simp [validateChunks]
  | cons chunk chunks ih =>
    rw [validateChunks, ← sorted_cons_iff, List.forall_mem_cons]
    have hprevious : (previous.any fun p => decide (chunk.index ≤ p)) = false ↔
        ∀ p ∈ previous, p < chunk.index := by
      cases previous <;> simp
    constructor
    · intro h
      split at h
      · cases h
      split at h
      · cases h
      split at h
      · cases h
      rename_i hbound hzero htail
      obtain ⟨hrest, hafter, hsorted⟩ := ih.mp h
      simp only [not_or, not_lt, Bool.not_eq_true] at hbound
      obtain ⟨hb, hp, hs, hl⟩ := hbound
      refine ⟨⟨⟨hb, hs, hl, ?_, ?_⟩, hrest⟩, hprevious.mp hp,
        fun c hc => hafter chunk.index rfl c hc, hsorted⟩
      · intro h0
        by_contra hclear
        exact hzero ⟨h0, hclear⟩
      · intro hlast
        by_contra hopen
        exact htail ⟨hlast, hopen⟩
    · rintro ⟨⟨hok, hrest⟩, hp, hafter, hsorted⟩
      rw [if_neg, if_neg, if_neg, ih]
      · refine ⟨hrest, ?_, hsorted⟩
        intro p hmem c hc
        cases hmem
        exact hafter c hc
      · rintro ⟨hlast, hopen⟩
        exact hopen (hok.tail hlast)
      · rintro ⟨h0, hclear⟩
        exact hclear (hok.zero h0)
      · rintro (hb | hp' | hs | hl)
        · exact absurd hok.bound (by omega)
        · rw [hprevious.mpr hp] at hp'
          cases hp'
        · exact hok.stored hs
        · exact absurd hok.last (by omega)

-- What an accepted snapshot has passed.
structure SnapshotOk (snapshot : PackedStatusSnapshot) : Prop where
  schema : snapshot.schema = PACKED_STATUS_SNAPSHOT_SCHEMA
  chainId : snapshot.chainId ≠ 0
  issuanceRegistry : snapshot.issuanceRegistry ≠ ZERO_ADDRESS
  issuerKeyId : snapshot.issuerKeyId ≠ ZERO_HASH
  source : snapshot.source.hash ≠ ZERO_HASH
  nextPos : snapshot.nextStatusId ≠ 0
  nextBound : snapshot.nextStatusId ≤ MAX_NEXT_STATUS_ID
  root : snapshot.root ≠ 0
  empty : snapshot.nextStatusId = 1 → snapshot.chunks = []
  chunks : ∀ chunk ∈ snapshot.chunks,
    ChunkOk ((snapshot.nextStatusId - 1) >>> 8) ((snapshot.nextStatusId - 1) &&& 0xff) chunk
  sorted : snapshot.chunks.Pairwise (fun c d => c.index < d.index)

theorem validateSnapshot_iff {snapshot : PackedStatusSnapshot} :
    validateSnapshot snapshot = .ok () ↔ SnapshotOk snapshot := by
  rw [validateSnapshot]
  constructor
  · intro h
    split at h
    · cases h
    split at h
    · cases h
    simp only at h
    split at h
    · cases h
    rename_i hfields hempty _
    simp only [not_or, not_lt, ne_eq, not_not] at hfields
    obtain ⟨hschema, hchain, hregistry, hissuer, hsource, hpos, hbound, hroot⟩ := hfields
    obtain ⟨hchunks, -, hsorted⟩ := validateChunks_iff.mp h
    refine ⟨hschema, hchain, hregistry, hissuer, hsource, hpos, hbound, hroot, ?_, hchunks,
      hsorted⟩
    intro hone
    by_contra hne
    exact hempty ⟨hone, hne⟩
  · intro h
    have hbound := h.nextBound
    have hlast : (snapshot.nextStatusId - 1) >>> 8 ≤ U32_MAX := by
      rw [Nat.shiftRight_eq_div_pow, U32_MAX]
      rw [MAX_NEXT_STATUS_ID] at hbound
      omega
    rw [if_neg, if_neg]
    · simp only
      rw [if_neg (by omega), validateChunks_iff]
      exact ⟨h.chunks, by simp, h.sorted⟩
    · rintro ⟨hone, hne⟩
      exact hne (h.empty hone)
    · simp only [not_or, not_lt, ne_eq, not_not]
      exact ⟨h.schema, h.chainId, h.issuanceRegistry, h.issuerKeyId, h.source, h.nextPos,
        h.nextBound, h.root⟩

-- The chunk of an index that a snapshot records; an omitted one is all ones.
def PackedStatusSnapshot.chunk (snapshot : PackedStatusSnapshot) (index : Nat) :
    PackedStatusChunk :=
  ((snapshot.chunks.find? fun chunk => chunk.index = index).map fun chunk => chunk.value).getD
    PackedStatusChunk.FAIL_CLOSED

def PackedStatusSnapshot.isRevokedOrUnallocated (snapshot : PackedStatusSnapshot)
    (statusId : Nat) : Bool :=
  (snapshot.chunk (statusId >>> 8)).isRevokedOrUnallocated (statusId &&& 0xff)

theorem SnapshotOk.chunk_of_mem {snapshot : PackedStatusSnapshot} (h : SnapshotOk snapshot)
    {chunk : PackedStatusSnapshotChunk} (hchunk : chunk ∈ snapshot.chunks) :
    snapshot.chunk chunk.index = chunk.value := by
  let table : Table PackedStatusSnapshotChunk.index := ⟨snapshot.chunks, h.sorted⟩
  have hfind : (snapshot.chunks.find? fun c => c.index = chunk.index) = some chunk :=
    Table.get_of_mem (t := table) hchunk
  rw [PackedStatusSnapshot.chunk, hfind]
  rfl

-- No bit is clear outside the allocated ids.
theorem SnapshotOk.allocated {snapshot : PackedStatusSnapshot} (h : SnapshotOk snapshot)
    {statusId : Nat} (hclear : snapshot.isRevokedOrUnallocated statusId = false) :
    statusId ≠ 0 ∧ statusId < snapshot.nextStatusId := by
  have hid := PackedStatusSnapshotBuilder.statusId_eq statusId
  have hbit := PackedStatusSnapshotBuilder.bit_lt statusId
  have hlast := PackedStatusSnapshotBuilder.statusId_eq (snapshot.nextStatusId - 1)
  have hlastBit := PackedStatusSnapshotBuilder.bit_lt (snapshot.nextStatusId - 1)
  have hpos := h.nextPos
  rw [PackedStatusSnapshot.isRevokedOrUnallocated, PackedStatusSnapshot.chunk] at hclear
  cases hfind : snapshot.chunks.find? fun chunk => chunk.index = statusId >>> 8 with
  | none =>
    rw [hfind] at hclear
    rw [Option.map_none, Option.getD_none,
      PackedStatusChunk.isRevokedOrUnallocated_FAIL_CLOSED hbit] at hclear
    cases hclear
  | some chunk =>
    rw [hfind] at hclear
    rw [Option.map_some, Option.getD_some] at hclear
    have hok := h.chunks chunk (List.mem_of_find?_eq_some hfind)
    have hindex : chunk.index = statusId >>> 8 := by simpa using List.find?_some hfind
    constructor
    · rintro rfl
      have hset := hok.zero hindex
      rw [show 0 &&& 0xff = 0 from rfl, hset] at hclear
      cases hclear
    · have hle := hok.last
      by_cases hat : chunk.index = (snapshot.nextStatusId - 1) >>> 8
      · have htail := (unallocatedTailIsFailClosed_iff hlastBit).mp (hok.tail hat)
          (statusId &&& 0xff) hbit
        have hnot : ¬(snapshot.nextStatusId - 1) &&& 0xff < statusId &&& 0xff := by
          intro hafter
          rw [htail hafter] at hclear
          cases hclear
        omega
      · omega

namespace PackedStatusSnapshotBuilder

variable {poseidon : Poseidon} {b : PackedStatusSnapshotBuilder}

def setChunks (poseidon : Poseidon) (b : PackedStatusSnapshotBuilder)
    (chunks : List PackedStatusSnapshotChunk) : PackedStatusSnapshotBuilder :=
  chunks.foldl (fun b chunk => b.setChunk poseidon chunk.index chunk.value) b

theorem chunk_setChunks {chunks : List PackedStatusSnapshotChunk}
    (hsorted : chunks.Pairwise (fun c d => c.index < d.index)) (i : Nat) :
    (b.setChunks poseidon chunks).chunk i =
      ((chunks.find? fun chunk => chunk.index = i).map fun chunk => chunk.value).getD
        (b.chunk i) := by
  induction chunks generalizing b with
  | nil => rfl
  | cons chunk chunks ih =>
    obtain ⟨hafter, hrest⟩ := List.pairwise_cons.mp hsorted
    rw [setChunks, List.foldl_cons, ← setChunks, ih hrest, chunk_setChunk, List.find?_cons]
    by_cases hi : i = chunk.index
    · have hnone : (chunks.find? fun c => c.index = i) = none := by
        rw [List.find?_eq_none]
        intro c hc
        have hlt := hafter c hc
        simp only [decide_eq_true_eq]
        omega
      rw [hnone, if_pos hi, decide_eq_true hi.symm]
      rfl
    · rw [if_neg hi, decide_eq_false (Ne.symm hi)]

-- What a restored checkpoint is: accepted, its own anchor, with the chunks and the root
-- that it records.
structure Restored (poseidon : Poseidon) (snapshot : PackedStatusSnapshot)
    (b : PackedStatusSnapshotBuilder) : Prop where
  ok : SnapshotOk snapshot
  canonical : Canonical poseidon b
  chunk : ∀ i, b.chunk i = snapshot.chunk i
  root : b.root poseidon = snapshot.root
  chainId : b.chainId = snapshot.chainId
  issuanceRegistry : b.issuanceRegistry = snapshot.issuanceRegistry
  issuerKeyId : b.issuerKeyId = snapshot.issuerKeyId
  nextStatusId : b.nextStatusId = snapshot.nextStatusId
  anchor : b.anchor = snapshot.source
  tip : b.tip = snapshot.source
  history : b.history = []

private theorem setChunks_fields (poseidon : Poseidon) (b : PackedStatusSnapshotBuilder)
    (chunks : List PackedStatusSnapshotChunk) :
    ∃ t n, b.setChunks poseidon chunks = { b with chunks := t, nodes := n } := by
  induction chunks generalizing b with
  | nil => exact ⟨b.chunks, b.nodes, rfl⟩
  | cons chunk chunks ih =>
    obtain ⟨t, n, h⟩ := ih (b.setChunk poseidon chunk.index chunk.value)
    exact ⟨t, n, h⟩

-- The builder that `restore` compares with the recorded root.
def rebuilt (poseidon : Poseidon) (snapshot : PackedStatusSnapshot) :
    PackedStatusSnapshotBuilder :=
  setChunks poseidon
    { chainId := snapshot.chainId
      issuanceRegistry := snapshot.issuanceRegistry
      issuerKeyId := snapshot.issuerKeyId
      anchor := snapshot.source
      tip := snapshot.source
      nextStatusId := snapshot.nextStatusId
      chunks := ∅
      nodes := ∅
      history := [] } snapshot.chunks

theorem rebuilt_fields (poseidon : Poseidon) (snapshot : PackedStatusSnapshot) :
    ∃ t n, rebuilt poseidon snapshot =
      { chainId := snapshot.chainId
        issuanceRegistry := snapshot.issuanceRegistry
        issuerKeyId := snapshot.issuerKeyId
        anchor := snapshot.source
        tip := snapshot.source
        nextStatusId := snapshot.nextStatusId
        chunks := t
        nodes := n
        history := [] } :=
  setChunks_fields poseidon _ snapshot.chunks

theorem canonical_rebuilt (poseidon : Poseidon) (snapshot : PackedStatusSnapshot) :
    Canonical poseidon (rebuilt poseidon snapshot) :=
  (Canonical.of_empty rfl rfl).foldl_setChunk

theorem chunk_rebuilt {snapshot : PackedStatusSnapshot}
    (hsorted : snapshot.chunks.Pairwise (fun c d => c.index < d.index)) (i : Nat) :
    (rebuilt poseidon snapshot).chunk i = snapshot.chunk i :=
  chunk_setChunks hsorted i

theorem restore_iff {snapshot : PackedStatusSnapshot} :
    restore poseidon snapshot = .ok b ↔
      SnapshotOk snapshot ∧ b = rebuilt poseidon snapshot ∧
        b.root poseidon = snapshot.root := by
  have hrestore : SnapshotOk snapshot → restore poseidon snapshot =
      if (rebuilt poseidon snapshot).root poseidon ≠ snapshot.root then
        .error .SnapshotRootMismatch
      else .ok (rebuilt poseidon snapshot) := by
    intro hok
    have hnew : ¬(snapshot.chainId = 0 ∨ snapshot.issuanceRegistry = ZERO_ADDRESS ∨
        snapshot.issuerKeyId = ZERO_HASH ∨ snapshot.source.hash = ZERO_HASH) := by
      simp [hok.chainId, hok.issuanceRegistry, hok.issuerKeyId, hok.source]
    rw [restore, validateSnapshot_iff.mpr hok, new, if_neg hnew]
    rfl
  constructor
  · intro h
    have hok : SnapshotOk snapshot := by
      rw [← validateSnapshot_iff]
      rw [restore] at h
      cases hvalid : validateSnapshot snapshot with
      | ok u => rfl
      | error error =>
        rw [hvalid] at h
        cases h
    rw [hrestore hok] at h
    split at h
    · cases h
    · rename_i hroot
      cases h
      exact ⟨hok, rfl, not_not.mp hroot⟩
  · rintro ⟨hok, rfl, hroot⟩
    rw [hrestore hok, if_neg (not_not.mpr hroot)]

theorem Restored.of_restore {snapshot : PackedStatusSnapshot}
    (h : restore poseidon snapshot = .ok b) : Restored poseidon snapshot b := by
  obtain ⟨hok, rfl, hroot⟩ := restore_iff.mp h
  obtain ⟨t, n, hfields⟩ := rebuilt_fields poseidon snapshot
  exact
    { ok := hok
      canonical := canonical_rebuilt poseidon snapshot
      chunk := chunk_rebuilt hok.sorted
      root := hroot
      chainId := by rw [hfields]
      issuanceRegistry := by rw [hfields]
      issuerKeyId := by rw [hfields]
      nextStatusId := by rw [hfields]
      anchor := by rw [hfields]
      tip := by rw [hfields]
      history := by rw [hfields] }

end PackedStatusSnapshotBuilder

end Ubi2.StatusSnapshot
