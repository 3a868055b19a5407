import Ubi2.StatusSnapshot.Builder

namespace Ubi2.StatusSnapshot

open Ubi2.Runtime Ubi2.Lib

namespace PackedStatusChunk

private theorem and_bit_ne_zero (limb : U128) (bit : Nat) :
    decide (limb &&& (1#128 <<< bit) ≠ 0#128) = limb.getLsbD bit := by
  rw [← BitVec.twoPow_eq, BitVec.and_twoPow]
  cases h : limb.getLsbD bit with
  | false => simp
  | true =>
    have hbit : bit < 128 := BitVec.lt_of_getLsbD h
    have hset : (BitVec.twoPow 128 bit).getLsbD bit = true := by
      rw [BitVec.getLsbD_twoPow]
      simp [hbit]
    have hne : BitVec.twoPow 128 bit ≠ 0#128 := by
      intro hzero
      rw [hzero, BitVec.getLsbD_zero] at hset
      cases hset
    simp [hne]

theorem isRevokedOrUnallocated_eq (chunk : PackedStatusChunk) (bit : Nat) :
    chunk.isRevokedOrUnallocated bit =
      if bit < 128 then chunk.low.getLsbD bit else chunk.high.getLsbD (bit - 128) := by
  rw [isRevokedOrUnallocated]
  split <;> exact and_bit_ne_zero _ _

private theorem getLsbD_setLimbBit (limb : U128) (value : Bool) {bit other : Nat}
    (hbit : bit < 128) (hother : other < 128) :
    (setLimbBit limb bit value).getLsbD other =
      if other = bit then value else limb.getLsbD other := by
  rw [setLimbBit, ← BitVec.twoPow_eq]
  cases value with
  | true =>
    rw [if_pos rfl, BitVec.getLsbD_or, BitVec.getLsbD_twoPow]
    by_cases h : other = bit
    · simp [h, hbit]
    · simp [h, Ne.symm h]
  | false =>
    rw [if_neg Bool.false_ne_true, BitVec.getLsbD_and, BitVec.getLsbD_not, BitVec.getLsbD_twoPow]
    by_cases h : other = bit
    · simp [h, hbit]
    · simp [h, Ne.symm h, hother]

-- Marking a status changes its own bit only.
theorem isRevokedOrUnallocated_withFailClosedBit (chunk : PackedStatusChunk) (value : Bool)
    {bit other : Nat} (hbit : bit < 256) (hother : other < 256) :
    (chunk.withFailClosedBit bit value).isRevokedOrUnallocated other =
      if other = bit then value else chunk.isRevokedOrUnallocated other := by
  rw [isRevokedOrUnallocated_eq, isRevokedOrUnallocated_eq, withFailClosedBit]
  by_cases hlow : bit < 128
  · rw [if_pos hlow]
    by_cases hlow' : other < 128
    · rw [if_pos hlow', if_pos hlow', getLsbD_setLimbBit _ _ hlow hlow']
    · rw [if_neg hlow', if_neg hlow', if_neg (by omega)]
  · rw [if_neg hlow]
    by_cases hlow' : other < 128
    · rw [if_pos hlow', if_pos hlow', if_neg (by omega)]
    · rw [if_neg hlow', if_neg hlow', getLsbD_setLimbBit _ _ (by omega) (by omega)]
      by_cases heq : other = bit
      · rw [if_pos heq, if_pos (by omega)]
      · rw [if_neg heq, if_neg (by omega)]

theorem isRevokedOrUnallocated_FAIL_CLOSED {bit : Nat} (h : bit < 256) :
    FAIL_CLOSED.isRevokedOrUnallocated bit = true := by
  rw [isRevokedOrUnallocated_eq, FAIL_CLOSED, BitVec.getLsbD_allOnes, BitVec.getLsbD_allOnes]
  split <;> exact decide_eq_true (by omega)

-- The bits of a chunk determine it.
theorem ext_bits {c d : PackedStatusChunk}
    (h : ∀ bit < 256, c.isRevokedOrUnallocated bit = d.isRevokedOrUnallocated bit) : c = d := by
  obtain ⟨low, high⟩ := c
  obtain ⟨low', high'⟩ := d
  have hlow : low = low' := by
    apply BitVec.eq_of_getLsbD_eq
    intro i hi
    have hbit := h i (by omega)
    rwa [isRevokedOrUnallocated_eq, isRevokedOrUnallocated_eq, if_pos hi, if_pos hi] at hbit
  have hhigh : high = high' := by
    apply BitVec.eq_of_getLsbD_eq
    intro i hi
    have hbit := h (i + 128) (by omega)
    rwa [isRevokedOrUnallocated_eq, isRevokedOrUnallocated_eq, if_neg (by omega),
      if_neg (by omega), Nat.add_sub_cancel] at hbit
  rw [hlow, hhigh]

end PackedStatusChunk

-- The root of the complete tree over all chunks.
def completeRoot (poseidon : Poseidon) (chunk : Nat → PackedStatusChunk) : StatusField :=
  SparseTree.dense (registryNode poseidon)
    (fun index => packedStatusLeafNative poseidon (chunk index).fields) PACKED_STATUS_DEPTH 0

namespace PackedStatusSnapshotBuilder

-- The chunk and the bit of a status id.
theorem statusId_eq (statusId : Nat) :
    statusId = 256 * (statusId >>> 8) + (statusId &&& 0xff) := by
  have hand : statusId &&& 0xff = statusId % 2 ^ 8 := Nat.and_two_pow_sub_one_eq_mod statusId 8
  rw [hand, Nat.shiftRight_eq_div_pow]
  omega

theorem bit_lt (statusId : Nat) : statusId &&& 0xff < 256 := by
  have hand : statusId &&& 0xff = statusId % 2 ^ 8 := Nat.and_two_pow_sub_one_eq_mod statusId 8
  omega

def isRevokedOrUnallocated (b : PackedStatusSnapshotBuilder) (statusId : Nat) : Bool :=
  (b.chunk (statusId >>> 8)).isRevokedOrUnallocated (statusId &&& 0xff)

theorem isRevokedOrUnallocated_at (b : PackedStatusSnapshotBuilder) (index : Nat) {bit : Nat}
    (hbit : bit < 256) :
    b.isRevokedOrUnallocated (256 * index + bit) =
      (b.chunk index).isRevokedOrUnallocated bit := by
  have hid := statusId_eq (256 * index + bit)
  have hlow := bit_lt (256 * index + bit)
  rw [isRevokedOrUnallocated, show (256 * index + bit) >>> 8 = index by omega,
    show (256 * index + bit) &&& 0xff = bit by omega]

variable {poseidon : Poseidon} {b b' : PackedStatusSnapshotBuilder}

theorem chunk_setChunk (index : Nat) (c : PackedStatusChunk) (i : Nat) :
    (b.setChunk poseidon index c).chunk i = if i = index then c else b.chunk i := by
  rw [chunk, chunk, setChunk]
  by_cases hdefault : c = PackedStatusChunk.FAIL_CLOSED
  · simp only [if_pos hdefault, Table.get_erase]
    by_cases hi : i = index
    · simp [hi, hdefault]
    · simp [hi]
  · simp only [if_neg hdefault, Table.get_put]
    by_cases hi : i = index
    · simp [hi]
    · simp [hi, Ne.symm hi]

variable (poseidon) in
-- The store of nodes is that of the chunks, and no default is stored.
structure Canonical (b : PackedStatusSnapshotBuilder) : Prop where
  nodes : SparseTree.Holds (defaults poseidon) PACKED_STATUS_DEPTH b.nodes
    (SparseTree.dense (registryNode poseidon)
      fun index => packedStatusLeafNative poseidon (b.chunk index).fields)
  chunks : ∀ row ∈ b.chunks.rows, row.2 ≠ PackedStatusChunk.FAIL_CLOSED

theorem Canonical.congr (h : Canonical poseidon b) (hchunks : b'.chunks = b.chunks)
    (hnodes : b'.nodes = b.nodes) : Canonical poseidon b' := by
  have hchunk : b'.chunk = b.chunk := by
    funext i
    rw [chunk, chunk, hchunks]
  constructor
  · rw [hnodes, hchunk]
    exact h.nodes
  · rw [hchunks]
    exact h.chunks

theorem Canonical.setChunk (h : Canonical poseidon b) (index : Nat) (c : PackedStatusChunk) :
    Canonical poseidon (b.setChunk poseidon index c) := by
  constructor
  · have hleaf : (fun i => packedStatusLeafNative poseidon
          ((b.setChunk poseidon index c).chunk i).fields) =
        Function.update (fun i => packedStatusLeafNative poseidon (b.chunk i).fields) index
          (packedStatusLeafNative poseidon c.fields) := by
      funext i
      rw [chunk_setChunk]
      by_cases hi : i = index
      · rw [if_pos hi, hi, Function.update_self]
      · rw [if_neg hi, Function.update_of_ne hi]
    rw [hleaf]
    exact h.nodes.update index _
  · intro row hrow
    by_cases hdefault : c = PackedStatusChunk.FAIL_CLOSED
    · simp only [PackedStatusSnapshotBuilder.setChunk, if_pos hdefault] at hrow
      exact h.chunks row (Table.mem_filter.mp hrow).1
    · simp only [PackedStatusSnapshotBuilder.setChunk, if_neg hdefault] at hrow
      cases Table.mem_put.mp hrow with
      | inl heq => exact heq ▸ hdefault
      | inr hold => exact h.chunks row hold.1

theorem Canonical.get_eq (h : Canonical poseidon b) (i : Nat) :
    b.chunks.get i =
      if b.chunk i = PackedStatusChunk.FAIL_CLOSED then none else some (i, b.chunk i) := by
  cases hget : b.chunks.get i with
  | none =>
    have hchunk : b.chunk i = PackedStatusChunk.FAIL_CLOSED := by rw [chunk, hget]; rfl
    rw [if_pos hchunk]
  | some row =>
    have hchunk : b.chunk i = row.2 := by rw [chunk, hget]; rfl
    have hkey : row.1 = i := Table.key_of_get hget
    rw [if_neg, hchunk, ← hkey]
    rw [hchunk]
    exact h.chunks row (Table.mem_of_get hget)

-- The chunks that lookups answer determine both stores.
theorem Canonical.unique (h : Canonical poseidon b) (h' : Canonical poseidon b')
    (hchunk : ∀ i, b.chunk i = b'.chunk i) : b.chunks = b'.chunks ∧ b.nodes = b'.nodes := by
  constructor
  · apply Table.ext_get
    intro i
    rw [h.get_eq, h'.get_eq, hchunk]
  · have hnodes := h'.nodes
    rw [show b'.chunk = b.chunk from (funext hchunk).symm] at hnodes
    exact h.nodes.unique hnodes

theorem Canonical.root_eq (h : Canonical poseidon b) :
    b.root poseidon = completeRoot poseidon b.chunk :=
  h.nodes.node_eq (Nat.le_refl _) 0

theorem Canonical.of_empty (hchunks : b.chunks = ∅) (hnodes : b.nodes = ∅) :
    Canonical poseidon b := by
  have hchunk : ∀ i, b.chunk i = PackedStatusChunk.FAIL_CLOSED := by
    intro i
    rw [chunk, hchunks]
    rfl
  constructor
  · rw [hnodes]
    apply SparseTree.Holds.empty
    intro level index
    simp only [hchunk]
    exact SparseTree.dense_const _ _ level index
  · rw [hchunks]
    intro row hrow
    cases hrow

theorem Canonical.of_new {chainId : Nat} {registry : Address} {issuer : Hash}
    {anchor : SourceBlockRef} (h : new chainId registry issuer anchor = .ok b) :
    Canonical poseidon b := by
  rw [new] at h
  split at h
  · cases h
  · cases h
    exact Canonical.of_empty rfl rfl

theorem Canonical.foldl_setChunk {chunks : List PackedStatusSnapshotChunk}
    (h : Canonical poseidon b) :
    Canonical poseidon
      (chunks.foldl (fun b chunk => b.setChunk poseidon chunk.index chunk.value) b) := by
  induction chunks generalizing b with
  | nil => exact h
  | cons chunk chunks ih => exact ih (h.setChunk chunk.index chunk.value)

-- Marks one status.
def mark (poseidon : Poseidon) (b : PackedStatusSnapshotBuilder) (statusId : Nat)
    (failClosed : Bool) : PackedStatusSnapshotBuilder :=
  b.setChunk poseidon (statusId >>> 8)
    ((b.chunk (statusId >>> 8)).withFailClosedBit (statusId &&& 0xff) failClosed)

theorem isRevokedOrUnallocated_mark (statusId : Nat) (failClosed : Bool) (i : Nat) :
    (b.mark poseidon statusId failClosed).isRevokedOrUnallocated i =
      if i = statusId then failClosed else b.isRevokedOrUnallocated i := by
  have hi := statusId_eq i
  have hid := statusId_eq statusId
  rw [isRevokedOrUnallocated, isRevokedOrUnallocated, mark, chunk_setChunk]
  by_cases hindex : i >>> 8 = statusId >>> 8
  · rw [if_pos hindex, PackedStatusChunk.isRevokedOrUnallocated_withFailClosedBit _ _
      (bit_lt statusId) (bit_lt i), hindex]
    by_cases hbit : i &&& 0xff = statusId &&& 0xff
    · rw [if_pos hbit, if_pos (by omega)]
    · rw [if_neg hbit, if_neg (by grind)]
  · rw [if_neg hindex, if_neg (by grind)]

-- What an accepted event does: it allocates the next id, or revokes an allocated one.
theorem applyEvent_cases {event : PackedStatusSourceEvent} {undo : EventUndo}
    (h : b.applyEvent poseidon event = .ok (undo, b')) :
    (∃ logIndex issuer, event = .CredentialAllocated logIndex issuer b.nextStatusId ∧
      b.nextStatusId ≤ U32_MAX ∧ b.isRevokedOrUnallocated b.nextStatusId = true ∧
      undo = ⟨b.nextStatusId, b.chunk (b.nextStatusId >>> 8)⟩ ∧
      b' = { b.mark poseidon b.nextStatusId false with nextStatusId := b.nextStatusId + 1 }) ∨
    (∃ logIndex issuer statusId reference,
      event = .CredentialRevoked logIndex issuer statusId reference ∧
      statusId ≠ 0 ∧ statusId < b.nextStatusId ∧ b.isRevokedOrUnallocated statusId = false ∧
      undo = ⟨statusId, b.chunk (statusId >>> 8)⟩ ∧
      b' = b.mark poseidon statusId true) := by
  rw [applyEvent] at h
  by_cases hissuer : event.issuerKeyId ≠ b.issuerKeyId
  · rw [if_pos hissuer] at h
    cases h
  · rw [if_neg hissuer] at h
    cases event with
    | CredentialAllocated logIndex issuer statusId =>
      left
      simp only [selectStatus] at h
      by_cases hfull : b.nextStatusId > U32_MAX
      · rw [if_pos hfull] at h
        cases h
      · by_cases hid : statusId ≠ b.nextStatusId
        · rw [if_neg hfull, if_pos hid] at h
          cases h
        · rw [not_not] at hid
          subst hid
          rw [if_neg hfull, if_neg (by simp)] at h
          by_cases hbit : false = b.isRevokedOrUnallocated b.nextStatusId
          · simp only [isRevokedOrUnallocated] at hbit
            simp [← hbit] at h
          · have hset : b.isRevokedOrUnallocated b.nextStatusId = true := by
              cases hb : b.isRevokedOrUnallocated b.nextStatusId with
              | false => exact absurd hb.symm hbit
              | true => rfl
            rw [isRevokedOrUnallocated] at hset
            simp only [hset, Bool.false_eq_true, if_false, Except.ok.injEq, Prod.mk.injEq] at h
            exact ⟨logIndex, issuer, rfl, by omega, hset, h.1.symm, h.2.symm⟩
    | CredentialRevoked logIndex issuer statusId reference =>
      right
      simp only [selectStatus] at h
      by_cases href : reference = ZERO_HASH
      · rw [if_pos href] at h
        cases h
      · by_cases hid : statusId = 0 ∨ statusId ≥ b.nextStatusId
        · rw [if_neg href, if_pos hid] at h
          cases h
        · rw [if_neg href, if_neg hid] at h
          rw [not_or] at hid
          cases hset : (b.chunk (statusId >>> 8)).isRevokedOrUnallocated (statusId &&& 0xff) with
          | true => simp [hset] at h
          | false =>
            simp only [hset, Bool.true_eq_false, if_false, if_true, Except.ok.injEq,
              Prod.mk.injEq] at h
            exact ⟨logIndex, issuer, statusId, reference, rfl, hid.1, by omega, hset,
              h.1.symm, h.2.symm⟩

end PackedStatusSnapshotBuilder

end Ubi2.StatusSnapshot
