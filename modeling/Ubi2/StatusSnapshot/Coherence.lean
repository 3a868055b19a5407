import Ubi2.StatusSnapshot.Session

namespace Ubi2.StatusSnapshot

open Ubi2.Runtime Ubi2.Lib PackedStatusSnapshotBuilder

-- The builder against the complete tree and the ledger.
structure TreeCoherent (poseidon : Poseidon) (b : PackedStatusSnapshotBuilder) (l : Ledger) :
    Prop where
  root : b.root poseidon = completeRoot poseidon b.chunk
  chunks : ∀ row ∈ b.chunks.rows, row.2 ≠ PackedStatusChunk.FAIL_CLOSED
  nodes : ∀ row ∈ b.nodes.rows, row.2 ≠ defaults poseidon row.1.1
  clear : ∀ id, b.isRevokedOrUnallocated id = false ↔ id ∈ l.allocated ∧ id ∉ l.revoked
  zero : b.isRevokedOrUnallocated 0 = true
  above : ∀ id ≥ b.nextStatusId, b.isRevokedOrUnallocated id = true
  refused : ∀ id, b.witness poseidon id = .error .UnallocatedStatus ↔ id ∉ l.allocated
  witness : ∀ id ∈ l.allocated, ∃ w, b.witness poseidon id = .ok w ∧
    w.root = b.root poseidon ∧ w.recomputeRoot poseidon = b.root poseidon ∧
    (w.isActive = true ↔ id ∉ l.revoked)

section
variable {poseidon : Poseidon} {b b' : PackedStatusSnapshotBuilder} {m m' : Moment}

-- The siblings of a chunk lead from its leaf to the root.
theorem PackedStatusSnapshotBuilder.Canonical.recomputeRoot (h : Canonical poseidon b) {index : Nat}
    (hindex : index >>> PACKED_STATUS_DEPTH = 0) :
    rootFromPath poseidon (packedStatusLeafNative poseidon (b.chunk index).fields) index
      ((List.range PACKED_STATUS_DEPTH).map fun level =>
        b.node poseidon level ((index >>> level) ^^^ 1)) = b.root poseidon := by
  have hsiblings : ((List.range PACKED_STATUS_DEPTH).map fun level =>
        b.node poseidon level ((index >>> level) ^^^ 1)) =
      (List.range PACKED_STATUS_DEPTH).map fun level =>
        SparseTree.dense (registryNode poseidon)
          (fun i => packedStatusLeafNative poseidon (b.chunk i).fields) level
          ((index >>> level) ^^^ 1) := by
    apply List.map_congr_left
    intro level hlevel
    exact h.nodes.node_eq (Nat.le_of_lt (List.mem_range.mp hlevel)) _
  have hpath := SparseTree.foldl_siblings (registryNode poseidon)
    (fun i => packedStatusLeafNative poseidon (b.chunk i).fields) index PACKED_STATUS_DEPTH
  rw [hindex] at hpath
  rw [hsiblings, rootFromPath, h.root_eq, completeRoot]
  exact hpath

theorem Tracks.above (h : Tracks poseidon m) {id : Nat} (hid : id ≥ m.builder.nextStatusId) :
    m.builder.isRevokedOrUnallocated id = true := by
  cases hbit : m.builder.isRevokedOrUnallocated id with
  | true => rfl
  | false => exact absurd ((h.allocated id).mp ((h.clear id).mp hbit).1).2 (by omega)

-- The chunks are a function of the ledger's sets.
theorem Tracks.chunk_eq (h : Tracks poseidon m) (h' : Tracks poseidon m')
    (hallocated : m.ledger.allocated = m'.ledger.allocated)
    (hrevoked : m.ledger.revoked = m'.ledger.revoked) (i : Nat) :
    m.builder.chunk i = m'.builder.chunk i := by
  apply PackedStatusChunk.ext_bits
  intro bit hbit
  have hclear := (h.clear (256 * i + bit)).trans
    (Iff.trans (by rw [hallocated, hrevoked]) (h'.clear (256 * i + bit)).symm)
  rw [isRevokedOrUnallocated_at _ i hbit, isRevokedOrUnallocated_at _ i hbit] at hclear
  apply Bool.eq_iff_iff.mpr
  rw [← not_iff_not, Bool.not_eq_true, Bool.not_eq_true]
  exact hclear

theorem Tracks.coherent (h : Tracks poseidon m) : TreeCoherent poseidon m.builder m.ledger where
  root := h.canonical.root_eq
  chunks := h.canonical.chunks
  nodes := fun _ hrow => h.canonical.nodes.ne_fallback hrow
  clear := h.clear
  zero := by
    cases hbit : m.builder.isRevokedOrUnallocated 0 with
    | true => rfl
    | false => exact absurd rfl ((h.allocated 0).mp ((h.clear 0).mp hbit).1).1
  above := fun _ hid => h.above hid
  refused := by
    intro id
    rw [PackedStatusSnapshotBuilder.witness, h.allocated id]
    by_cases hid : id = 0 ∨ id ≥ m.builder.nextStatusId
    · rw [if_pos hid]
      simp only [true_iff]
      omega
    · rw [if_neg hid]
      simp only [reduceCtorEq, false_iff]
      omega
  witness := by
    intro id hid
    have hin := (h.allocated id).mp hid
    have hbound := h.bound
    have htop : (id >>> 8) >>> PACKED_STATUS_DEPTH = 0 := by
      rw [MAX_NEXT_STATUS_ID] at hbound
      rw [← Nat.shiftRight_add, Nat.shiftRight_eq_div_pow, PACKED_STATUS_DEPTH]
      omega
    rw [PackedStatusSnapshotBuilder.witness, if_neg (by omega)]
    refine ⟨_, rfl, rfl, h.canonical.recomputeRoot htop, ?_⟩
    have hclear := h.clear id
    simp only [hid, true_and] at hclear
    rw [PackedStatusWitness.isActive, ← hclear, Bool.not_eq_true']
    rfl

end

-- Every reachable builder is the complete tree of its ledger, so that its root is a function
-- of the ids that are allocated and revoked.
theorem packed_status_tree_coherent (poseidon : Poseidon) :
    (∀ s, Reachable poseidon s →
      TreeCoherent poseidon s.now.builder s.now.ledger) ∧
    ∀ s s', Reachable poseidon s → Reachable poseidon s' →
      s.now.ledger.allocated = s'.now.ledger.allocated →
      s.now.ledger.revoked = s'.now.ledger.revoked →
      s.now.builder.root poseidon = s'.now.builder.root poseidon := by
  constructor
  · intro s hs
    exact hs.linked.tracks.coherent
  · intro s s' hs hs' hallocated hrevoked
    have h := hs.linked.tracks
    have h' := hs'.linked.tracks
    rw [h.canonical.root_eq, h'.canonical.root_eq]
    congr 1
    funext i
    exact h.chunk_eq h' hallocated hrevoked i

-- A builder at its anchor, and a block that allocates two ids and revokes one of them.
def samplePoseidon : Poseidon := fun domain inputs => Fin.ofNat BN254_FR (domain + inputs.length)

def sampleBuilder : PackedStatusSnapshotBuilder :=
  { chainId := 84532
    issuanceRegistry := 0x11#160
    issuerKeyId := 0x22#256
    anchor := ⟨100, 1#256, 0#256⟩
    tip := ⟨100, 1#256, 0#256⟩
    nextStatusId := 1
    chunks := ∅
    nodes := ∅
    history := [] }

def sampleBlock : FinalizedStatusBlock :=
  ⟨⟨101, 2#256, 1#256⟩,
    [.CredentialAllocated 0 0x22#256 1, .CredentialAllocated 1 0x22#256 2,
      .CredentialRevoked 2 0x22#256 1 9#256]⟩

-- The same changes in two blocks.
def allocatingBlock : FinalizedStatusBlock :=
  ⟨⟨101, 2#256, 1#256⟩, [.CredentialAllocated 0 0x22#256 1, .CredentialAllocated 1 0x22#256 2]⟩

def revokingBlock : FinalizedStatusBlock :=
  ⟨⟨102, 3#256, 2#256⟩, [.CredentialRevoked 0 0x22#256 1 9#256]⟩

def Session.after (s : Session) (block : FinalizedStatusBlock) : Session :=
  ⟨⟨(s.now.builder.applyFinalizedBlock samplePoseidon block).2, s.now.ledger.block block⟩,
    s.retained⟩

def sampleSession : Session := Session.after ⟨⟨sampleBuilder, Ledger.genesis⟩, []⟩ sampleBlock

def twoBlockSession : Session :=
  (Session.after ⟨⟨sampleBuilder, Ledger.genesis⟩, []⟩ allocatingBlock).after revokingBlock

theorem reachable_sampleBuilder :
    Reachable samplePoseidon ⟨⟨sampleBuilder, Ledger.genesis⟩, []⟩ := by
  have hnew : new 84532 0x11#160 0x22#256 ⟨100, 1#256, 0#256⟩ = .ok sampleBuilder := rfl
  exact Reachable.new hnew

theorem reachable_after {s : Session} (hs : Reachable samplePoseidon s)
    {block : FinalizedStatusBlock}
    (hok : (s.now.builder.applyFinalizedBlock samplePoseidon block).1.isOk = true) :
    Reachable samplePoseidon (s.after block) := by
  have hstep : s.step samplePoseidon (.apply block) = some (s.after block) := by
    rw [Session.step, Session.after]
    cases hresult : s.now.builder.applyFinalizedBlock samplePoseidon block with
    | mk result b =>
      rw [hresult] at hok
      cases result with
      | error error => cases hok
      | ok u => rfl
  exact Reachable.step hs hstep

theorem reachable_sample : Reachable samplePoseidon sampleSession :=
  reachable_after reachable_sampleBuilder (by decide)

theorem reachable_twoBlocks : Reachable samplePoseidon twoBlockSession :=
  reachable_after (reachable_after reachable_sampleBuilder (by decide)) (by decide)

theorem packed_status_tree_coherent_sample :
    TreeCoherent samplePoseidon sampleSession.now.builder sampleSession.now.ledger ∧
      sampleSession.now.builder.root samplePoseidon =
        twoBlockSession.now.builder.root samplePoseidon :=
  ⟨(packed_status_tree_coherent samplePoseidon).1 sampleSession reachable_sample,
    (packed_status_tree_coherent samplePoseidon).2 sampleSession twoBlockSession reachable_sample
      reachable_twoBlocks rfl rfl⟩

-- A refused block changes nothing, a rewind to a retained ancestor gives the builder as it
-- was right after it, and one to another hash fails without a change.
theorem status_blocks_atomic_and_exact {poseidon : Poseidon} {s : Session}
    (h : Reachable poseidon s) :
    (∀ block error b', s.now.builder.applyFinalizedBlock poseidon block = (.error error, b') →
      b' = s.now.builder) ∧
    (∀ m ∈ s.retained, s.now.builder.rewindTo poseidon m.builder.tip.hash =
      some (.ok (), m.builder)) ∧
    (∀ hash, (∀ m ∈ s.retained, m.builder.tip.hash ≠ hash) →
      s.now.builder.rewindTo poseidon hash =
        some (.error .UnknownAncestor, s.now.builder)) := by
  have hlinked := h.linked
  refine ⟨?_, ?_, ?_⟩
  · intro block error b' happly
    exact hlinked.tracks.canonical.applyFinalizedBlock_error happly
  · intro m hm
    obtain ⟨rest, hdrop⟩ := hlinked.dropWhile_tip hm
    exact hlinked.rewindTo_known hdrop
  · intro hash hunknown
    exact hlinked.rewindTo_unknown hunknown

theorem status_blocks_atomic_and_exact_sample :
    sampleSession.now.builder.rewindTo samplePoseidon 1#256 = some (.ok (), sampleBuilder) :=
  (status_blocks_atomic_and_exact reachable_sample).2.1 ⟨sampleBuilder, Ledger.genesis⟩
    (List.mem_cons_of_mem _ List.mem_cons_self)

end Ubi2.StatusSnapshot
