import Ubi2.Lib.Numbered
import Ubi2.StatusSnapshot.Transparency

namespace Ubi2.StatusSnapshot

open Ubi2.Runtime Ubi2.Lib PackedStatusSnapshotBuilder

-- Events that allocate, each with its log index and its status id.
def allocations (issuerKeyId : Hash) (ids : List (Nat × Nat)) : List PackedStatusSourceEvent :=
  ids.map fun (logIndex, statusId) => .CredentialAllocated logIndex issuerKeyId statusId

-- Blocks that follow a tip and allocate from a status id on without a gap.
def Extends (issuerKeyId : Hash) : SourceBlockRef → Nat → List FinalizedStatusBlock → Prop
  | _, _, [] => True
  | tip, next, block :: rest =>
    block.source.number = tip.number + 1 ∧ block.source.number ≤ U64_MAX ∧
      block.source.parentHash = tip.hash ∧ block.source.hash ≠ ZERO_HASH ∧
      ∃ ids, block.events = allocations issuerKeyId ids ∧
        ids.Pairwise (fun a b => a.1 < b.1) ∧ Numbered next Prod.snd ids ∧
        (∀ id ∈ ids, id.2 ≤ U32_MAX) ∧ Extends issuerKeyId block.source (next + ids.length) rest

variable {poseidon : Poseidon} {b : PackedStatusSnapshotBuilder} {l : Ledger}

theorem Tracks.applyEvent_allocated (h : Tracks poseidon ⟨b, l⟩) (logIndex : Nat)
    (hbound : b.nextStatusId ≤ U32_MAX) :
    ∃ undo b', b.applyEvent poseidon
        (.CredentialAllocated logIndex b.issuerKeyId b.nextStatusId) = .ok (undo, b') ∧
      b'.nextStatusId = b.nextStatusId + 1 ∧ b'.issuerKeyId = b.issuerKeyId := by
  have hset : b.isRevokedOrUnallocated b.nextStatusId = true := h.above (Nat.le_refl _)
  rw [isRevokedOrUnallocated] at hset
  simp only [PackedStatusSnapshotBuilder.applyEvent, PackedStatusSourceEvent.issuerKeyId,
    selectStatus, if_neg (Nat.not_lt.mpr hbound), ne_eq, not_true_eq_false, if_false, hset,
    Bool.false_eq_true]
  exact ⟨_, _, rfl, rfl, rfl⟩

-- Every allocation of a dense run is accepted.
theorem Tracks.applyEvents_allocated (h : Tracks poseidon ⟨b, l⟩) {ids : List (Nat × Nat)}
    (hsorted : ids.Pairwise (fun a b => a.1 < b.1)) (hdense : Numbered b.nextStatusId Prod.snd ids)
    (hbound : ∀ id ∈ ids, id.2 ≤ U32_MAX) {previous : Option Nat}
    (hprevious : ∀ p ∈ previous, ∀ id ∈ ids, p < id.1) (n : Nat) (undo : List EventUndo) :
    ∃ undo' b', PackedStatusSnapshotBuilder.applyEvents poseidon n
        (allocations b.issuerKeyId ids) undo previous b = (.ok undo', b') ∧ b'.nextStatusId = b.nextStatusId + ids.length := by
  induction ids generalizing b l undo previous with
  | nil => exact ⟨undo, b, rfl, rfl⟩
  | cons id ids ih =>
    obtain ⟨logIndex, statusId⟩ := id
    obtain ⟨hstatusId, hrest⟩ := Numbered.cons_iff.mp hdense
    obtain ⟨hfirst, hlater⟩ := List.pairwise_cons.mp hsorted
    have hid : statusId = b.nextStatusId := hstatusId
    subst hid
    obtain ⟨eventUndo, b₁, happly, hnext, hissuer⟩ :=
      h.applyEvent_allocated logIndex (hbound _ List.mem_cons_self)
    have horder : ¬(previous.any fun previous => decide (logIndex ≤ previous)) = true := by
      cases previous with
      | none => simp
      | some p =>
        have hlt := hprevious p rfl _ List.mem_cons_self
        simpa using hlt
    rw [← hnext] at hrest
    have hbehind : ∀ p ∈ some logIndex, ∀ id ∈ ids, p < id.1 := by
      intro p hp id hid
      cases hp
      exact hfirst id hid
    obtain ⟨undo', b', hevents, hlength⟩ := ih (h.applyEvent happly) hlater hrest
      (fun id hid => hbound id (List.mem_cons_of_mem _ hid)) hbehind (undo ++ [eventUndo])
    refine ⟨undo', b', ?_, ?_⟩
    · rw [hissuer] at hevents
      simp only [allocations, List.map_cons, PackedStatusSnapshotBuilder.applyEvents,
        PackedStatusSourceEvent.logIndex, happly]
      split
      · rename_i hlate
        exact absurd hlate horder
      · exact hevents
    · rw [hlength, hnext, List.length_cons]
      omega

theorem not_knows_iff {hash : Hash} :
    ¬b.Knows hash ↔ ¬(hash = b.anchor.hash ∨
      b.history.any (fun entry => entry.source.hash = hash) = true) := by
  rw [PackedStatusSnapshotBuilder.Knows, List.any_eq_true]
  simp only [decide_eq_true_eq]

theorem Tracks.applyFinalizedBlock_allocated (h : Tracks poseidon ⟨b, l⟩)
    {block : FinalizedStatusBlock} {ids : List (Nat × Nat)}
    (hnumber : block.source.number = b.tip.number + 1) (hfits : block.source.number ≤ U64_MAX)
    (hparent : block.source.parentHash = b.tip.hash) (hnonzero : block.source.hash ≠ ZERO_HASH)
    (hfresh : ¬b.Knows block.source.hash)
    (hevents : block.events = allocations b.issuerKeyId ids)
    (hsorted : ids.Pairwise (fun a b => a.1 < b.1)) (hdense : Numbered b.nextStatusId Prod.snd ids)
    (hbound : ∀ id ∈ ids, id.2 ≤ U32_MAX) :
    ∃ b', b.applyFinalizedBlock poseidon block = (.ok (), b') ∧
      b'.nextStatusId = b.nextStatusId + ids.length ∧
      ∀ hash, b'.Knows hash → b.Knows hash ∨ hash = block.source.hash := by
  have hfirst : ∀ p ∈ (none : Option Nat), ∀ id ∈ ids, p < id.1 := nofun
  obtain ⟨undo, b₁, happly, hnext⟩ := h.applyEvents_allocated hsorted hdense hbound hfirst
    b.nextStatusId []
  rw [← hevents] at happly
  have hmax : b.tip.number ≠ U64_MAX := by omega
  have hrun : b.applyFinalizedBlock poseidon block = (.ok (), { b₁ with
      tip := block.source
      history := ⟨block.source, b.tip, b.nextStatusId, undo⟩ :: b₁.history }) := by
    rw [PackedStatusSnapshotBuilder.applyFinalizedBlock, if_neg hmax, if_neg (not_not.mpr hnumber),
      if_neg (not_or.mpr ⟨not_not.mpr hparent, hnonzero⟩), if_neg (not_knows_iff.mp hfresh), happly]
  refine ⟨_, hrun, hnext, ?_⟩
  rcases applyFinalizedBlock_cases hrun with ⟨_, herr, _⟩ | ⟨_, undo', b₂, happ⟩
  · cases herr
  obtain ⟨hanchor, entry, hsource, hhistory, -⟩ := h.canonical.popBlock happ
  rintro hash (hbase | ⟨e, he, heq⟩)
  · rw [hanchor] at hbase
    exact .inl (.inl hbase)
  · rw [hhistory] at he
    rcases List.mem_cons.mp he with rfl | he
    · exact .inr (heq.symm.trans (congrArg SourceBlockRef.hash hsource))
    · exact .inl (.inr ⟨e, he, heq⟩)

-- A sound builder takes blocks that extend its tip, when their hashes are new to it.
theorem Sound.applySourceBlocks_extends {blocks : List FinalizedStatusBlock}
    (h : Sound poseidon b) (hextends : Extends b.issuerKeyId b.tip b.nextStatusId blocks)
    (hdistinct : (blocks.map fun block => block.source.hash).Nodup)
    (hfresh : ∀ block ∈ blocks, ¬b.Knows block.source.hash) :
    ∃ b', StatusSnapshot.applySourceBlocks poseidon b blocks = .ok b' ∧
      b'.nextStatusId =
        b.nextStatusId + (blocks.map fun block => block.events.length).sum := by
  induction blocks generalizing b with
  | nil => exact ⟨b, rfl, rfl⟩
  | cons block blocks ih =>
    obtain ⟨hnumber, hfits, hparent, hnonzero, ids, hevents, hsorted, hdense, hbound, hrest⟩ :=
      hextends
    rw [List.map_cons, List.nodup_cons] at hdistinct
    obtain ⟨l, past, hlinked⟩ := h.tracks
    obtain ⟨b₁, happly, hnext, hknows⟩ := hlinked.tracks.applyFinalizedBlock_allocated hnumber hfits
      hparent hnonzero (hfresh block List.mem_cons_self) hevents hsorted hdense hbound
    obtain ⟨hsound, htip, -, -, hissuer⟩ := h.appended happly
    rw [← htip, ← hnext, ← hissuer] at hrest
    obtain ⟨b', hblocks, hlength⟩ := ih hsound hrest hdistinct.2 (by
      intro other hother hknown
      rcases hknows _ hknown with hold | hsame
      · exact hfresh other (List.mem_cons_of_mem _ hother) hold
      · exact hdistinct.1 (hsame ▸ List.mem_map_of_mem hother))
    refine ⟨b', ?_, ?_⟩
    · rw [StatusSnapshot.applySourceBlocks, happly]
      exact hblocks
    · have hcount : block.events.length = ids.length := by rw [hevents, allocations, List.length_map]
      rw [hlength, hnext, List.map_cons, List.sum_cons, hcount, Nat.add_assoc]

end Ubi2.StatusSnapshot
