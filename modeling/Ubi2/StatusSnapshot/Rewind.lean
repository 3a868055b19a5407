import Ubi2.StatusSnapshot.Tree

namespace Ubi2.StatusSnapshot

open Ubi2.Runtime Ubi2.Lib

namespace PackedStatusSnapshotBuilder

variable {poseidon : Poseidon} {b b' : PackedStatusSnapshotBuilder}

-- The previous chunk takes a mark back, the nodes included.
theorem Canonical.setChunk_mark (h : Canonical poseidon b) (statusId : Nat) (failClosed : Bool) :
    (b.mark poseidon statusId failClosed).setChunk poseidon (statusId >>> 8)
      (b.chunk (statusId >>> 8)) = b := by
  have hback : Canonical poseidon ((b.mark poseidon statusId failClosed).setChunk poseidon
      (statusId >>> 8) (b.chunk (statusId >>> 8))) := (h.setChunk _ _).setChunk _ _
  obtain ⟨hchunks, hnodes⟩ := hback.unique h (by
    intro i
    rw [chunk_setChunk, mark, chunk_setChunk]
    by_cases hi : i = statusId >>> 8
    · rw [if_pos hi, hi]
    · rw [if_neg hi, if_neg hi])
  calc (b.mark poseidon statusId failClosed).setChunk poseidon (statusId >>> 8)
        (b.chunk (statusId >>> 8))
      = { b with
          chunks := ((b.mark poseidon statusId failClosed).setChunk poseidon (statusId >>> 8)
            (b.chunk (statusId >>> 8))).chunks
          nodes := ((b.mark poseidon statusId failClosed).setChunk poseidon (statusId >>> 8)
            (b.chunk (statusId >>> 8))).nodes } := rfl
    _ = b := by rw [hchunks, hnodes]

-- The loop that sets chunks back commutes with a change of the other fields.
theorem rollbackEvents_next (b : PackedStatusSnapshotBuilder) (events : List EventUndo)
    (next n : Nat) :
    rollbackEvents poseidon { b with nextStatusId := next } events n =
      b.rollbackEvents poseidon events n := by
  have hloop : events.reverse.foldl (undoEvent poseidon) { b with nextStatusId := next } =
      { events.reverse.foldl (undoEvent poseidon) b with nextStatusId := next } :=
    List.foldl_hom (fun b : PackedStatusSnapshotBuilder => { b with nextStatusId := next })
      (fun _ _ => rfl)
  rw [rollbackEvents, hloop]
  rfl

theorem rollbackEvents_tip (b : PackedStatusSnapshotBuilder) (events : List EventUndo) (n : Nat)
    (tip : SourceBlockRef) (history : List BlockUndo) :
    rollbackEvents poseidon { b with tip := tip, history := history } events n =
      { b.rollbackEvents poseidon events n with tip := tip, history := history } := by
  have hloop : events.reverse.foldl (undoEvent poseidon)
        { b with tip := tip, history := history } =
      { events.reverse.foldl (undoEvent poseidon) b with tip := tip, history := history } :=
    List.foldl_hom
      (fun b : PackedStatusSnapshotBuilder => { b with tip := tip, history := history })
      (fun _ _ => rfl)
  rw [rollbackEvents, hloop]
  rfl

theorem rollbackEvents_fields (poseidon : Poseidon) (b : PackedStatusSnapshotBuilder) (events : List EventUndo)
    (n : Nat) : ∃ t s, b.rollbackEvents poseidon events n =
      { b with nextStatusId := n, chunks := t, nodes := s } := by
  have hloop : ∀ events : List EventUndo, ∃ t s,
      events.foldl (undoEvent poseidon) b = { b with chunks := t, nodes := s } := by
    intro events
    induction events using List.reverseRecOn with
    | nil => exact ⟨b.chunks, b.nodes, rfl⟩
    | append_singleton events event ih =>
      obtain ⟨t, s, h⟩ := ih
      rw [List.foldl_append, h]
      exact ⟨_, _, rfl⟩
  obtain ⟨t, s, h⟩ := hloop events.reverse
  exact ⟨t, s, by rw [rollbackEvents, h]⟩

-- The undo record of an accepted event comes first when a longer list is taken back.
theorem Canonical.applyEvent_undo (h : Canonical poseidon b) {event : PackedStatusSourceEvent}
    {undo : EventUndo} (happly : b.applyEvent poseidon event = .ok (undo, b'))
    (events : List EventUndo) (n : Nat) :
    b'.rollbackEvents poseidon (events ++ [undo]) n = b.rollbackEvents poseidon events n := by
  have hfirst : ∃ next, b'.setChunk poseidon (undo.statusId >>> 8) undo.previousChunk =
      { b with nextStatusId := next } := by
    rcases applyEvent_cases happly with
      ⟨_, _, _, _, _, hundo, hb'⟩ | ⟨_, _, statusId, _, _, _, _, _, hundo, hb'⟩
    · refine ⟨b.nextStatusId + 1, ?_⟩
      subst hundo
      subst hb'
      exact congrArg
        (fun b' : PackedStatusSnapshotBuilder => { b' with nextStatusId := b.nextStatusId + 1 })
        (h.setChunk_mark b.nextStatusId false)
    · refine ⟨b.nextStatusId, ?_⟩
      subst hundo
      subst hb'
      exact h.setChunk_mark statusId true
  obtain ⟨next, hnext⟩ := hfirst
  rw [rollbackEvents, List.reverse_append, List.reverse_singleton, List.singleton_append,
    List.foldl_cons, undoEvent, hnext]
  exact rollbackEvents_next b events next n

theorem Canonical.applyEvent (h : Canonical poseidon b) {event : PackedStatusSourceEvent}
    {undo : EventUndo} (happly : b.applyEvent poseidon event = .ok (undo, b')) :
    Canonical poseidon b' := by
  rcases applyEvent_cases happly with
    ⟨_, _, _, _, _, _, rfl⟩ | ⟨_, _, statusId, _, _, _, _, _, _, rfl⟩
  · exact (h.setChunk _ _).congr rfl rfl
  · exact h.setChunk _ _

-- A loop that fails gives back the builder that its undo records lead to, and one that
-- succeeds keeps them leading there.
theorem Canonical.applyEvents (h : Canonical poseidon b) {n : Nat}
    {events : List PackedStatusSourceEvent} {undo : List EventUndo} {previous : Option Nat}
    {b₀ : PackedStatusSnapshotBuilder} (hundo : b.rollbackEvents poseidon undo n = b₀)
    {r : Except PackedStatusSnapshotError (List EventUndo)}
    (happly : applyEvents poseidon n events undo previous b = (r, b')) :
    (∃ error, r = .error error ∧ b' = b₀) ∨
      (∃ undo', r = .ok undo' ∧ Canonical poseidon b' ∧
        b'.rollbackEvents poseidon undo' n = b₀) := by
  induction events generalizing undo previous b with
  | nil =>
    rw [PackedStatusSnapshotBuilder.applyEvents] at happly
    cases happly
    exact Or.inr ⟨undo, rfl, h, hundo⟩
  | cons event events ih =>
    rw [PackedStatusSnapshotBuilder.applyEvents] at happly
    by_cases horder : previous.any fun previous => event.logIndex ≤ previous
    · rw [if_pos horder] at happly
      cases happly
      exact Or.inl ⟨_, rfl, hundo⟩
    · rw [if_neg horder] at happly
      cases hevent : b.applyEvent poseidon event with
      | error error =>
        rw [hevent] at happly
        cases happly
        exact Or.inl ⟨_, rfl, hundo⟩
      | ok done =>
        obtain ⟨eventUndo, b₁⟩ := done
        rw [hevent] at happly
        refine ih (h.applyEvent hevent) ?_ happly
        rw [h.applyEvent_undo hevent, hundo]

-- What an accepted block has passed, and where it leaves the builder.
structure Appended (poseidon : Poseidon) (b : PackedStatusSnapshotBuilder)
    (block : FinalizedStatusBlock) (undo : List EventUndo)
    (b₁ b' : PackedStatusSnapshotBuilder) : Prop where
  events : applyEvents poseidon b.nextStatusId block.events [] none b = (.ok undo, b₁)
  fresh : block.source.hash ≠ b.anchor.hash ∧
    ∀ entry ∈ b.history, entry.source.hash ≠ block.source.hash
  max : b.tip.number ≠ U64_MAX
  number : block.source.number = b.tip.number + 1
  nonzero : block.source.hash ≠ ZERO_HASH
  parent : block.source.parentHash = b.tip.hash
  result : b' = { b₁ with
    tip := block.source
    history := ⟨block.source, b.tip, b.nextStatusId, undo⟩ :: b₁.history }

theorem applyFinalizedBlock_cases {block : FinalizedStatusBlock}
    {r : Except PackedStatusSnapshotError Unit}
    (h : b.applyFinalizedBlock poseidon block = (r, b')) :
    (∃ error, r = .error error ∧ (b' = b ∨
      applyEvents poseidon b.nextStatusId block.events [] none b = (.error error, b'))) ∨
    (r = .ok () ∧ ∃ undo b₁, Appended poseidon b block undo b₁ b') := by
  rw [applyFinalizedBlock] at h
  by_cases hmax : b.tip.number = U64_MAX
  · rw [if_pos hmax] at h
    cases h
    exact Or.inl ⟨_, rfl, Or.inl rfl⟩
  rw [if_neg hmax] at h
  by_cases hnumber : block.source.number ≠ b.tip.number + 1
  · rw [if_pos hnumber] at h
    cases h
    exact Or.inl ⟨_, rfl, Or.inl rfl⟩
  rw [if_neg hnumber] at h
  by_cases hparent : block.source.parentHash ≠ b.tip.hash ∨ block.source.hash = ZERO_HASH
  · rw [if_pos hparent] at h
    cases h
    exact Or.inl ⟨_, rfl, Or.inl rfl⟩
  rw [if_neg hparent] at h
  by_cases hdup : block.source.hash = b.anchor.hash ∨
      b.history.any (fun entry => entry.source.hash = block.source.hash)
  · rw [if_pos hdup] at h
    cases h
    exact Or.inl ⟨_, rfl, Or.inl rfl⟩
  rw [if_neg hdup] at h
  cases hevents : applyEvents poseidon b.nextStatusId block.events [] none b with
  | mk result b₁ =>
    rw [hevents] at h
    cases result with
    | error error =>
      cases h
      exact Or.inl ⟨error, rfl, Or.inr rfl⟩
    | ok undo =>
      cases h
      rw [not_or] at hparent hdup
      refine Or.inr ⟨rfl, undo, b₁, hevents, ⟨hdup.1, ?_⟩, hmax, not_not.mp hnumber, hparent.2,
        not_not.mp hparent.1, rfl⟩
      simpa using hdup.2

-- A refused block changes nothing.
theorem Canonical.applyFinalizedBlock_error (h : Canonical poseidon b)
    {block : FinalizedStatusBlock} {error : PackedStatusSnapshotError}
    (happly : b.applyFinalizedBlock poseidon block = (.error error, b')) : b' = b := by
  rcases applyFinalizedBlock_cases happly with ⟨_, heq, hb' | hevents⟩ | ⟨heq, _⟩
  · exact hb'
  · rcases h.applyEvents rfl hevents with ⟨_, _, hb'⟩ | ⟨_, hok, _⟩
    · exact hb'
    · cases hok
  · cases heq

theorem Canonical.appended (h : Canonical poseidon b) {block : FinalizedStatusBlock}
    {undo : List EventUndo} {b₁ : PackedStatusSnapshotBuilder}
    (happ : Appended poseidon b block undo b₁ b') :
    Canonical poseidon b' ∧ b₁.rollbackEvents poseidon undo b.nextStatusId = b := by
  rcases h.applyEvents rfl happ.events with ⟨_, herr, _⟩ | ⟨_, hok, hcanonical, hundo⟩
  · cases herr
  · cases hok
    exact ⟨hcanonical.congr (by rw [happ.result]) (by rw [happ.result]), hundo⟩

-- Events move only the counter and the chunks.
theorem Canonical.fields (h : Canonical poseidon b) {block : FinalizedStatusBlock}
    {undo : List EventUndo} {b₁ : PackedStatusSnapshotBuilder}
    (happ : Appended poseidon b block undo b₁ b') :
    ∃ next t s, b₁ = { b with nextStatusId := next, chunks := t, nodes := s } := by
  obtain ⟨t, s, hfields⟩ := rollbackEvents_fields poseidon b₁ undo b.nextStatusId
  rw [(h.appended happ).2] at hfields
  exact ⟨b₁.nextStatusId, b₁.chunks, b₁.nodes, by rw [hfields]⟩

-- The entry of a block takes it back.
theorem Canonical.popBlock (h : Canonical poseidon b) {block : FinalizedStatusBlock}
    {undo : List EventUndo} {b₁ : PackedStatusSnapshotBuilder}
    (happ : Appended poseidon b block undo b₁ b') :
    b'.anchor = b.anchor ∧ ∃ entry, entry.source = block.source ∧
      b'.history = entry :: b.history ∧ b'.popBlock poseidon entry b.history = b := by
  have hundo := (h.appended happ).2
  obtain ⟨next, t, s, hfields⟩ := h.fields happ
  have hanchor : b₁.anchor = b.anchor := by rw [hfields]
  have hhistory : b₁.history = b.history := by rw [hfields]
  rw [happ.result]
  refine ⟨hanchor, ⟨block.source, b.tip, b.nextStatusId, undo⟩, rfl, ?_, ?_⟩
  · rw [hhistory]
  · have hback : rollbackEvents poseidon { b₁ with tip := block.source, history := b.history } undo
        b.nextStatusId = { b with tip := block.source, history := b.history } := by
      rw [rollbackEvents_tip, hundo]
    rw [PackedStatusSnapshotBuilder.popBlock, hback]

end PackedStatusSnapshotBuilder

end Ubi2.StatusSnapshot
