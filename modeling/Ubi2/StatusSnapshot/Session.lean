import Mathlib.Data.List.TakeWhile
import Mathlib.Data.Set.Insert
import Ubi2.StatusSnapshot.Restore
import Ubi2.StatusSnapshot.Rewind

namespace Ubi2.StatusSnapshot

open Ubi2.Runtime Ubi2.Lib PackedStatusSnapshotBuilder

-- What the source chain has said of the status ids.
structure Ledger where
  allocated : Set Nat
  revoked : Set Nat

namespace Ledger

def genesis : Ledger := ⟨∅, ∅⟩

def event (l : Ledger) : PackedStatusSourceEvent → Ledger
  | .CredentialAllocated _ _ statusId => { l with allocated := insert statusId l.allocated }
  | .CredentialRevoked _ _ statusId _ => { l with revoked := insert statusId l.revoked }

def block (l : Ledger) (block : FinalizedStatusBlock) : Ledger :=
  block.events.foldl event l

-- A checkpoint stands for the ids below its next one, revoked where their bit is set.
def ofSnapshot (snapshot : PackedStatusSnapshot) : Ledger where
  allocated := { id | id ≠ 0 ∧ id < snapshot.nextStatusId }
  revoked := { id | (id ≠ 0 ∧ id < snapshot.nextStatusId) ∧
    snapshot.isRevokedOrUnallocated id = true }

end Ledger

-- A builder as it was right after a block, with the ledger at that block.
structure Moment where
  builder : PackedStatusSnapshotBuilder
  ledger : Ledger

-- The current moment, and those of the retained ancestors, the last one first.
structure Session where
  now : Moment
  past : List Moment

def Session.retained (s : Session) : List Moment := s.now :: s.past

inductive Operation where
  | apply (block : FinalizedStatusBlock)
  | rewind (ancestorHash : Hash)

-- The builder does what its code does. Beside it the ledger follows the blocks that were
-- accepted, and goes back with a rewind. `none` is a panic.
def Session.step (poseidon : Poseidon) (s : Session) : Operation → Option Session
  | .apply block =>
    match s.now.builder.applyFinalizedBlock poseidon block with
    | (.ok (), b) => some ⟨⟨b, s.now.ledger.block block⟩, s.retained⟩
    | (.error _, b) => some ⟨⟨b, s.now.ledger⟩, s.past⟩
  | .rewind ancestorHash =>
    match s.now.builder.rewindTo poseidon ancestorHash with
    | none => none
    | some (.error _, b) => some ⟨⟨b, s.now.ledger⟩, s.past⟩
    | some (.ok (), b) =>
      match s.retained.dropWhile fun m => m.builder.tip.hash ≠ ancestorHash with
      | [] => some ⟨⟨b, s.now.ledger⟩, s.past⟩
      | m :: past => some ⟨⟨b, m.ledger⟩, past⟩

inductive Reachable (poseidon : Poseidon) : Session → Prop where
  | new {chainId : Nat} {registry : Address} {issuer : Hash} {anchor : SourceBlockRef}
      {b : PackedStatusSnapshotBuilder} (h : new chainId registry issuer anchor = .ok b) :
      Reachable poseidon ⟨⟨b, Ledger.genesis⟩, []⟩
  | restore {snapshot : PackedStatusSnapshot} {b : PackedStatusSnapshotBuilder}
      (h : restore poseidon snapshot = .ok b) :
      Reachable poseidon ⟨⟨b, Ledger.ofSnapshot snapshot⟩, []⟩
  | step {s s' : Session} {op : Operation} (hs : Reachable poseidon s)
      (h : s.step poseidon op = some s') : Reachable poseidon s'

-- A builder that is in step with a ledger.
structure Tracks (poseidon : Poseidon) (m : Moment) : Prop where
  canonical : Canonical poseidon m.builder
  allocated : ∀ id, id ∈ m.ledger.allocated ↔ id ≠ 0 ∧ id < m.builder.nextStatusId
  revoked : ∀ id ∈ m.ledger.revoked, id ∈ m.ledger.allocated
  clear : ∀ id, m.builder.isRevokedOrUnallocated id = false ↔
    id ∈ m.ledger.allocated ∧ id ∉ m.ledger.revoked
  pos : m.builder.nextStatusId ≠ 0
  bound : m.builder.nextStatusId ≤ MAX_NEXT_STATUS_ID

-- A moment over the ones it rewinds to.
inductive Linked (poseidon : Poseidon) : Moment → List Moment → Prop where
  | base {m : Moment} (tracks : Tracks poseidon m) (history : m.builder.history = [])
      (tip : m.builder.tip = m.builder.anchor) : Linked poseidon m []
  | block {m m' : Moment} {past : List Moment} {entry : BlockUndo}
      (rest : Linked poseidon m past) (tracks : Tracks poseidon m')
      (anchor : m'.builder.anchor = m.builder.anchor)
      (history : m'.builder.history = entry :: m.builder.history)
      (source : entry.source = m'.builder.tip)
      (pop : m'.builder.popBlock poseidon entry m.builder.history = m.builder)
      (fresh : ∀ p ∈ m :: past, p.builder.tip.hash ≠ m'.builder.tip.hash) :
      Linked poseidon m' (m :: past)

section
variable {poseidon : Poseidon} {b b' : PackedStatusSnapshotBuilder} {l : Ledger} {m : Moment}
  {past : List Moment}

theorem Linked.tracks (h : Linked poseidon m past) : Tracks poseidon m := by
  cases h with
  | base tracks _ _ => exact tracks
  | block _ tracks _ _ _ _ _ => exact tracks

theorem Tracks.of_new {chainId : Nat} {registry : Address} {issuer : Hash}
    {anchor : SourceBlockRef} (h : new chainId registry issuer anchor = .ok b) :
    Linked poseidon ⟨b, Ledger.genesis⟩ [] := by
  have hcanonical : Canonical poseidon b := Canonical.of_new h
  rw [new] at h
  split at h
  · cases h
  cases h
  refine Linked.base ⟨hcanonical, ?_, ?_, ?_, by simp, by simp [MAX_NEXT_STATUS_ID]⟩ rfl rfl
  · intro id
    simp only [Ledger.genesis, Set.mem_empty_iff_false, false_iff]
    omega
  · intro id hid
    exact hid
  · intro id
    have hset : PackedStatusSnapshotBuilder.isRevokedOrUnallocated
        { chainId := chainId
          issuanceRegistry := registry
          issuerKeyId := issuer
          anchor := anchor
          tip := anchor
          nextStatusId := 1
          chunks := ∅
          nodes := ∅
          history := [] } id = true :=
      PackedStatusChunk.isRevokedOrUnallocated_FAIL_CLOSED (bit_lt id)
    simp [hset, Ledger.genesis]

theorem Tracks.of_restore {snapshot : PackedStatusSnapshot}
    (h : restore poseidon snapshot = .ok b) :
    Linked poseidon ⟨b, Ledger.ofSnapshot snapshot⟩ [] := by
  have hr := Restored.of_restore h
  have hbits : ∀ id, b.isRevokedOrUnallocated id = snapshot.isRevokedOrUnallocated id := by
    intro id
    rw [PackedStatusSnapshotBuilder.isRevokedOrUnallocated, hr.chunk]
    rfl
  refine Linked.base ⟨hr.canonical, ?_, ?_, ?_, ?_, ?_⟩ hr.history (hr.tip.trans hr.anchor.symm)
  · intro id
    rw [hr.nextStatusId]
    rfl
  · exact fun id hid => hid.1
  · intro id
    rw [hbits]
    constructor
    · intro hclear
      refine ⟨hr.ok.allocated hclear, ?_⟩
      rintro ⟨-, hset⟩
      rw [hclear] at hset
      cases hset
    · rintro ⟨hallocated, hnot⟩
      cases hset : snapshot.isRevokedOrUnallocated id with
      | false => rfl
      | true => exact absurd ⟨hallocated, hset⟩ hnot
  · rw [hr.nextStatusId]
    exact hr.ok.nextPos
  · rw [hr.nextStatusId]
    exact hr.ok.nextBound

-- One accepted event keeps the builder in step.
theorem Tracks.applyEvent (h : Tracks poseidon ⟨b, l⟩) {event : PackedStatusSourceEvent}
    {undo : EventUndo} (happly : b.applyEvent poseidon event = .ok (undo, b')) :
    Tracks poseidon ⟨b', l.event event⟩ := by
  have hcanonical := h.canonical.applyEvent happly
  rcases applyEvent_cases happly with
    ⟨_, _, rfl, hfull, _, _, rfl⟩ | ⟨_, _, statusId, _, rfl, hid, hlt, _, _, rfl⟩
  · have hfresh : b.nextStatusId ∉ l.revoked := by
      intro hmem
      exact absurd ((h.allocated _).mp (h.revoked _ hmem)).2 (Nat.lt_irrefl _)
    have hpos : b.nextStatusId ≠ 0 := h.pos
    have hbound : b.nextStatusId + 1 ≤ MAX_NEXT_STATUS_ID := by
      rw [U32_MAX] at hfull
      rw [MAX_NEXT_STATUS_ID]
      omega
    refine ⟨hcanonical, ?_, ?_, ?_, Nat.succ_ne_zero _, hbound⟩
    · intro id
      simp only [Ledger.event, Set.mem_insert_iff, h.allocated]
      omega
    · intro id hmem
      exact Set.mem_insert_of_mem _ (h.revoked id hmem)
    · intro id
      change (b.mark poseidon b.nextStatusId false).isRevokedOrUnallocated id = false ↔ _
      rw [isRevokedOrUnallocated_mark]
      simp only [Ledger.event, Set.mem_insert_iff]
      by_cases heq : id = b.nextStatusId
      · simp [heq, hfresh]
      · rw [if_neg heq, h.clear id]
        simp [heq]
  · refine ⟨hcanonical, h.allocated, ?_, ?_, h.pos, h.bound⟩
    · intro id hmem
      cases Set.mem_insert_iff.mp hmem with
      | inl heq => exact heq ▸ (h.allocated statusId).mpr ⟨hid, hlt⟩
      | inr hold => exact h.revoked id hold
    · intro id
      rw [isRevokedOrUnallocated_mark]
      simp only [Ledger.event, Set.mem_insert_iff]
      by_cases heq : id = statusId
      · simp [heq]
      · rw [if_neg heq, h.clear id]
        simp [heq]

theorem Tracks.applyEvents (h : Tracks poseidon ⟨b, l⟩) {n : Nat}
    {events : List PackedStatusSourceEvent} {undo undo' : List EventUndo} {previous : Option Nat}
    (happly : applyEvents poseidon n events undo previous b = (.ok undo', b')) :
    Tracks poseidon ⟨b', events.foldl Ledger.event l⟩ := by
  induction events generalizing b l undo previous with
  | nil =>
    rw [PackedStatusSnapshotBuilder.applyEvents] at happly
    cases happly
    exact h
  | cons event events ih =>
    rw [PackedStatusSnapshotBuilder.applyEvents] at happly
    split at happly
    · cases happly
    · cases hevent : b.applyEvent poseidon event with
      | error error =>
        rw [hevent] at happly
        cases happly
      | ok done =>
        obtain ⟨eventUndo, b₁⟩ := done
        rw [hevent] at happly
        exact ih (h.applyEvent hevent) happly

-- Tip and history are no part of what the ledger says.
theorem Tracks.congr (h : Tracks poseidon ⟨b, l⟩) (hchunks : b'.chunks = b.chunks)
    (hnodes : b'.nodes = b.nodes) (hnext : b'.nextStatusId = b.nextStatusId) :
    Tracks poseidon ⟨b', l⟩ := by
  have hbits : b'.isRevokedOrUnallocated = b.isRevokedOrUnallocated := by
    funext id
    simp only [PackedStatusSnapshotBuilder.isRevokedOrUnallocated, chunk, hchunks]
  refine ⟨h.canonical.congr hchunks hnodes, ?_, h.revoked, ?_, ?_, ?_⟩
  · simp only [hnext]
    exact h.allocated
  · simp only [hbits]
    exact h.clear
  · simp only [hnext]
    exact h.pos
  · simp only [hnext]
    exact h.bound

-- The hashes that a builder knows are the tips of its retained moments.
theorem Linked.known (h : Linked poseidon m past) (hash : Hash) :
    (hash = m.builder.anchor.hash ∨
      m.builder.history.any (fun entry => entry.source.hash = hash) = true) ↔
      ∃ p ∈ m :: past, p.builder.tip.hash = hash := by
  induction h with
  | base _ hhistory htip => simp [hhistory, htip, eq_comm]
  | @block m m' past entry _ _ hanchor hhistory hsource _ _ ih =>
    rw [List.exists_mem_cons_iff, ← ih, hanchor, hhistory, List.any_cons, hsource]
    simp only [Bool.or_eq_true, decide_eq_true_eq]
    exact or_left_comm

theorem Linked.append (h : Linked poseidon m past) {block : FinalizedStatusBlock}
    (happly : m.builder.applyFinalizedBlock poseidon block = (.ok (), b')) :
    Linked poseidon ⟨b', m.ledger.block block⟩ (m :: past) := by
  rcases applyFinalizedBlock_cases happly with ⟨_, herr, _⟩ | ⟨_, undo, b₁, happ⟩
  · cases herr
  have htracks := h.tracks
  obtain ⟨hanchor, entry, hsource, hhistory, hpop⟩ := htracks.canonical.popBlock happ
  have htip : b'.tip = block.source := by rw [happ.result]
  refine Linked.block h ?_ hanchor hhistory (hsource.trans htip.symm) hpop ?_
  · exact (htracks.applyEvents happ.events).congr (by rw [happ.result]) (by rw [happ.result])
      (by rw [happ.result])
  · intro p hp heq
    have hknown := (h.known block.source.hash).mpr ⟨p, hp, heq.trans (by rw [htip])⟩
    rcases hknown with hbase | hentry
    · exact happ.fresh.1 hbase
    · obtain ⟨e, he, hhash⟩ := List.any_eq_true.mp hentry
      exact happ.fresh.2 e he (of_decide_eq_true hhash)

-- Popping stops at the moment with the hash, exactly as it was.
theorem Linked.popUntil (h : Linked poseidon m past) {hash : Hash} {p : Moment}
    {rest : List Moment}
    (hdrop : (m :: past).dropWhile (fun p => p.builder.tip.hash ≠ hash) = p :: rest) :
    popUntil poseidon hash m.builder.history m.builder = some p.builder ∧
      Linked poseidon p rest := by
  induction h with
  | @base m tracks hhistory htip =>
    rw [List.dropWhile_cons] at hdrop
    split at hdrop
    · cases hdrop
    · rename_i hat
      cases hdrop
      rw [hhistory, PackedStatusSnapshotBuilder.popUntil, if_pos (by simpa using hat)]
      exact ⟨rfl, Linked.base tracks hhistory htip⟩
  | @block m m' past entry rest tracks hanchor hhistory hsource hpop hfresh ih =>
    rw [List.dropWhile_cons] at hdrop
    rw [hhistory, PackedStatusSnapshotBuilder.popUntil]
    split at hdrop
    · rename_i hat
      rw [if_neg (by simpa using hat), hpop]
      exact ih hdrop
    · rename_i hat
      cases hdrop
      rw [if_pos (by simpa using hat)]
      exact ⟨rfl, Linked.block rest tracks hanchor hhistory hsource hpop hfresh⟩

-- The tips of the retained moments have different hashes.
theorem Linked.dropWhile_tip (h : Linked poseidon m past) {p : Moment} (hp : p ∈ m :: past) :
    ∃ rest, (m :: past).dropWhile
      (fun q => q.builder.tip.hash ≠ p.builder.tip.hash) = p :: rest := by
  induction h with
  | base _ _ _ =>
    rw [List.mem_singleton] at hp
    subst hp
    exact ⟨[], by simp⟩
  | @block m m' past entry _ _ _ _ _ _ hfresh ih =>
    rw [List.dropWhile_cons]
    cases List.mem_cons.mp hp with
    | inl heq =>
      subst heq
      exact ⟨m :: past, by simp⟩
    | inr hin =>
      obtain ⟨rest, hrest⟩ := ih hin
      refine ⟨rest, ?_⟩
      rw [if_pos (by simpa using (hfresh p hin).symm)]
      exact hrest

theorem Linked.rewindTo_known (h : Linked poseidon m past) {hash : Hash} {p : Moment}
    {rest : List Moment}
    (hdrop : (m :: past).dropWhile (fun p => p.builder.tip.hash ≠ hash) = p :: rest) :
    m.builder.rewindTo poseidon hash = some (.ok (), p.builder) := by
  rw [rewindTo]
  by_cases hat : hash = m.builder.tip.hash
  · rw [if_pos hat]
    rw [List.dropWhile_cons, if_neg (by simpa using hat.symm)] at hdrop
    cases hdrop
    rfl
  · have hmem : p ∈ m :: past := by
      apply (List.dropWhile_sublist _).subset
      rw [hdrop]
      exact List.mem_cons_self
    have hhash : p.builder.tip.hash = hash := by
      have hhead := List.head?_dropWhile_not
        (fun p : Moment => decide (p.builder.tip.hash ≠ hash)) (m :: past)
      rw [hdrop] at hhead
      simpa using hhead
    have hknown := (h.known hash).mpr ⟨p, hmem, hhash⟩
    rw [if_neg hat, if_neg, (h.popUntil hdrop).1]
    · rfl
    · rintro ⟨hbase, hentry⟩
      rcases hknown with hk | hk
      · exact hbase hk
      · exact hentry hk

theorem Linked.rewindTo_unknown (h : Linked poseidon m past) {hash : Hash}
    (hunknown : ∀ p ∈ m :: past, p.builder.tip.hash ≠ hash) :
    m.builder.rewindTo poseidon hash = some (.error .UnknownAncestor, m.builder) := by
  have hnot : ¬(hash = m.builder.anchor.hash ∨
      m.builder.history.any (fun entry => entry.source.hash = hash) = true) := by
    rw [h.known hash]
    rintro ⟨p, hp, heq⟩
    exact hunknown p hp heq
  rw [not_or] at hnot
  rw [rewindTo, if_neg (fun heq => hunknown m List.mem_cons_self heq.symm), if_pos]
  exact ⟨hnot.1, hnot.2⟩

theorem Linked.step {s s' : Session} {op : Operation} (h : Linked poseidon s.now s.past)
    (hstep : s.step poseidon op = some s') : Linked poseidon s'.now s'.past := by
  cases op with
  | apply block =>
    rw [Session.step] at hstep
    cases happly : s.now.builder.applyFinalizedBlock poseidon block with
    | mk result b =>
      rw [happly] at hstep
      cases result with
      | error error =>
        cases hstep
        rw [h.tracks.canonical.applyFinalizedBlock_error happly]
        exact h
      | ok u =>
        cases hstep
        exact h.append happly
  | rewind hash =>
    rw [Session.step] at hstep
    cases hdrop : s.retained.dropWhile fun p => p.builder.tip.hash ≠ hash with
    | nil =>
      have hunknown : ∀ p ∈ s.now :: s.past, p.builder.tip.hash ≠ hash := by
        simpa [Session.retained] using List.dropWhile_eq_nil_iff.mp hdrop
      rw [h.rewindTo_unknown hunknown] at hstep
      cases hstep
      exact h
    | cons p rest =>
      rw [h.rewindTo_known hdrop] at hstep
      simp only [hdrop] at hstep
      cases hstep
      exact (h.popUntil hdrop).2

-- Every reachable builder is linked to the moments it can go back to.
theorem Reachable.linked {s : Session} (h : Reachable poseidon s) :
    Linked poseidon s.now s.past := by
  induction h with
  | new h => exact Tracks.of_new h
  | restore h => exact Tracks.of_restore h
  | step _ hstep ih => exact ih.step hstep

end

end Ubi2.StatusSnapshot
