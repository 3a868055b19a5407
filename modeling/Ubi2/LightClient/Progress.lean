import Ubi2.LightClient.Order

namespace Ubi2.LightClient

open Ubi2.Runtime Ubi2.Lib Ubi2.Lib.Encode Ubi2.Lib.Decode

variable {kernel : ILightState} {opts : LightClientOptions kernel} {c c' : Client kernel}

-- The call of `catchUpTo` in progress.
def Sync.catchUp : Sync → Option CatchUp
  | .fetching f _ => some f
  | .draining f => some f
  | .drained f => some f
  | _ => none

-- How far the running call of `catchUpTo` and the running drain are. `tip` is the tip that
-- the client is about to have.
def Sync.Paced (localTip tip : Nat) : Sync → Prop
  | .fetching f _ => f.start ≤ localTip ∧ localTip < f.target ∧ f.sent ≤ localTip + 1 - f.start
  | .draining f => f.start ≤ tip ∧ f.sent ≤ tip - f.start ∧ f.sent ≤ f.target - f.start
  | .drained f => f.start ≤ tip ∧ f.sent ≤ tip - f.start ∧ f.sent ≤ f.target - f.start
  | _ => True

namespace Client

-- The block of a height the client has after these are delivered: the one it has already
-- buffered, or else the first of them.
def offer (c : Client kernel) (n : Nat) (blocks : List Bytes) : Option Bytes :=
  ((c.liveBuffer.get n).map Prod.snd).or (blocks.find? fun b => wireBlockNumber b = some n)

-- The kernel takes the block above a tip, if there is one.
def Takes (opts : LightClientOptions kernel) (c : Client kernel) (tip : Nat) (blocks : List Bytes) :
    Prop :=
  ∀ s b, c.state = some s → c.offer (tip + 1) blocks = some b →
    kernel.applyBlock s b opts.expectedProposer ≠ none

-- A reply that lets the client go on brings the block above the tip, and while `sync` runs
-- the kernel takes every block that it is handed.
def Progresses (opts : LightClientOptions kernel) (c : Client kernel) : Event → Prop
  | .runSync =>
    match c.sync with
    | .fetching _ (.settled (.ok (.Blocks blocks))) =>
      (blocks ≠ [] → Whole blocks → c.offer (c.localTip + 1) blocks ≠ none) ∧
        (Drains c → Takes opts c c.localTip blocks)
    | _ => Drains c → Takes opts c c.localTip []
  | .runDrain =>
    match c.drain with
    | .applying (.ok n) => c.sync.running = true → Takes opts c n []
    | .fetching _ (.settled (.ok (.Blocks blocks))) =>
      blocks ≠ [] ∨ c.drainQueued = true → Whole blocks →
        c.offer (c.localTip + 1) blocks ≠ none ∧
          (c.sync.running = true → Takes opts c c.localTip blocks)
    | _ => True
  | _ => True

def Progressing (opts : LightClientOptions kernel) : Client kernel → List Event → Prop
  | _, [] => True
  | c, e :: events => Progresses opts c e ∧ Progressing opts (c.step opts e) events

-- The requests of the call of `catchUpTo` in progress are no more than the heights it was
-- called for, and the gap requests of the running drain no more than the heights missing
-- below a block it has buffered.
def RequestsBounded (c : Client kernel) : Prop :=
  (∀ f, c.sync.catchUp = some f → f.sent ≤ f.target - f.start) ∧
    ∀ upTo reply, c.drain = .fetching upTo reply → c.drainSent ≤ upTo - c.drainStart

-- A block refused while `sync` runs makes it reject.
def RefusalRejects (c : Client kernel) : Prop :=
  ∀ h ∈ c.handed, h.syncing = true → h.accepted = false → ∃ e, c.sync = .rejected e

-- Buffering a block first makes it the offer at its height, where there was none.
theorem offer_bufferBlock {k n : Nat} {b : Bytes} {blocks : List Bytes}
    (hb : wireBlockNumber b = some k) (hn : c.localTip < n) :
    (c.bufferBlock k b).offer n blocks = c.offer n (b :: blocks) := by
  by_cases hnew : c.localTip < k ∧ ¬ c.liveBuffer.contains k
  · rw [bufferBlock, if_pos hnew]
    by_cases hkn : k = n
    · subst hkn
      have habsent : c.liveBuffer.get k = none := by simpa [Table.contains] using hnew.2
      have hput : (c.liveBuffer.put (k, b)).get k = some (k, b) := Table.get_put_self _ (k, b)
      simp [offer, habsent, hput, hb]
    · have hput : (c.liveBuffer.put (k, b)).get n = c.liveBuffer.get n := Table.get_put_ne hkn
      simp [offer, hput, hb, hkn]
  · rw [bufferBlock, if_neg hnew]
    by_cases hkn : k = n
    · subst hkn
      have hpresent : c.liveBuffer.contains k = true := by
        simpa [hn] using hnew
      obtain ⟨e, he⟩ := Option.isSome_iff_exists.mp hpresent
      simp [offer, he]
    · simp [offer, hb, hkn]

theorem enqueueBlocks_ok {blocks : List Bytes} {buffer : Table (Prod.fst : Nat × Bytes → Nat)}
    (h : c.enqueueBlocks blocks = (.ok (), { c with liveBuffer := buffer })) :
    Whole blocks ∧ ∀ n, c.localTip < n → (buffer.get n).map Prod.snd = c.offer n blocks := by
  induction blocks generalizing c with
  | nil =>
    have hbuffer : buffer = c.liveBuffer := by
      have hc := congrArg (fun r => r.2.liveBuffer) h
      exact hc.symm
    subst hbuffer
    exact ⟨by simp [Whole], fun n _ => by simp [offer]⟩
  | cons b blocks ih =>
    cases hb : wireBlockNumber b with
    | none => simp [enqueueBlocks, hb] at h
    | some k =>
      obtain ⟨buffer', hone, -⟩ := buffered_bufferBlock (c := c) hb
      have hrest : (c.bufferBlock k b).enqueueBlocks blocks = (.ok (), { c with liveBuffer := buffer }) := by
        simpa only [enqueueBlocks, hb] using h
      rw [hone] at hrest
      obtain ⟨hwhole, hoffer⟩ := ih hrest
      refine ⟨?_, fun n hn => ?_⟩
      · intro b' hb'
        rcases List.mem_cons.mp hb' with rfl | hmem
        · simp [hb]
        · exact hwhole b' hmem
      · rw [hoffer n hn, ← offer_bufferBlock hb hn, hone]

def GapPaced (c : Client kernel) : Prop :=
  match c.drain with
  | .fetching upTo _ =>
    c.drainStart ≤ c.localTip ∧ c.localTip < upTo ∧ c.drainSent ≤ c.localTip + 1 - c.drainStart
  | .applying (.ok n) => c.drainStart ≤ n ∧ c.drainSent ≤ n - c.drainStart
  | _ => True

structure Paced (c : Client kernel) : Prop where
  sync : c.sync.Paced c.localTip (c.drain.outcome.getD c.localTip)
  gap : GapPaced c
  accepted : ∀ h ∈ c.handed, h.syncing = true → h.accepted = true

-- A scan asks for no more than the height above the tip, and hands that block over where it
-- is buffered.
theorem Scanned.gapPaced (h : Scanned opts c c') (hstart : c.drainStart ≤ c.localTip)
    (hsent : c.drainSent ≤ c.localTip - c.drainStart ∨
      c.liveBuffer.get (c.localTip + 1) ≠ none ∧ c.drainSent ≤ c.localTip + 1 - c.drainStart)
    (hkernel : ∀ s, c.state = some s → kernel.tip s = c.localTip) : GapPaced c' := by
  cases h with
  | stopped hnext => trivial
  | stateless b queued hnext hstate => trivial
  | refused b queued s hnext hstate happly => trivial
  | gap upTo reply id log queued hnext hupTo =>
    have hless : c.drainSent ≤ c.localTip - c.drainStart := by
      rcases hsent with hless | ⟨hpresent, -⟩
      · exact hless
      · exact absurd hnext hpresent
    exact ⟨hstart, hupTo, by dsimp only; omega⟩
  | accepted b queued s s' hnext hstate happly =>
    obtain ⟨-, htip⟩ := kernel.contiguous happly
    rw [hkernel s hstate] at htip
    simp only [GapPaced, htip]
    omega

-- The tip the client is about to have never falls in a scan, and rises in one that hands
-- over a block the kernel takes.
theorem Scanned.tip_le (h : Scanned opts c c')
    (hkernel : ∀ s, c.state = some s → kernel.tip s = c.localTip) :
    c'.localTip = c.localTip ∧ c.localTip ≤ c'.drain.outcome.getD c'.localTip := by
  cases h with
  | stopped hnext => exact ⟨rfl, le_refl _⟩
  | stateless b queued hnext hstate => exact ⟨rfl, le_refl _⟩
  | refused b queued s hnext hstate happly => exact ⟨rfl, le_refl _⟩
  | gap upTo reply id log queued hnext hupTo => exact ⟨rfl, le_refl _⟩
  | accepted b queued s s' hnext hstate happly =>
    obtain ⟨-, htip⟩ := kernel.contiguous happly
    rw [hkernel s hstate] at htip
    exact ⟨rfl, by simp only [Drain.outcome, Option.getD_some, htip]; omega⟩

-- What the kernel takes of the block that is buffered above the tip.
def TakesNext (opts : LightClientOptions kernel) (c : Client kernel) : Prop :=
  ∀ s e, c.state = some s → c.liveBuffer.get (c.localTip + 1) = some e →
    kernel.applyBlock s e.2 opts.expectedProposer ≠ none

theorem Scanned.advances (h : Scanned opts c c') (htakes : TakesNext opts c)
    (hstate : c.state ≠ none) (hnext : c.liveBuffer.get (c.localTip + 1) ≠ none)
    (hkernel : ∀ s, c.state = some s → kernel.tip s = c.localTip) :
    c'.drain.outcome.getD c'.localTip = c.localTip + 1 := by
  cases h with
  | stopped habsent => exact absurd habsent hnext
  | gap upTo reply id log queued habsent hupTo => exact absurd habsent hnext
  | stateless b queued hpresent hnone => exact absurd hnone hstate
  | refused b queued s hpresent hsome happly => exact absurd happly (htakes s _ hsome hpresent)
  | accepted b queued s s' hpresent hsome happly =>
    obtain ⟨-, htip⟩ := kernel.contiguous happly
    rw [hkernel s hsome] at htip
    exact htip

theorem Scanned.handed_accepted (h : Scanned opts c c')
    (htakes : c.sync.running = true → TakesNext opts c)
    (haccepted : ∀ h ∈ c.handed, h.syncing = true → h.accepted = true) :
    ∀ h ∈ c'.handed, h.syncing = true → h.accepted = true := by
  cases h with
  | stopped hnext => exact haccepted
  | gap upTo reply id log queued hnext hupTo => exact haccepted
  | stateless b queued hnext hstate => exact haccepted
  | accepted b queued s s' hnext hstate happly =>
    intro h hmem hsyncing
    rcases List.mem_append.mp hmem with hold | hnew
    · exact haccepted h hold hsyncing
    · rw [List.mem_singleton.mp hnew]
  | refused b queued s hnext hstate happly =>
    intro h hmem hsyncing
    rcases List.mem_append.mp hmem with hold | hnew
    · exact haccepted h hold hsyncing
    · rw [List.mem_singleton.mp hnew] at hsyncing
      exact absurd happly (htakes hsyncing s _ hstate hnext)

theorem takesNext_of_takes {blocks : List Bytes} {buffer : Table (Prod.fst : Nat × Bytes → Nat)}
    (henqueue : c.enqueueBlocks blocks = (.ok (), { c with liveBuffer := buffer }))
    (h : Takes opts c c.localTip blocks) : TakesNext opts { c with liveBuffer := buffer } := by
  intro s e hstate hnext
  refine h s e.2 hstate ?_
  rw [← (enqueueBlocks_ok henqueue).2 _ (Nat.lt_succ_self _)]
  exact congrArg (Option.map Prod.snd) hnext

theorem takesNext_of_nil {tip : Nat} (h : Takes opts c tip []) :
    TakesNext opts { c with localTip := tip } := by
  intro s e hstate hnext
  refine h s e.2 hstate ?_
  have hget : c.liveBuffer.get (tip + 1) = some e := hnext
  simp [offer, hget]

theorem Progresses.takes (h : Progresses opts c .runSync) (hdrains : Drains c) :
    Takes opts c c.localTip (c.delivered .runSync) := by
  rw [Progresses] at h
  split at h
  · next f blocks heq =>
    have hdelivered : c.delivered .runSync = blocks := by
      rw [delivered, heq]
    rw [hdelivered]
    exact h.2 hdrains
  · next hother =>
    have hdelivered : c.delivered .runSync = [] := by
      rw [delivered]
      split
      · next f blocks heq => exact absurd heq (hother f blocks)
      · rfl
    rw [hdelivered]
    exact h hdrains

-- While a drain runs, what is known of the call of `catchUpTo` is about the tip to come.
theorem Busy.paced (h : Busy c) {localTip localTip' tip tip' : Nat}
    (hpaced : c.sync.Paced localTip tip) (htip : tip ≤ tip') : c.sync.Paced localTip' tip' := by
  have hbusy := h.sync
  cases hc : c.sync with
  | draining f =>
    rw [hc] at hpaced
    obtain ⟨hstart, hsent, hbound⟩ := hpaced
    exact ⟨hstart.trans htip, by omega, hbound⟩
  | loading => rw [hc] at hbusy; exact hbusy.elim
  | opening => rw [hc] at hbusy; exact hbusy.elim
  | greeting reply => rw [hc] at hbusy; exact hbusy.elim
  | anchoring reply => rw [hc] at hbusy; exact hbusy.elim
  | fetching f reply => rw [hc] at hbusy; exact hbusy.elim
  | drained f => rw [hc] at hbusy; exact hbusy.elim
  | querying rounds reply => rw [hc] at hbusy; exact hbusy.elim
  | flushing => trivial
  | resolved => trivial
  | rejected e => trivial

theorem Scanned.paced (h : Scanned opts c c') (hbusy : Busy c)
    (hsync : c.sync.Paced c.localTip c.localTip) (hstart : c.drainStart ≤ c.localTip)
    (hsent : c.drainSent ≤ c.localTip - c.drainStart ∨
      c.liveBuffer.get (c.localTip + 1) ≠ none ∧ c.drainSent ≤ c.localTip + 1 - c.drainStart)
    (hkernel : ∀ s, c.state = some s → kernel.tip s = c.localTip)
    (htakes : c.sync.running = true → TakesNext opts c)
    (haccepted : ∀ h ∈ c.handed, h.syncing = true → h.accepted = true) : Paced c' := by
  obtain ⟨-, hframe, -, -⟩ := h.frame
  obtain ⟨-, hle⟩ := h.tip_le hkernel
  refine ⟨?_, h.gapPaced hstart hsent hkernel, h.handed_accepted htakes haccepted⟩
  rw [hframe]
  exact hbusy.paced hsync hle

theorem Paced.ended (h : Paced c) (houtcome : c.drain.outcome = none) : Paced c.drainResolved := by
  refine ⟨?_, trivial, h.accepted⟩
  have hsync := h.sync
  rw [houtcome] at hsync
  rw [drainResolved]
  cases hc : c.sync <;> rw [hc] at hsync <;> exact hsync

theorem Paced.failed (h : Paced c) (houtcome : c.drain.outcome = none) (e : SyncError) :
    Paced (c.drainRejected e) := by
  refine ⟨?_, trivial, h.accepted⟩
  have hsync := h.sync
  rw [houtcome] at hsync
  rw [drainRejected]
  cases hc : c.sync <;> rw [hc] at hsync <;> first | exact hsync | trivial

theorem Turn.paced {e : Event} (h : Turn opts c e c') (hsound : Sound c) (hpaced : Paced c)
    (hprogress : Progresses opts c e) : Paced c' := by
  have hkernel (houtcome : c.drain.outcome = none) : ∀ s, c.state = some s → kernel.tip s = c.localTip :=
    (hsound.noted houtcome).kernel
  have hsync := hpaced.sync
  cases h with
  | unchanged => exact hpaced
  | settled _ g socket closed =>
    refine ⟨?_, ?_, hpaced.accepted⟩
    · simp only [Drain.outcome_onReply]
      cases hc : c.sync <;> rw [hc] at hsync <;> exact hsync
    · have hgap := hpaced.gap
      rw [GapPaced] at hgap ⊢
      cases hc : c.drain <;> rw [hc] at hgap <;> exact hgap
  | waiting _ sync socket gatewayTip id log hstate hlive hdrain hanchorless =>
    refine ⟨?_, hpaced.gap, hpaced.accepted⟩
    cases sync <;> first | exact hanchorless.elim | trivial
  | rejected buffer e hbetween hbuffer => exact ⟨trivial, hpaced.gap, hpaced.accepted⟩
  | imported s sync id log hstate hlive hdrain himported =>
    refine ⟨?_, ?_, hpaced.accepted⟩
    · rcases himported with ⟨rounds, reply, rfl⟩ | ⟨f, reply, rfl, hstart, hsent, hlt⟩
      · trivial
      · exact ⟨hstart.le, hlt, by simp only [hstart, hsent]; omega⟩
    · simp [GapPaced, hdrain]
  | asked f reply id log hbetween hf hlt =>
    refine ⟨?_, hpaced.gap, hpaced.accepted⟩
    rcases hf with hdrained | ⟨hstart, hsent⟩
    · rw [hdrained, hbetween.drain] at hsync
      obtain ⟨hstart, hsent, -⟩ := hsync
      simp only [Drain.outcome, Option.getD_none] at hstart hsent
      exact ⟨hstart, hlt, by dsimp only; omega⟩
    · exact ⟨hstart.le, hlt, by simp only [hstart, hsent]; omega⟩
  | requeried rounds reply id log hbetween => exact ⟨trivial, hpaced.gap, hpaced.accepted⟩
  | wentLive hbetween hdrains hempty hscan =>
    have htakes := hprogress.takes hdrains
    rw [hempty] at htakes
    refine hscan.paced ⟨hbetween.state, rfl⟩ trivial (le_refl _) (.inl (Nat.zero_le _))
      (hkernel (by rw [hbetween.drain]; rfl)) (fun _ => ?_) hpaced.accepted
    exact takesNext_of_nil htakes
  | fetched f blocks buffer hc hblocks hbetween hbuffer henqueue hscan =>
    have htip := hkernel (by rw [hbetween.drain]; rfl)
    have hdrains : Drains c := by
      rw [Drains, hc]
      exact .inl hblocks
    have htakes := hprogress.takes hdrains
    rw [delivered, hc] at htakes
    have hnext := takesNext_of_takes henqueue htakes
    obtain ⟨hwhole, hoffer⟩ := enqueueBlocks_ok henqueue
    rw [Progresses, hc] at hprogress
    have hpresent : buffer.get (c.localTip + 1) ≠ none := by
      intro habsent
      refine hprogress.1 hblocks hwhole ?_
      rw [← hoffer _ (Nat.lt_succ_self _), habsent]
      rfl
    obtain ⟨-, hframe, -, -⟩ := hscan.frame
    have hadvances : c'.drain.outcome.getD c'.localTip = c.localTip + 1 :=
      hscan.advances (fun s e => hnext s e) hbetween.state hpresent htip
    rw [hc] at hsync
    obtain ⟨hstart, hlt, hsent⟩ := hsync
    refine ⟨?_, hscan.gapPaced (le_refl _) (.inl (Nat.zero_le _)) htip,
      hscan.handed_accepted (fun _ s e => hnext s e) hpaced.accepted⟩
    rw [hframe, hadvances]
    exact ⟨by omega, by omega, by omega⟩
  | buffered blocks buffer hopen hbuffer hquiet => exact ⟨hsync, hpaced.gap, hpaced.accepted⟩
  | queued blocks buffer hopen hlive hdrain hbuffer =>
    exact ⟨hsync, hpaced.gap, hpaced.accepted⟩
  | woken blocks buffer hopen hlive hdrain hbuffer hscan =>
    have hbusy := hsound.phase.busy (.inr hlive)
    have houtcome : c.drain.outcome = none := by rw [hdrain]; rfl
    have hnotRunning : c.sync.running = false := by
      have hphase := hsound.phase
      have hb := hbusy.sync
      rw [Phase] at hphase
      cases hc : c.sync <;> simp only [hc] at hphase hb <;>
        first | rfl | exact hb.elim | exact absurd hdrain hphase.2.2
    rw [houtcome] at hsync
    refine hscan.paced ⟨hbusy.state, hbusy.sync⟩ hsync (le_refl _) (.inl (Nat.zero_le _))
      (hkernel houtcome) (fun hrunning => ?_) hpaced.accepted
    exact absurd (hnotRunning.symm.trans hrunning) Bool.false_ne_true
  | applied n hdrain hscan =>
    have hbusy := hsound.phase.busy (.inl (by simp [hdrain]))
    have hagrees := hsound.agrees
    have hgap := hpaced.gap
    rw [hdrain] at hagrees hsync
    rw [GapPaced, hdrain] at hgap
    rw [Progresses, hdrain] at hprogress
    exact hscan.paced ⟨hbusy.state, hbusy.sync⟩ (hbusy.paced hsync (le_refl _)) hgap.1 (.inl hgap.2)
      hagrees.kernel (fun hrunning => takesNext_of_nil (hprogress hrunning)) hpaced.accepted
  | refused hdrain => exact hpaced.ended (by rw [hdrain]; rfl)
  | aborted e hdrain => exact hpaced.failed (by rw [hdrain]; rfl) e
  | unanswered upTo r e hdrain hr => exact hpaced.failed (by rw [hdrain]; rfl) e
  | emptied upTo hdrain hqueued hscan =>
    have hbusy := hsound.phase.busy (.inl (by simp [hdrain]))
    have houtcome : c.drain.outcome = none := by rw [hdrain]; rfl
    have hgap := hpaced.gap
    rw [houtcome] at hsync
    rw [GapPaced, hdrain] at hgap
    rw [Progresses, hdrain] at hprogress
    obtain ⟨hoffer, htakes⟩ := hprogress (.inr hqueued) (by simp [Whole])
    refine hscan.paced hbusy hsync hgap.1 (.inr ⟨fun habsent => hoffer ?_, hgap.2.2⟩)
      (hkernel houtcome) (fun hrunning => takesNext_of_nil (htakes hrunning)) hpaced.accepted
    simp [offer, habsent]
  | spent upTo hdrain hqueued =>
    rw [hdrain] at hsync
    exact ⟨hsync, trivial, hpaced.accepted⟩
  | filled upTo blocks buffer hdrain hblocks hbuffer henqueue hscan =>
    have hbusy := hsound.phase.busy (.inl (by simp [hdrain]))
    have houtcome : c.drain.outcome = none := by rw [hdrain]; rfl
    have hgap := hpaced.gap
    rw [houtcome] at hsync
    rw [GapPaced, hdrain] at hgap
    rw [Progresses, hdrain] at hprogress
    obtain ⟨hwhole, hoffered⟩ := enqueueBlocks_ok henqueue
    obtain ⟨hoffer, htakes⟩ := hprogress (.inl hblocks) hwhole
    refine hscan.paced ⟨hbusy.state, hbusy.sync⟩ hsync hgap.1
      (.inr ⟨fun habsent => hoffer ?_, hgap.2.2⟩) (hkernel houtcome)
      (fun hrunning => takesNext_of_takes henqueue (htakes hrunning)) hpaced.accepted
    rw [← hoffered _ (Nat.lt_succ_self _), show buffer.get (c.localTip + 1) = none from habsent]
    rfl
  | thrown upTo blocks buffer e hdrain hbuffer hshort =>
    have hbuffered : Paced { c with liveBuffer := buffer } := ⟨hsync, hpaced.gap, hpaced.accepted⟩
    exact hbuffered.failed (by rw [hdrain]; rfl) e
  | saved hdrain => exact hpaced.ended (by rw [hdrain]; rfl)

theorem paced_new : Paced (Client.new : Client kernel) := ⟨trivial, trivial, nofun⟩

theorem Progressing.run {events : List Event} (h : Progressing opts c events) (hsound : Sound c)
    (hpaced : Paced c) : Sound (c.run opts events) ∧ Paced (c.run opts events) := by
  induction events generalizing c with
  | nil => exact ⟨hsound, hpaced⟩
  | cons e events ih =>
    obtain ⟨hprogress, hrest⟩ := h
    have hturn := turn_step opts hsound.phase e
    exact ih hrest (hturn.sound hsound) (hturn.paced hsound hpaced hprogress)

theorem Paced.bounded (h : Paced c) : RequestsBounded c := by
  constructor
  · intro f hf
    have hsync := h.sync
    cases hc : c.sync <;> rw [hc] at hf hsync <;> cases hf
    · obtain ⟨hstart, hlt, hsent⟩ := hsync
      omega
    · exact hsync.2.2
    · exact hsync.2.2
  · intro upTo reply hdrain
    have hgap := h.gap
    rw [GapPaced, hdrain] at hgap
    obtain ⟨hstart, hupTo, hsent⟩ := hgap
    omega

theorem sync_requests_bounded (opts : LightClientOptions kernel) (events : List Event)
    (h : Progressing opts Client.new events) :
    RequestsBounded (Client.new.run opts events) ∧ RefusalRejects (Client.new.run opts events) := by
  obtain ⟨-, hpaced⟩ := h.run sound_new paced_new
  refine ⟨hpaced.bounded, fun x hx hsyncing hrefused => ?_⟩
  have haccepted := hpaced.accepted x hx hsyncing
  rw [hrefused] at haccepted
  cases haccepted

end Client

theorem sync_requests_bounded_sample :
    Client.RequestsBounded (Client.new.run sampleOptions
      (handshake 1 ++ [.message 3 (.Blocks [natBytes 8 1]), .runSync])) ∧
    Client.RefusalRejects (Client.new.run sampleOptions
      (handshake 1 ++ [.message 3 (.Blocks [natBytes 8 1]), .runSync])) := by
  refine Client.sync_requests_bounded sampleOptions _ ?_
  have hoffer : (Client.new.run sampleOptions
      (handshake 1 ++ [.message 3 (.Blocks [natBytes 8 1])])).offer 1 [natBytes 8 1] =
        some (natBytes 8 1) := by decide
  refine ⟨nofun, trivial, trivial, nofun, trivial, nofun, trivial, ⟨fun _ _ h => ?_, ?_⟩, trivial⟩
  · cases hoffer.symm.trans h
  rintro - s b hs hb
  cases hs
  cases hoffer.symm.trans hb
  nofun

-- A block of height 1 that no kernel at the genesis takes.
def forgedBlock : Bytes := natBytes 8 1 ++ [0#8]

-- One more round of `catchUpTo`: the reply, the handover, its verdict, and the next request.
def refetch (k : Nat) : List Event :=
  [.message (k + 3) (.Blocks [forgedBlock]), .runSync, .runDrain, .runSync]

-- `catchUpTo` asks for block 1 for the time after `k` refusals.
structure Refetching (k : Nat) (c : Client sampleKernel) : Prop where
  state : c.state = some (0 : Nat)
  socket : c.socket = true
  closed : c.closed = false
  live : c.live = false
  nextReqId : c.nextReqId = k + 4
  liveBuffer : c.liveBuffer = ∅
  localTip : c.localTip = 0
  drain : c.drain = .idle
  sync : c.sync = .fetching ⟨1, 8, 0, k + 1⟩ (.pending (k + 3))
  handed : c.handed = List.replicate k ⟨forgedBlock, false, true⟩

theorem Refetching.again {k : Nat} {c : Client sampleKernel} (h : Refetching k c) :
    Refetching (k + 1) (c.run sampleOptions (refetch k)) := by
  have hnumber : wireBlockNumber forgedBlock = some 1 := by decide
  have hrefused : sampleKernel.applyBlock (0 : Nat) forgedBlock [] = none := by decide
  have hbuffer : ((∅ : Table (Prod.fst : Nat × Bytes → Nat)).put (1, forgedBlock)).get 1 =
      some (1, forgedBlock) := by decide
  have herase : ((∅ : Table (Prod.fst : Nat × Bytes → Nat)).put (1, forgedBlock)).erase 1 = ∅ := rfl
  have hcontains : (∅ : Table (Prod.fst : Nat × Bytes → Nat)).contains 1 = false := rfl
  obtain ⟨state, socket, closed, badge, gatewayTip, nextReqId, liveBuffer, localTip, drainQueued,
    live, drain, sync, requests, handed, anchorTip, drainStart, drainSent⟩ := c
  obtain ⟨rfl, rfl, rfl, rfl, rfl, rfl, rfl, rfl, rfl, rfl⟩ := h
  simp only [Client.run, refetch, List.foldl_cons, List.foldl_nil, Client.step]
  -- the reply settles the promise of the batch
  rw [Client.onMessage, if_neg (by simp), if_pos (by omega)]
  simp only [Client.settlePending, Sync.onReply, Reply.settle, Drain.onReply, if_true]
  -- its block is buffered and handed over, and the kernel refuses it
  simp only [Client.runSync, Client.fetched, Client.enqueueBlocks, hnumber, Client.bufferBlock,
    hcontains, Client.awaitDrain, Client.draining, Client.startDrain, Client.rescan, Client.pass]
  simp only [Nat.zero_add, Nat.lt_one_iff, not_false_eq_true, and_self, if_true,
    Bool.false_eq_true, if_false, hbuffer, Client.applyWireBlock, sampleOptions, hrefused, herase]
  -- the drain ends without an error, and the loop asks again
  exact ⟨rfl, rfl, rfl, rfl, rfl, rfl, rfl, rfl, rfl, List.replicate_succ'.symm⟩

theorem refetching_run (k : Nat) : ∃ events, Refetching k (Client.new.run sampleOptions events) := by
  induction k with
  | zero => exact ⟨handshake 1, rfl, rfl, rfl, rfl, rfl, rfl, rfl, rfl, rfl, rfl⟩
  | succ k ih =>
    obtain ⟨events, h⟩ := ih
    refine ⟨events ++ refetch k, ?_⟩
    rw [Client.run, List.foldl_append]
    exact h.again

-- A gateway that answers every batch with the same forged block keeps `catchUpTo` asking for
-- the one missing height. `sync` does not reject.
theorem forged_block_refetched :
    (¬ Client.RequestsBounded (Client.new.run sampleOptions (handshake 1 ++ refetch 0)) ∧
      ¬ Client.RefusalRejects (Client.new.run sampleOptions (handshake 1 ++ refetch 0))) ∧
    ∀ n, ∃ events f reply, (Client.new.run sampleOptions events).sync = .fetching f reply ∧
      f.target - f.start = 1 ∧ n < f.sent := by
  have hstart : Refetching 0 (Client.new.run sampleOptions (handshake 1)) :=
    ⟨rfl, rfl, rfl, rfl, rfl, rfl, rfl, rfl, rfl, rfl⟩
  have honce : Refetching 1 (Client.new.run sampleOptions (handshake 1 ++ refetch 0)) := by
    rw [Client.run, List.foldl_append]
    exact hstart.again
  refine ⟨⟨fun hbounded => ?_, fun hrejects => ?_⟩, fun n => ?_⟩
  · have hsent := hbounded.1 ⟨1, 8, 0, 2⟩ (by rw [honce.sync]; rfl)
    exact absurd hsent (by decide)
  · obtain ⟨e, he⟩ := hrejects ⟨forgedBlock, false, true⟩ (by simp [honce.handed]) rfl rfl
    rw [honce.sync] at he
    cases he
  · obtain ⟨events, h⟩ := refetching_run n
    exact ⟨events, _, _, h.sync, rfl, Nat.lt_succ_self n⟩

end Ubi2.LightClient
