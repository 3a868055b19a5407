import Ubi2.Lib.Run
import Ubi2.LightClient.Applier

namespace Ubi2.LightClient

open Ubi2.Runtime Ubi2.Lib Ubi2.Lib.Encode Ubi2.Lib.Decode

variable {kernel : ILightState} {opts : LightClientOptions kernel} {c c' : Client kernel}

-- The tip the kernel announced, where the client has not noted it yet.
def Drain.outcome : Drain → Option Nat
  | .applying (.ok n) => some n
  | _ => none

theorem Drain.outcome_onReply (g : Reply → Reply) (d : Drain) :
    (d.onReply g).outcome = d.outcome := by
  cases d <;> rfl

namespace Client

-- The tip of the client and of the kernel, and the blocks handed over, agree. `tip` is the
-- tip the client is about to have.
structure Agrees (c : Client kernel) (tip : Nat) : Prop where
  numbered : ∀ {n : Nat} {e : Nat × Bytes}, c.liveBuffer.get n = some e →
    wireBlockNumber e.2 = some n
  fresh : c.state = none → c.handed = []
  kernel : ∀ s, c.state = some s → kernel.tip s = tip
  counted : c.state ≠ none → tip = tipAfter c.anchorTip c.handed
  order : InOrder c.anchorTip c.handed

structure Sound (c : Client kernel) : Prop where
  phase : Phase c
  agrees : Agrees c (c.drain.outcome.getD c.localTip)
  ahead : ∀ n, c.drain.outcome = some n → n = c.localTip + 1

theorem Agrees.buffered {tip : Nat} (h : Agrees c tip) {blocks : List Bytes}
    {buffer : Table (Prod.fst : Nat × Bytes → Nat)} (hbuffer : Buffered c blocks buffer) :
    Agrees { c with liveBuffer := buffer } tip where
  numbered hk := by
    rcases hbuffer.fresh hk with hold | ⟨-, -, hnumber⟩
    · exact h.numbered hold
    · exact hnumber
  fresh := h.fresh
  kernel := h.kernel
  counted := h.counted
  order := h.order

-- What `drain` does between two awaits keeps the agreement.
theorem Scanned.agrees (h : Scanned opts c c') (hagrees : Agrees c c.localTip) :
    Agrees c' (c'.drain.outcome.getD c'.localTip) ∧
      ∀ n, c'.drain.outcome = some n → n = c'.localTip + 1 := by
  have hnumbered {n : Nat} {e : Nat × Bytes}
      (hk : (c.liveBuffer.erase (c.localTip + 1)).get n = some e) :
      wireBlockNumber e.2 = some n := by
    rw [Table.get_erase] at hk
    split_ifs at hk
    exact hagrees.numbered hk
  cases h with
  | stopped hnext =>
    exact ⟨⟨hagrees.numbered, hagrees.fresh, hagrees.kernel, hagrees.counted, hagrees.order⟩, nofun⟩
  | gap upTo reply id log queued hnext hupTo =>
    exact ⟨⟨hagrees.numbered, hagrees.fresh, hagrees.kernel, hagrees.counted, hagrees.order⟩, nofun⟩
  | stateless b queued hnext hstate =>
    exact ⟨⟨hnumbered, hagrees.fresh, hagrees.kernel, hagrees.counted, hagrees.order⟩, nofun⟩
  | accepted b queued s s' hnext hstate happly =>
    have hb := hagrees.numbered hnext
    have htip := hagrees.kernel s hstate
    have hcounted := hagrees.counted (by simp [hstate])
    obtain ⟨-, htip'⟩ := kernel.contiguous happly
    refine ⟨⟨hnumbered, nofun, ?_, ?_, ?_⟩, ?_⟩
    · rintro _ ⟨⟩
      rfl
    · intro _
      rw [tipAfter_append, if_pos rfl, ← hcounted, ← htip]
      exact htip'
    · exact (inOrder_append ..).mpr ⟨hagrees.order, by rw [hb, ← hcounted]⟩
    · rintro n ⟨⟩
      rw [htip', htip]
  | refused b queued s hnext hstate happly =>
    have hb := hagrees.numbered hnext
    have hcounted := hagrees.counted (by simp [hstate])
    refine ⟨⟨hnumbered, ?_, hagrees.kernel, ?_, ?_⟩, nofun⟩
    · intro hnone
      exact absurd (hstate.symm.trans hnone) nofun
    · intro _
      rw [tipAfter_append, if_neg (by simp)]
      exact hcounted
    · exact (inOrder_append ..).mpr ⟨hagrees.order, by rw [hb, ← hcounted]⟩

-- It leaves the drain running, and `sync` and the live flag as they were.
theorem Scanned.frame (h : Scanned opts c c') :
    c'.drain ≠ .idle ∧ c'.sync = c.sync ∧ c'.live = c.live ∧ (c'.state = none → c.state = none) := by
  cases h with
  | stopped _ => exact ⟨nofun, rfl, rfl, id⟩
  | gap _ _ _ _ _ _ _ => exact ⟨nofun, rfl, rfl, id⟩
  | stateless _ _ _ _ => exact ⟨nofun, rfl, rfl, id⟩
  | accepted _ _ _ _ _ _ _ => exact ⟨nofun, rfl, rfl, nofun⟩
  | refused _ _ _ _ _ _ => exact ⟨nofun, rfl, rfl, id⟩

-- A drain runs, or one may be started by a push.
structure Busy (c : Client kernel) : Prop where
  state : c.state ≠ none
  sync : match c.sync with
    | .draining _ => c.live = false
    | .flushing | .resolved | .rejected _ => c.live = true
    | _ => False

theorem Phase.busy (h : Phase c) (hbusy : c.drain ≠ .idle ∨ c.live = true) : Busy c := by
  rw [Phase] at h
  constructor <;> cases hsync : c.sync <;> simp only [hsync] at h ⊢ <;> grind

theorem Busy.phase (h : Busy c) (hsync : c'.sync = c.sync) (hlive : c'.live = c.live)
    (hstate : c'.state ≠ none) (hdrain : c'.drain ≠ .idle) : Phase c' := by
  have hbusy := h.sync
  rw [Phase, hsync, hlive]
  cases hc : c.sync <;> simp only [hc] at hbusy ⊢ <;> grind

theorem Scanned.sound (h : Scanned opts c c') (hagrees : Agrees c c.localTip) (hbusy : Busy c) :
    Sound c' := by
  obtain ⟨hagrees', hahead⟩ := h.agrees hagrees
  obtain ⟨hdrain, hsync, hlive, hstate⟩ := h.frame
  exact ⟨hbusy.phase hsync hlive (mt hstate hbusy.state) hdrain, hagrees', hahead⟩

-- The buffer and the bookkeeping aside, the agreement is about these fields.
theorem Agrees.of_eq {tip : Nat} (h : Agrees c tip) (hbuffer : c'.liveBuffer = c.liveBuffer)
    (hstate : c'.state = c.state) (hhanded : c'.handed = c.handed)
    (hanchor : c'.anchorTip = c.anchorTip) : Agrees c' tip where
  numbered := hbuffer ▸ h.numbered
  fresh := hstate ▸ hhanded ▸ h.fresh
  kernel := hstate ▸ h.kernel
  counted := hstate ▸ hhanded ▸ hanchor ▸ h.counted
  order := hhanded ▸ hanchor ▸ h.order

theorem Sound.ended (h : Sound c) (houtcome : c.drain.outcome = none) {sync : Sync}
    (hsync : Phase { c with drain := .idle, sync := sync }) :
    Sound { c with drain := .idle, sync := sync } where
  phase := hsync
  agrees := by
    have hagrees := h.agrees
    rw [houtcome] at hagrees
    exact hagrees.of_eq rfl rfl rfl rfl
  ahead := nofun

theorem Sound.drainResolved (h : Sound c) (houtcome : c.drain.outcome = none)
    (hdrain : c.drain ≠ .idle) : Sound c.drainResolved := by
  have hbusy := h.phase.busy (.inl hdrain)
  have hsync := hbusy.sync
  refine h.ended houtcome ?_
  cases hc : c.sync <;> simp only [hc] at hsync <;> simp [Phase, hsync, hbusy.state]

theorem Sound.drainRejected (h : Sound c) (houtcome : c.drain.outcome = none)
    (hdrain : c.drain ≠ .idle) (e : SyncError) : Sound (c.drainRejected e) := by
  have hbusy := h.phase.busy (.inl hdrain)
  have hsync := hbusy.sync
  refine h.ended houtcome ?_
  cases hc : c.sync <;> simp only [hc] at hsync <;> simp [Phase, hsync, hbusy.state]

theorem Sound.buffered (h : Sound c) {blocks : List Bytes}
    {buffer : Table (Prod.fst : Nat × Bytes → Nat)} (hbuffer : Buffered c blocks buffer) :
    Sound { c with liveBuffer := buffer } :=
  ⟨h.phase, h.agrees.buffered hbuffer, h.ahead⟩

-- Between two awaits of `drain`, the client has noted the tip of the kernel.
theorem Sound.noted (h : Sound c) (houtcome : c.drain.outcome = none) : Agrees c c.localTip := by
  have hagrees := h.agrees
  rwa [houtcome] at hagrees

theorem Sound.of_idle (hphase : Phase c) (hdrain : c.drain = .idle)
    (hagrees : Agrees c c.localTip) : Sound c where
  phase := hphase
  agrees := by rwa [hdrain]
  ahead n hn := by rw [hdrain] at hn; cases hn

theorem Turn.sound {e : Event} (h : Turn opts c e c') (hsound : Sound c) : Sound c' := by
  have hidle (hdrain : c.drain = .idle) : Agrees c c.localTip :=
    hsound.noted (by rw [hdrain]; rfl)
  cases h with
  | unchanged => exact hsound
  | settled _ g socket closed =>
    refine ⟨?_, ?_, ?_⟩
    · have hphase := hsound.phase
      rw [Phase] at hphase ⊢
      cases hsync : c.sync <;> simp only [hsync, Sync.onReply] at hphase ⊢ <;>
        cases hdrain : c.drain <;> simp_all [Drain.onReply]
    · simp only [Drain.outcome_onReply]
      exact hsound.agrees.of_eq rfl rfl rfl rfl
    · simp only [Drain.outcome_onReply]
      exact hsound.ahead
  | waiting _ sync socket gatewayTip id log hstate hlive hdrain hsync =>
    refine .of_idle ?_ hdrain ((hidle hdrain).of_eq rfl rfl rfl rfl)
    rw [Phase]
    cases sync <;> first | exact hsync.elim | simp [hstate, hlive, hdrain]
  | rejected buffer e hbetween hbuffer =>
    have hagrees := (hidle hbetween.drain).buffered hbuffer
    refine .of_idle ?_ hbetween.drain (hagrees.of_eq rfl rfl rfl rfl)
    simp [Phase, hbetween.drain, hbetween.live]
  | imported s sync id log hstate hlive hdrain hsync =>
    have hfresh := hsound.agrees.fresh hstate
    refine .of_idle ?_ hdrain ⟨hsound.agrees.numbered, by simp, ?_, ?_, ?_⟩
    · rcases hsync with ⟨rounds, reply, rfl⟩ | ⟨f, reply, rfl, -⟩ <;> simp [Phase, hlive, hdrain]
    · rintro _ ⟨⟩
      rfl
    · intro _
      rw [hfresh]
      rfl
    · rw [hfresh]
      trivial
  | asked f reply id log hbetween hf hlt =>
    refine .of_idle ?_ hbetween.drain ((hidle hbetween.drain).of_eq rfl rfl rfl rfl)
    simp [Phase, hbetween.state, hbetween.live, hbetween.drain]
  | requeried rounds reply id log hbetween =>
    refine .of_idle ?_ hbetween.drain ((hidle hbetween.drain).of_eq rfl rfl rfl rfl)
    simp [Phase, hbetween.state, hbetween.live, hbetween.drain]
  | wentLive hbetween hdrains hempty hscan =>
    exact hscan.sound ((hidle hbetween.drain).of_eq rfl rfl rfl rfl) ⟨hbetween.state, rfl⟩
  | fetched f blocks buffer hsync hblocks hbetween hbuffer henqueue hscan =>
    have hagrees := (hidle hbetween.drain).buffered hbuffer
    exact hscan.sound (hagrees.of_eq rfl rfl rfl rfl) ⟨hbetween.state, hbetween.live⟩
  | buffered blocks buffer hopen hbuffer hquiet => exact hsound.buffered hbuffer
  | queued blocks buffer hopen hlive hdrain hbuffer =>
    have hbuffered := hsound.buffered hbuffer
    exact ⟨hsound.phase, hbuffered.agrees.of_eq rfl rfl rfl rfl, hsound.ahead⟩
  | woken blocks buffer hopen hlive hdrain hbuffer hscan =>
    have hagrees := (hidle hdrain).buffered hbuffer
    have hbusy := hsound.phase.busy (.inr hlive)
    exact hscan.sound (hagrees.of_eq rfl rfl rfl rfl) ⟨hbusy.state, hbusy.sync⟩
  | applied n hdrain hscan =>
    have hbusy := hsound.phase.busy (.inl (by simp [hdrain]))
    have hagrees := hsound.agrees
    rw [hdrain] at hagrees
    exact hscan.sound (hagrees.of_eq rfl rfl rfl rfl) ⟨hbusy.state, hbusy.sync⟩
  | refused hdrain => exact hsound.drainResolved (by rw [hdrain]; rfl) (by simp [hdrain])
  | aborted e hdrain => exact hsound.drainRejected (by rw [hdrain]; rfl) (by simp [hdrain]) e
  | unanswered upTo r e hdrain hr =>
    exact hsound.drainRejected (by rw [hdrain]; rfl) (by simp [hdrain]) e
  | emptied upTo hdrain hqueued hscan =>
    exact hscan.sound (hsound.noted (by rw [hdrain]; rfl))
      (hsound.phase.busy (.inl (by simp [hdrain])))
  | spent upTo hdrain hqueued =>
    have hbusy := hsound.phase.busy (.inl (by simp [hdrain]))
    have hagrees := hsound.noted (by rw [hdrain]; rfl)
    refine ⟨hbusy.phase rfl rfl hbusy.state ?_, hagrees.of_eq rfl rfl rfl rfl, ?_⟩
    · rintro ⟨⟩
    · rintro n ⟨⟩
  | filled upTo blocks buffer hdrain hblocks hbuffer henqueue hscan =>
    have hbusy := hsound.phase.busy (.inl (by simp [hdrain]))
    have hagrees := (hsound.noted (by rw [hdrain]; rfl)).buffered hbuffer
    exact hscan.sound hagrees ⟨hbusy.state, hbusy.sync⟩
  | thrown upTo blocks buffer e hdrain hbuffer hshort =>
    exact (hsound.buffered hbuffer).drainRejected (by rw [hdrain]; rfl) (by simp [hdrain]) e
  | saved hdrain => exact hsound.drainResolved (by rw [hdrain]; rfl) (by simp [hdrain])

theorem sound_new : Sound (Client.new : Client kernel) where
  phase := ⟨rfl, rfl, rfl⟩
  agrees := ⟨nofun, fun _ => rfl, nofun, fun h => absurd rfl h, trivial⟩
  ahead := nofun

theorem Sound.step (h : Sound c) (opts : LightClientOptions kernel) (e : Event) :
    Sound (c.step opts e) :=
  (turn_step opts h.phase e).sound h

theorem Sound.run (h : Sound c) (opts : LightClientOptions kernel) (events : List Event) :
    Sound (c.run opts events) :=
  Lib.Run.foldl_invariant (fun _ e hc => hc.step opts e) events h

def Carries (blocks : List Bytes) (n : Nat) : Prop := ∃ b ∈ blocks, wireBlockNumber b = some n

-- Once the kernel has refused the block above the tip, no other block of that height comes.
def OfferedOnce (c : Client kernel) (e : Event) : Prop :=
  c.badge = .error → ¬ Carries (c.delivered e) (c.localTip + 1)

def Whole (blocks : List Bytes) : Prop := ∀ b ∈ blocks, wireBlockNumber b ≠ none

-- The drain is told of the block above the tip, or finds it itself: none is pushed while the
-- state is persisted or in front of a blob without a number, and a gap request fails only
-- while that block is missing.
def KeepsWake (c : Client kernel) : Event → Prop
  | .message 0 (.Blocks blocks) => c.closed = false →
    match c.drain with
    | .applying _ => True
    | .persisting => ¬ Carries blocks (c.localTip + 1)
    | _ => Whole blocks ∨ ¬ Carries blocks (c.localTip + 1)
  | .runDrain =>
    match c.drain with
    | .fetching _ (.settled (.ok (.Blocks blocks))) => Whole blocks ∨
      ¬ Carries blocks (c.localTip + 1) ∧ c.liveBuffer.get (c.localTip + 1) = none
    | .fetching _ (.settled _) => c.liveBuffer.get (c.localTip + 1) = none
    | _ => True
  | _ => True

def Orderly (opts : LightClientOptions kernel) : Client kernel → List Event → Prop
  | _, [] => True
  | c, e :: events =>
    (OfferedOnce c e ∧ (c.live = true → KeepsWake c e)) ∧ Orderly opts (c.step opts e) events

-- Only the last block handed over may have been refused, and nothing is buffered in its
-- place since.
structure Clean (c : Client kernel) : Prop where
  accepted : c.badge ≠ .error → ∀ h ∈ c.handed, h.accepted = true
  before : ∀ h ∈ c.handed.dropLast, h.accepted = true
  spent : c.badge = .error → c.liveBuffer.get (c.localTip + 1) = none

structure Once (c : Client kernel) : Prop extends Clean c where
  outcome : c.badge = .error → c.drain.outcome = none
  verdict : ∀ e, c.drain = .applying (.error e) → c.badge = .error
  fresh : c.state = none → c.badge ≠ .error

-- No running drain leaves the block above the tip behind.
def Awake (c : Client kernel) : Prop :=
  match c.drain with
  | .applying (.ok _) => True
  | .fetching _ _ => c.drainQueued = true ∨ c.liveBuffer.get (c.localTip + 1) = none
  | _ => c.liveBuffer.get (c.localTip + 1) = none

theorem Buffered.absent {blocks : List Bytes} {buffer : Table (Prod.fst : Nat × Bytes → Nat)}
    (hbuffer : Buffered c blocks buffer) (hnext : c.liveBuffer.get (c.localTip + 1) = none)
    (hcarries : ¬ Carries blocks (c.localTip + 1)) : buffer.get (c.localTip + 1) = none := by
  cases hget : buffer.get (c.localTip + 1) with
  | none => rfl
  | some e =>
    rcases hbuffer.fresh hget with hold | ⟨-, hmem, hnumber⟩
    · rw [hnext] at hold
      cases hold
    · exact absurd ⟨e.2, hmem, hnumber⟩ hcarries

theorem Clean.buffered (h : Clean c) {e : Event} (honce : OfferedOnce c e)
    {buffer : Table (Prod.fst : Nat × Bytes → Nat)}
    (hbuffer : Buffered c (c.delivered e) buffer) : Clean { c with liveBuffer := buffer } where
  accepted := h.accepted
  before := h.before
  spent hbadge := hbuffer.absent (h.spent hbadge) (honce hbadge)

theorem Scanned.once (h : Scanned opts c c') (hclean : Clean c) (hstate : c.state ≠ none) :
    Once c' ∧ Awake c' := by
  have herased : (c.liveBuffer.erase (c.localTip + 1)).get (c.localTip + 1) = none := by
    rw [Table.get_erase, if_pos rfl]
  cases h with
  | stopped hnext =>
    exact ⟨⟨⟨hclean.accepted, hclean.before, hclean.spent⟩, fun _ => rfl, nofun,
      fun h => absurd h hstate⟩, hnext⟩
  | gap upTo reply id log queued hnext hupTo =>
    exact ⟨⟨⟨hclean.accepted, hclean.before, hclean.spent⟩, fun _ => rfl, nofun,
      fun h => absurd h hstate⟩, .inr hnext⟩
  | stateless b queued hnext hnone => exact absurd hnone hstate
  | accepted b queued s s' hnext hsome happly =>
    have hbadge : c.badge ≠ .error := by
      intro hbadge
      rw [hclean.spent hbadge] at hnext
      cases hnext
    refine ⟨⟨⟨?_, ?_, nofun⟩, nofun, nofun, nofun⟩, trivial⟩
    · intro _ h hmem
      rcases List.mem_append.mp hmem with hold | hnew
      · exact hclean.accepted hbadge h hold
      · rw [List.mem_singleton.mp hnew]
    · rw [List.dropLast_concat]
      exact hclean.accepted hbadge
  | refused b queued s hnext hsome happly =>
    have hbadge : c.badge ≠ .error := by
      intro hbadge
      rw [hclean.spent hbadge] at hnext
      cases hnext
    refine ⟨⟨⟨fun h => absurd rfl h, ?_, fun _ => herased⟩, fun _ => rfl, fun _ _ => rfl,
      fun h => absurd h hstate⟩, herased⟩
    rw [List.dropLast_concat]
    exact hclean.accepted hbadge

theorem Once.of_idle (hclean : Clean c) (hdrain : c.drain = .idle)
    (hfresh : c.state = none → c.badge ≠ .error) : Once c where
  toClean := hclean
  outcome _ := by rw [hdrain]; rfl
  verdict e he := by rw [hdrain] at he; cases he
  fresh := hfresh

theorem Turn.once {e : Event} (h : Turn opts c e c') (hsound : Sound c) (honce : Once c)
    (hoffered : OfferedOnce c e) : Once c' := by
  have hclean := honce.toClean
  have hended (sync : Sync) : Once { c with drain := .idle, sync := sync } :=
    .of_idle ⟨hclean.accepted, hclean.before, hclean.spent⟩ rfl honce.fresh
  cases h with
  | unchanged => exact honce
  | settled _ g socket closed =>
    refine ⟨⟨hclean.accepted, hclean.before, hclean.spent⟩, ?_, ?_, honce.fresh⟩
    · intro hbadge
      rw [Drain.outcome_onReply]
      exact honce.outcome hbadge
    · intro e hdrain
      refine honce.verdict e ?_
      cases hc : c.drain <;> simp_all [Drain.onReply]
  | waiting _ sync socket gatewayTip id log hstate hlive hdrain hsync =>
    exact .of_idle ⟨hclean.accepted, hclean.before, hclean.spent⟩ hdrain honce.fresh
  | rejected buffer e hbetween hbuffer =>
    have hbuffered := hclean.buffered hoffered hbuffer
    exact .of_idle ⟨hbuffered.accepted, hbuffered.before, hbuffered.spent⟩ hbetween.drain
      honce.fresh
  | imported s sync id log hstate hlive hdrain hsync =>
    have hbadge := honce.fresh hstate
    exact .of_idle ⟨hclean.accepted, hclean.before, fun h => absurd h hbadge⟩ hdrain (by simp)
  | asked f reply id log hbetween hf hlt =>
    exact .of_idle ⟨hclean.accepted, hclean.before, hclean.spent⟩ hbetween.drain honce.fresh
  | requeried rounds reply id log hbetween =>
    exact .of_idle ⟨hclean.accepted, hclean.before, hclean.spent⟩ hbetween.drain honce.fresh
  | wentLive hbetween hdrains hempty hscan =>
    exact (hscan.once ⟨hclean.accepted, hclean.before, hclean.spent⟩ hbetween.state).1
  | fetched f blocks buffer hsync hblocks hbetween hbuffer henqueue hscan =>
    have hbuffered : Clean { c with liveBuffer := buffer } :=
      hclean.buffered hoffered (by rwa [delivered, hsync])
    exact (hscan.once ⟨hbuffered.accepted, hbuffered.before, hbuffered.spent⟩ hbetween.state).1
  | buffered blocks buffer hopen hbuffer hquiet =>
    have hbuffered : Clean { c with liveBuffer := buffer } := hclean.buffered hoffered
      (by rwa [delivered, if_neg (by simp [hopen])])
    exact ⟨hbuffered, honce.outcome, honce.verdict, honce.fresh⟩
  | queued blocks buffer hopen hlive hdrain hbuffer =>
    have hbuffered : Clean { c with liveBuffer := buffer } := hclean.buffered hoffered
      (by rwa [delivered, if_neg (by simp [hopen])])
    exact ⟨⟨hbuffered.accepted, hbuffered.before, hbuffered.spent⟩, honce.outcome, honce.verdict,
      honce.fresh⟩
  | woken blocks buffer hopen hlive hdrain hbuffer hscan =>
    have hbuffered : Clean { c with liveBuffer := buffer } := hclean.buffered hoffered
      (by rwa [delivered, if_neg (by simp [hopen])])
    exact (hscan.once ⟨hbuffered.accepted, hbuffered.before, hbuffered.spent⟩
      (hsound.phase.busy (.inr hlive)).state).1
  | applied n hdrain hscan =>
    have hbadge : c.badge ≠ .error := by
      intro hbadge
      have houtcome := honce.outcome hbadge
      rw [hdrain] at houtcome
      cases houtcome
    exact (hscan.once ⟨hclean.accepted, hclean.before, fun h => absurd h hbadge⟩
      (hsound.phase.busy (.inl (by simp [hdrain]))).state).1
  | refused hdrain => exact hended _
  | aborted e hdrain => exact hended _
  | unanswered upTo r e hdrain hr => exact hended _
  | emptied upTo hdrain hqueued hscan =>
    exact (hscan.once hclean (hsound.phase.busy (.inl (by simp [hdrain]))).state).1
  | spent upTo hdrain hqueued =>
    exact ⟨⟨hclean.accepted, hclean.before, hclean.spent⟩, fun _ => rfl, by rintro e ⟨⟩, honce.fresh⟩
  | filled upTo blocks buffer hdrain hblocks hbuffer henqueue hscan =>
    have hbuffered : Clean { c with liveBuffer := buffer } :=
      hclean.buffered hoffered (by rwa [delivered, hdrain])
    exact (hscan.once hbuffered (hsound.phase.busy (.inl (by simp [hdrain]))).state).1
  | thrown upTo blocks buffer e hdrain hbuffer hshort =>
    have hbuffered : Clean { c with liveBuffer := buffer } :=
      hclean.buffered hoffered (by rwa [delivered, hdrain])
    exact .of_idle ⟨hbuffered.accepted, hbuffered.before, hbuffered.spent⟩ rfl honce.fresh
  | saved hdrain => exact hended _

theorem Turn.awake {e : Event} (h : Turn opts c e c') (hsound : Sound c) (honce : Once c)
    (hawake : c.live = true → Awake c) (hoffered : OfferedOnce c e)
    (hkeeps : c.live = true → KeepsWake c e) (hlive : c'.live = true) : Awake c' := by
  have hclean := honce.toClean
  cases h with
  | unchanged => exact hawake hlive
  | settled _ g socket closed =>
    have hold := hawake hlive
    rw [Awake] at hold ⊢
    cases hc : c.drain <;> simpa only [hc, Drain.onReply] using hold
  | waiting _ sync socket gatewayTip id log hstate hnotLive hdrain hsync =>
    exact absurd (hnotLive.symm.trans hlive) Bool.false_ne_true
  | rejected buffer e hbetween hbuffer => exact absurd (hbetween.live.symm.trans hlive) Bool.false_ne_true
  | imported s sync id log hstate hnotLive hdrain hsync =>
    exact absurd (hnotLive.symm.trans hlive) Bool.false_ne_true
  | asked f reply id log hbetween hf hlt => exact absurd (hbetween.live.symm.trans hlive) Bool.false_ne_true
  | requeried rounds reply id log hbetween => exact absurd (hbetween.live.symm.trans hlive) Bool.false_ne_true
  | wentLive hbetween hdrains hempty hscan =>
    exact (hscan.once ⟨hclean.accepted, hclean.before, hclean.spent⟩ hbetween.state).2
  | fetched f blocks buffer hsync hblocks hbetween hbuffer henqueue hscan =>
    have hbuffered : Clean { c with liveBuffer := buffer } :=
      hclean.buffered hoffered (by rwa [delivered, hsync])
    exact (hscan.once ⟨hbuffered.accepted, hbuffered.before, hbuffered.spent⟩ hbetween.state).2
  | buffered blocks buffer hopen hbuffer hquiet =>
    have hbuffered : Clean { c with liveBuffer := buffer } := hclean.buffered hoffered
      (by rwa [delivered, if_neg (by simp [hopen])])
    obtain ⟨b, hb, hshort⟩ : ∃ b ∈ blocks, wireBlockNumber b = none :=
      hquiet.resolve_left (by simp [show c.live = true from hlive])
    have hkeep := hkeeps hlive hopen
    have hold := hawake hlive
    rw [Awake] at hold ⊢
    cases hdrain : c.drain with
    | applying outcome =>
      cases outcome with
      | ok n => trivial
      | error e => exact hbuffered.spent (honce.verdict e hdrain)
    | persisting =>
      simp only [hdrain] at hkeep hold
      exact hbuffer.absent hold hkeep
    | idle =>
      simp only [hdrain] at hkeep hold
      exact hbuffer.absent hold (hkeep.resolve_left fun h => h b hb hshort)
    | fetching upTo reply =>
      simp only [hdrain] at hkeep hold
      exact hold.imp_right fun hold => hbuffer.absent hold (hkeep.resolve_left fun h => h b hb hshort)
  | queued blocks buffer hopen _ hdrain hbuffer =>
    have hbuffered : Clean { c with liveBuffer := buffer } := hclean.buffered hoffered
      (by rwa [delivered, if_neg (by simp [hopen])])
    have hkeep := hkeeps hlive hopen
    have hold := hawake hlive
    rw [Awake] at hold ⊢
    cases hc : c.drain with
    | applying outcome =>
      cases outcome with
      | ok n => trivial
      | error e => exact hbuffered.spent (honce.verdict e hc)
    | persisting =>
      simp only [hc] at hkeep hold
      exact hbuffer.absent hold hkeep
    | idle => exact absurd hc hdrain
    | fetching upTo reply => exact .inl rfl
  | woken blocks buffer hopen hwasLive hdrain hbuffer hscan =>
    have hbuffered : Clean { c with liveBuffer := buffer } := hclean.buffered hoffered
      (by rwa [delivered, if_neg (by simp [hopen])])
    exact (hscan.once ⟨hbuffered.accepted, hbuffered.before, hbuffered.spent⟩
      (hsound.phase.busy (.inr hwasLive)).state).2
  | applied n hdrain hscan =>
    have hbadge : c.badge ≠ .error := by
      intro hbadge
      have houtcome := honce.outcome hbadge
      rw [hdrain] at houtcome
      cases houtcome
    exact (hscan.once ⟨hclean.accepted, hclean.before, fun h => absurd h hbadge⟩
      (hsound.phase.busy (.inl (by simp [hdrain]))).state).2
  | refused hdrain => exact hclean.spent (honce.verdict _ hdrain)
  | aborted e hdrain => exact hclean.spent (honce.verdict _ hdrain)
  | unanswered upTo r e hdrain hr =>
    have hkeep := hkeeps hlive
    simp only [KeepsWake, hdrain] at hkeep
    cases r with
    | error e => exact hkeep
    | ok response =>
      cases response with
      | Hello hello => exact hkeep
      | Genesis genesis => exact hkeep
      | Blocks blocks => exact absurd rfl (hr blocks)
  | emptied upTo hdrain hqueued hscan =>
    exact (hscan.once hclean (hsound.phase.busy (.inl (by simp [hdrain]))).state).2
  | spent upTo hdrain hqueued =>
    have hold := hawake hlive
    simp only [Awake, hdrain, hqueued, Bool.false_eq_true, false_or] at hold
    exact hold
  | filled upTo blocks buffer hdrain hblocks hbuffer henqueue hscan =>
    have hbuffered : Clean { c with liveBuffer := buffer } :=
      hclean.buffered hoffered (by rwa [delivered, hdrain])
    exact (hscan.once hbuffered (hsound.phase.busy (.inl (by simp [hdrain]))).state).2
  | thrown upTo blocks buffer e hdrain hbuffer hshort =>
    have hkeep := hkeeps hlive
    simp only [KeepsWake, hdrain] at hkeep
    obtain ⟨b, hb, hshort⟩ := hshort
    obtain ⟨hcarries, hnext⟩ := hkeep.resolve_left fun h => h b hb hshort
    exact hbuffer.absent hnext hcarries
  | saved hdrain =>
    have hold := hawake hlive
    simp only [Awake, hdrain] at hold
    exact hold

theorem once_new : Once (Client.new : Client kernel) :=
  .of_idle ⟨fun _ => nofun, nofun, nofun⟩ rfl nofun

theorem Orderly.run {events : List Event} (h : Orderly opts c events) (hsound : Sound c)
    (honce : Once c) (hawake : c.live = true → Awake c) :
    Once (c.run opts events) ∧ ((c.run opts events).live = true → Awake (c.run opts events)) := by
  induction events generalizing c with
  | nil => exact ⟨honce, hawake⟩
  | cons e events ih =>
    obtain ⟨⟨hoffered, hkeeps⟩, hrest⟩ := h
    have hturn := turn_step opts hsound.phase e
    exact ih hrest (hturn.sound hsound) (hturn.once hsound honce hoffered)
      (hturn.awake hsound honce hawake hoffered hkeeps)

-- The heights handed to the kernel so far are those above the tip of the genesis, in order.
def AppliesOnce (c : Client kernel) : Prop :=
  c.handed.map (fun h => wireBlockNumber h.block) =
    (List.range' (c.anchorTip + 1) c.handed.length).map some

def NoLostWakeup (c : Client kernel) : Prop :=
  c.live = true → c.drain = .idle → c.liveBuffer.get (c.localTip + 1) = none

-- Without any condition on the events, each block handed over is the one above those that
-- the kernel took before it.
theorem handed_in_order (opts : LightClientOptions kernel) (events : List Event) :
    InOrder ((Client.new : Client kernel).run opts events).anchorTip
      ((Client.new : Client kernel).run opts events).handed :=
  (sound_new.run opts events).agrees.order

theorem heights_applied_once (opts : LightClientOptions kernel) (events : List Event)
    (h : Orderly opts Client.new events) :
    AppliesOnce (Client.new.run opts events) ∧ NoLostWakeup (Client.new.run opts events) := by
  obtain ⟨honce, hawake⟩ := h.run sound_new once_new nofun
  constructor
  · exact (handed_in_order opts events).heights honce.before
  · intro hlive hdrain
    have hnext := hawake hlive
    simp only [Awake, hdrain] at hnext
    exact hnext

end Client

-- The kernel of the tests: it takes the eight bytes of the number above its tip.
def sampleKernel : ILightState where
  State := Nat
  tip s := s
  applyBlock s wire _ := if wire = natBytes 8 (s + 1) ∧ s < 255 then some (s + 1) else none
  contiguous {s s' wire proposer} h := by
    by_cases hwire : wire = natBytes 8 (s + 1) ∧ s < 255
    · rw [if_pos hwire] at h
      obtain ⟨rfl, hs⟩ := hwire
      have hnumber : ofBytes (natBytes 8 (s + 1)) = s + 1 := ofBytes_natBytes (by omega)
      refine ⟨?_, (Option.some.inj h).symm⟩
      rw [wireBlockNumber, if_neg (by simp), List.take_of_length_le (by simp), hnumber]
    · rw [if_neg hwire] at h
      cases h

def sampleOptions : LightClientOptions sampleKernel where
  chainId := 21826
  genesisHash := []
  genesisStateRoot := []
  genesisTime := none
  validatorSet := [[]]
  expectedProposer := []
  lightStateGenesisFactory := fun _ _ _ _ _ _ => some (0 : Nat)

def sampleHello (tipHeight : Nat) : SyncResponse := .Hello ⟨[], 21826, tipHeight⟩

def sampleGenesis : SyncResponse := .Genesis ⟨[], 21826, [], 0, [], []⟩

-- The handshake with a gateway at the given tip.
def handshake (tipHeight : Nat) : List Event :=
  [.runSync, .opened, .message 1 (sampleHello tipHeight), .runSync, .message 2 sampleGenesis, .runSync]

def pushOf (n : Nat) : Event := .message 0 (.Blocks [natBytes 8 n])

-- Live at the genesis, block 1 is pushed and applied.
def liveEvents : List Event :=
  handshake 0 ++ [.message 3 (sampleHello 0), .runSync, .saved, pushOf 1, .runDrain]

theorem heights_applied_once_sample :
    Client.AppliesOnce (Client.new.run sampleOptions (liveEvents ++ [.saved, pushOf 2])) ∧
      Client.NoLostWakeup (Client.new.run sampleOptions (liveEvents ++ [.saved, pushOf 2])) := by
  refine Client.heights_applied_once sampleOptions _ ?_
  have hwhole (n : Nat) : Client.Whole [natBytes 8 n] := by
    intro b hb
    rw [List.mem_singleton.mp hb, wireBlockNumber, if_neg (by simp)]
    nofun
  refine ⟨⟨nofun, nofun⟩, ⟨nofun, nofun⟩, ⟨nofun, nofun⟩, ⟨nofun, nofun⟩, ⟨nofun, nofun⟩,
    ⟨nofun, nofun⟩, ⟨nofun, nofun⟩, ⟨nofun, nofun⟩, ⟨nofun, fun _ => trivial⟩,
    ⟨nofun, fun _ _ => .inl (hwhole 1)⟩, ⟨nofun, fun _ => trivial⟩, ⟨nofun, fun _ => trivial⟩,
    ⟨nofun, fun _ _ => .inl (hwhole 2)⟩, trivial⟩

-- Block 2 comes while the state with block 1 is being saved. Nobody applies it.
theorem wakeup_lost : ∃ events,
    ¬ Client.NoLostWakeup (Client.new.run sampleOptions events) := by
  refine ⟨liveEvents ++ [pushOf 2, .saved], fun h => ?_⟩
  have hlive : (Client.new.run sampleOptions (liveEvents ++ [pushOf 2, .saved])).live = true := rfl
  have hdrain : (Client.new.run sampleOptions (liveEvents ++ [pushOf 2, .saved])).drain = .idle := rfl
  have hbuffer : (Client.new.run sampleOptions (liveEvents ++ [pushOf 2, .saved])).liveBuffer.get
      ((Client.new.run sampleOptions (liveEvents ++ [pushOf 2, .saved])).localTip + 1) =
        some (2, natBytes 8 2) := by decide
  rw [h hlive hdrain] at hbuffer
  cases hbuffer

end Ubi2.LightClient
