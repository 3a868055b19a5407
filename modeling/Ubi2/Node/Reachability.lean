import Ubi2.Lib.Run
import Ubi2.Node.Driver

namespace Ubi2.Node

open Ubi2.Runtime Ubi2.Lib Ubi2.Rpc Ubi2.Network

-- A report of the network to the driver, with the transport event that caused it. A report
-- without one answers a command of the driver's own.
structure Report where
  cause : Option SwarmEvent
  event : NetEvent

-- A node: its driver, the swarm loop beside it, and the two channels between them, of which
-- that of the commands is what the driver has sent and the loop not yet taken. The causes
-- and the reports handled so far are history, which no step reads.
structure FullNode where
  driver : NetDriver
  swarm : LoopState
  channel : List Report
  taken : Nat
  time : Nat
  handled : List (Nat × Report)

inductive NodeAction where
  | swarm (ev : SwarmEvent)
  | command
  | event
  | tick (timestamp : U64)
  | relay

namespace FullNode

def act (host : NodeHost) (n : FullNode) (clock : Clock) : NodeAction → Option FullNode
  | .swarm ev =>
    let (st, evs) := n.swarm.handleSwarmEvent host clock.instant ev
    some { n with swarm := st, channel := n.channel ++ evs.map (⟨some ev, ·⟩) }
  | .command =>
    match n.driver.sent[n.taken]? with
    | none => some n
    | some cmd =>
      let (st, evs) := n.swarm.handleCmd clock.instant cmd
      some
        { n with
          swarm := st
          taken := n.taken + 1
          channel := n.channel ++ evs.map (⟨none, ·⟩) }
  | .event =>
    match n.channel with
    | [] => some n
    | r :: channel =>
      (n.driver.onEvent host clock r.event).map fun d =>
        { n with
          driver := d
          channel := channel
          handled := n.handled ++ [(clock.instant, r)] }
  | .tick timestamp =>
    (n.driver.tickProposer host clock.instant timestamp).map fun r => { n with driver := r.2 }
  | .relay => some { n with driver := n.driver.relayPendingTxs }

-- `none` is a panic.
def step (host : NodeHost) (n : FullNode) (clock : Clock) (a : NodeAction) : Option FullNode :=
  (n.act host clock a).map fun n => { n with time := clock.instant }

def run (host : NodeHost) : FullNode → List (Clock × NodeAction) → Option FullNode
  | n, [] => some n
  | n, (clock, a) :: as => (n.step host clock a).bind fun n => run host n as

-- A pull of blocks that the transport gives up.
def failsPull (n : FullNode) : NodeAction → Bool
  | .swarm (.OutboundFailure _ requestId) =>
    n.swarm.pendingRequests.get requestId = some (requestId, .Blocks)
  | _ => false

-- The steps of a run follow its clock, and no pull fails.
def noFailedPull (host : NodeHost) : FullNode → List (Clock × NodeAction) → Bool
  | _, [] => true
  | n, (clock, a) :: as =>
    n.time ≤ clock.instant && !n.failsPull a &&
      (n.step host clock a).all fun n => noFailedPull host n as

def boot (chain : Chain) (validatorKey : Option ProposerKey)
    (validatorOverride : Option Address) (isProposer : Bool) (chainId : U64)
    (localPeer : PeerId) (blockMs now : Nat) (hello : Hello) : FullNode where
  driver :=
    .new chain validatorKey validatorOverride isProposer chainId localPeer blockMs now
  swarm := ⟨∅, ∅, 0, hello, []⟩
  channel := []
  taken := 0
  time := now
  handled := []

end FullNode

-- What a peer does itself that shows it alive: it connects, or delivers a greeting, a
-- block, an answer or an echo.
def ByPeer (peer : PeerId) : SwarmEvent → Prop
  | .ConnectionEstablished p _ => p = peer
  | .GossipMessage source _ .block _ => source = peer
  | .Request p (.Hello _) => p = peer
  | .Response p _ _ => p = peer
  | .Ping p ok => p = peer ∧ ok = true
  | _ => False

-- At an instant the driver handled what a peer did itself.
def HeardFrom (n : FullNode) (peer : PeerId) (t : Nat) : Prop :=
  ∃ cause event, (t, ⟨some cause, event⟩) ∈ n.handled ∧ ByPeer peer cause

-- A peer bound to a validator was heard from within the liveness timeout.
def Earned (n : FullNode) (now : Nat) (validator : Address) : Prop :=
  ∃ peer e t, n.driver.peers.get peer = some (peer, e) ∧ e.validator = some validator ∧
    HeardFrom n peer t ∧ t ≤ now ∧ now - t < n.driver.livenessTimeout

namespace NetDriver

def lastAlive (d : NetDriver) (peer : PeerId) : Option Nat := (d.entry peer).lastAlive

-- The later driver takes no peer for alive since an instant the earlier did not, but for
-- those of `P` since now.
def Marks (now : Nat) (P : PeerId → Prop) (d d' : NetDriver) : Prop :=
  ∀ peer t, d'.lastAlive peer = some t → d.lastAlive peer = some t ∨ P peer ∧ t = now

section
variable {host : NodeHost} {now : Nat} {P : PeerId → Prop} {d d₁ d' : NetDriver} {peer : PeerId}

theorem Marks.refl : Marks now P d d := fun _ _ h => Or.inl h

theorem Marks.trans (h : Marks now P d d₁) (h' : Marks now P d₁ d') : Marks now P d d' := by
  intro peer t halive
  rcases h' peer t halive with halive | hmarked
  · exact h peer t halive
  · exact Or.inr hmarked

theorem Marks.of_peers (h : d'.peers = d.peers) : Marks now P d d' := by
  intro peer t halive
  rw [lastAlive, entry, h] at halive
  exact Or.inl halive

theorem lastAlive_setEntry (d : NetDriver) (e : PeerEntry) (p : PeerId) :
    (d.setEntry peer e).lastAlive p = if peer = p then e.lastAlive else d.lastAlive p := by
  simp only [lastAlive, entry, setEntry, Table.get_put]
  split_ifs <;> rfl

theorem Marks.setEntry (h : Marks now P d d') {e : PeerEntry}
    (he : e.lastAlive = d'.lastAlive peer ∨ P peer ∧ e.lastAlive = some now ∨
      e.lastAlive = none) : Marks now P d (d'.setEntry peer e) := by
  refine h.trans ?_
  intro p t halive
  rw [lastAlive_setEntry] at halive
  split_ifs at halive with hp
  · subst hp
    rcases he with he | ⟨hP, he⟩ | he
    · exact Or.inl (he ▸ halive)
    · rw [he] at halive
      exact Or.inr ⟨hP, (Option.some.inj halive).symm⟩
    · rw [he] at halive
      cases halive
  · exact Or.inl halive

-- The peers a step of the driver does not touch.
@[simp] theorem peers_send (d : NetDriver) (cmd : NetCmd) : (d.send cmd).peers = d.peers := rfl

@[simp] theorem peers_publishConsensusStatus (d : NetDriver) (now : Nat) :
    (d.publishConsensusStatus now).peers = d.peers := rfl

@[simp] theorem peers_refreshAdvertisedState (d : NetDriver) (now : Nat) :
    (d.refreshAdvertisedState host now).peers = d.peers := rfl

@[simp] theorem peers_maybeSync (d : NetDriver) (peer : PeerId) (peerTip : Nat) :
    (d.maybeSync peer peerTip).peers = d.peers := by
  simp only [maybeSync]
  split_ifs <;> rfl

@[simp] theorem peers_requestForkBackfill (d : NetDriver) (peer : PeerId) :
    (d.requestForkBackfill peer).peers = d.peers := by
  simp only [requestForkBackfill]
  split_ifs <;> rfl

@[simp] theorem peers_chaseTip (d : NetDriver) (peer : PeerId) :
    (d.chaseTip peer).peers = d.peers := by
  rw [chaseTip]
  cases (d.peers.get peer).bind fun e => e.2.tip with
  | none => rfl
  | some tip => exact peers_maybeSync d peer tip.1

@[simp] theorem peers_onTx (d : NetDriver) (unix : U64) (from_ : PeerId) (id : Hash)
    (raw : Bytes) : (d.onTx host unix from_ id raw).peers = d.peers := by
  rw [onTx]
  split_ifs
  · rfl
  · split <;> rfl

@[simp] theorem peers_relayPendingTxs (d : NetDriver) : d.relayPendingTxs.peers = d.peers :=
  Lib.Run.foldl_keeps (f := fun (d : NetDriver) (raw : Bytes) => d.send (.PublishTx raw))
    NetDriver.peers (fun _ _ => rfl) _ _

theorem peers_applyWireBlock {b : WireBlock} {r : Except BlockError Unit}
    (h : d.applyWireBlock host b = some (r, d')) : d'.peers = d.peers := by
  rw [applyWireBlock] at h
  split at h
  · cases h
  · cases h
    rfl
  · cases h
    rfl

theorem peers_announcedTipIsTrustworthy {b : WireBlock} {ok : Bool}
    (h : d.announcedTipIsTrustworthy host b = (ok, d')) : d'.peers = d.peers := by
  rw [announcedTipIsTrustworthy] at h
  split_ifs at h
  · cases h
    rfl
  · cases h
    rfl

theorem peers_tickView (d : NetDriver) (now : Nat) : (d.tickView now).peers = d.peers := by
  simp only [tickView]
  split_ifs <;> rfl

theorem peers_productionGuardOk {ok : Bool} (h : d.productionGuardOk now = (ok, d')) :
    d'.peers = d.peers := by
  cases h
  rfl

theorem peers_produceIfScheduled {timestamp : U64} {produced : Option Block}
    (h : d.produceIfScheduled host now timestamp = some (produced, d')) :
    d'.peers = d.peers := by
  rw [produceIfScheduled] at h
  generalize d.chain.scheduledProposer _ _ _ = r at h
  obtain ⟨scheduled, chain⟩ := r
  dsimp only at h
  split at h
  · cases h
    rfl
  split at h
  · cases h
    rfl
  split at h
  · rename_i hguard
    have hpeers := peers_productionGuardOk hguard
    cases h
    exact hpeers
  · rename_i hguard
    have hpeers := peers_productionGuardOk hguard
    split at h
    · cases h
    · cases h
      exact hpeers

theorem peers_tickProposer {timestamp : U64} {produced : Option Block}
    (h : d.tickProposer host now timestamp = some (produced, d')) : d'.peers = d.peers := by
  rw [← peers_tickView d now]
  rw [tickProposer] at h
  split at h
  · cases h
    rfl
  · have hpeers := peers_produceIfScheduled h
    exact hpeers

theorem Marks.setTip (h : Marks now P d d') {tip : Nat × Hash} :
    Marks now P d (d'.setTip peer tip) :=
  h.setEntry (Or.inl rfl)

theorem Marks.removePeer (h : Marks now P d d') : Marks now P d (d'.removePeer peer) := by
  refine h.trans ?_
  intro p t halive
  rw [lastAlive, entry, NetDriver.removePeer, Table.get_erase] at halive
  split_ifs at halive with hp
  · cases halive
  · exact Or.inl halive

theorem Marks.modifyEntry (h : Marks now P d d') {f : PeerEntry → PeerEntry}
    (hf : ∀ e, (f e).lastAlive = e.lastAlive) : Marks now P d (d'.modifyEntry peer f) := by
  rw [NetDriver.modifyEntry]
  split
  · rename_i e he
    refine h.setEntry (Or.inl ?_)
    rw [hf, lastAlive, entry, he]
    rfl
  · exact h

theorem marks_markPeerAlive (hP : P peer) : Marks now P d (d.markPeerAlive now peer) :=
  Marks.refl.setEntry (Or.inr (Or.inl ⟨hP, rfl⟩))

-- Handing a block to the fork choice takes no peer for alive.
theorem marks_considerFork {b : WireBlock} {from_ : PeerId}
    (h : d.considerFork host now from_ b = some d') : Marks now P d d' := by
  rw [considerFork] at h
  split at h
  · cases h
  · cases h
    exact (Marks.setTip (.of_peers rfl)).trans (.of_peers rfl)
  · cases h
    exact .of_peers rfl
  · cases h
    refine .of_peers ?_
    split_ifs <;> rfl

theorem marks_onAheadBlock {b : WireBlock} {from_ : PeerId}
    (h : d.onAheadBlock host now from_ b = some d') : Marks now P d d' := by
  rw [onAheadBlock] at h
  split at h
  · rename_i htrust
    cases h
    have hstart : Marks now P d _ := .of_peers (peers_announcedTipIsTrustworthy htrust)
    exact hstart.trans (.of_peers rfl)
  · rename_i htrust
    obtain ⟨d₂, hfork, rfl⟩ := Option.map_eq_some_iff.mp h
    have hstart : Marks now P d _ := .of_peers (peers_announcedTipIsTrustworthy htrust)
    exact ((hstart.trans (marks_considerFork hfork)).setTip).trans
      (.of_peers (peers_maybeSync _ _ _))

theorem marks_onForkBlock {b : WireBlock} {from_ : PeerId} {localHeight : Nat}
    (h : d.onForkBlock host now from_ b localHeight = some d') : Marks now P d d' := by
  rw [onForkBlock] at h
  split at h
  · exact marks_onAheadBlock h
  · exact marks_considerFork h

theorem marks_onBlock {b : WireBlock} (hP : P peer)
    (h : d.onBlock host now peer b = some d') : Marks now P d d' := by
  refine (marks_markPeerAlive hP).trans ?_
  simp only [onBlock] at h
  split at h
  · cases h
    exact .refl
  split at h
  · split at h
    · cases h
    · rename_i happly
      cases h
      have hstart : Marks now P _ _ := .of_peers (peers_applyWireBlock happly)
      exact hstart.setTip.trans (.of_peers rfl)
    · rename_i happly
      have hstart : Marks now P _ _ := .of_peers (peers_applyWireBlock happly)
      split at h
      · cases h
        exact hstart.trans (.of_peers rfl)
      · exact hstart.trans (marks_onForkBlock h)
  · exact marks_onForkBlock h

theorem marks_applySyncBlocks {blocks : List WireBlock} {forkSeen forkSeen' : Bool}
    {from_ : PeerId}
    (h : applySyncBlocks host now from_ blocks forkSeen d = some (forkSeen', d')) :
    Marks now P d d' := by
  induction blocks generalizing d forkSeen with
  | nil =>
    cases h
    exact .refl
  | cons b blocks ih =>
    rw [applySyncBlocks] at h
    split at h
    · exact ih h
    split at h
    · cases h
      exact .of_peers rfl
    split at h
    · split at h
      · cases h
      · rename_i happly
        exact Marks.trans (.of_peers (peers_applyWireBlock happly)) (ih h)
      · rename_i happly
        have hstart : Marks now P d _ := .of_peers (peers_applyWireBlock happly)
        split at h
        · cases h
          exact hstart.trans (.of_peers rfl)
        · obtain ⟨d₂, hfork, h⟩ := Option.bind_eq_some_iff.mp h
          exact (hstart.trans (marks_considerFork hfork)).trans (ih h)
    · obtain ⟨d₂, hfork, h⟩ := Option.bind_eq_some_iff.mp h
      exact (marks_considerFork hfork).trans (ih h)

theorem marks_onSyncProgress : Marks now P d (d.onSyncProgress host now peer) := by
  have hreset : Marks now P d
      (d.modifyEntry peer fun e => { e with syncNoProgress := 0#32 }) :=
    Marks.refl.modifyEntry fun _ => rfl
  exact hreset.trans (.of_peers (peers_chaseTip _ _))

theorem marks_onSyncIdle {forkSeen : Bool} : Marks now P d (d.onSyncIdle peer forkSeen) := by
  rw [onSyncIdle]
  generalize Word.satAdd _ _ = rounds
  have hcount : Marks now P d
      (d.setEntry peer { d.entry peer with syncNoProgress := rounds }) :=
    Marks.refl.setEntry (Or.inl rfl)
  dsimp only
  split_ifs
  · exact (hcount.trans (.of_peers (peers_send _ _))).modifyEntry fun _ => rfl
  · exact hcount.trans (.of_peers (peers_requestForkBackfill _ _))
  · exact hcount.trans (.of_peers (peers_chaseTip _ _))

theorem marks_onSyncResponse {blocks : List WireBlock} (hP : P peer)
    (h : d.onSyncResponse host now peer blocks = some d') : Marks now P d d' := by
  refine (marks_markPeerAlive hP).trans ?_
  simp only [onSyncResponse] at h
  split at h
  · cases h
  · rename_i happly
    cases h
    refine (marks_applySyncBlocks happly).trans (Marks.trans (.of_peers rfl) ?_)
    split_ifs
    · exact marks_onSyncProgress
    · exact marks_onSyncIdle

theorem marks_onHello {hello : Hello} (hP : P peer) :
    Marks now P d (d.onHello host now peer hello) := by
  simp only [onHello]
  split_ifs
  · exact Marks.removePeer (.of_peers rfl)
  · exact Marks.removePeer (.of_peers rfl)
  · exact (Marks.refl.setEntry (Or.inr (Or.inl ⟨hP, rfl⟩))).trans
      (.of_peers (peers_maybeSync _ _ _))

end

end NetDriver

-- The reports by which the driver takes a peer for alive.
def Vouches (peer : PeerId) : NetEvent → Prop
  | .PeerConnected p => p = peer
  | .Hello p _ => p = peer
  | .BlockReceived p _ => p = peer
  | .SyncResponse p _ => p = peer
  | .PeerPing p ok => p = peer ∧ ok = true
  | _ => False

-- The driver takes no peer for alive but the one a report vouches for.
theorem marks_onEvent {host : NodeHost} {clock : Clock} {d d' : NetDriver} {ev : NetEvent}
    (h : d.onEvent host clock ev = some d') :
    d.Marks clock.instant (fun peer => Vouches peer ev) d' := by
  cases ev with
  | Listening =>
    cases h
    exact .refl
  | PeerConnected peer =>
    cases h
    exact (NetDriver.marks_markPeerAlive rfl).trans (.of_peers rfl)
  | PeerDisconnected peer =>
    cases h
    exact NetDriver.Marks.refl.removePeer
  | PeerGreylisted peer =>
    cases h
    exact NetDriver.Marks.refl.removePeer
  | Hello peer hello =>
    cases h
    exact NetDriver.marks_onHello rfl
  | TxReceived from_ id raw =>
    cases h
    exact .of_peers (NetDriver.peers_onTx d clock.unix from_ id raw)
  | BlockReceived from_ b => exact NetDriver.marks_onBlock rfl h
  | SyncRequest from_ request =>
    cases h
    exact .of_peers rfl
  | SyncResponse from_ blocks => exact NetDriver.marks_onSyncResponse rfl h
  | PeerPing peer ok =>
    cases h
    cases ok with
    | false => exact .refl
    | true => exact (NetDriver.marks_markPeerAlive ⟨rfl, rfl⟩).trans (.of_peers rfl)

section
variable {host : NodeHost} {st st' : LoopState} {now : Nat} {peer : PeerId}
variable {evs : List NetEvent} {ev : NetEvent}

theorem not_vouches_penalize {source : PeerId} (hev : ev ∈ (st.penalize now source).2) :
    ¬ Vouches peer ev := by
  rw [LoopState.penalize] at hev
  dsimp only at hev
  split at hev
  · rw [List.mem_singleton] at hev
    subst hev
    exact id
  · cases hev

theorem not_vouches_handleCmd {cmd : NetCmd} (hev : ev ∈ (st.handleCmd now cmd).2) :
    ¬ Vouches peer ev := by
  cases cmd with
  | PenalizePeer source => exact not_vouches_penalize hev
  | PublishTx raw => cases hev
  | PublishBlock b => cases hev
  | RequestBlocks peer request => cases hev
  | RespondBlocks peer blocks => cases hev
  | Disconnect peer => cases hev
  | UpdateHello hello => cases hev

-- A report that vouches for a peer comes from what the peer did itself, unless it stands in
-- for a pull that failed.
theorem byPeer_of_vouches {cause : SwarmEvent} (hev : ev ∈ (st.handleSwarmEvent host now cause).2)
    (hvouches : Vouches peer ev) :
    ByPeer peer cause ∨ ∃ requestId, cause = .OutboundFailure peer requestId ∧
      st.pendingRequests.get requestId = some (requestId, .Blocks) := by
  cases cause with
  | NewListenAddr =>
    rw [List.mem_singleton.mp hev] at hvouches
    exact hvouches.elim
  | ConnectionEstablished p isDialer =>
    rw [List.mem_singleton.mp hev] at hvouches
    exact Or.inl hvouches
  | ConnectionClosed p numEstablished =>
    simp only [LoopState.handleSwarmEvent] at hev
    split at hev
    · rw [List.mem_singleton.mp hev] at hvouches
      exact hvouches.elim
    · cases hev
  | GossipMessage source id topic data =>
    simp only [LoopState.handleSwarmEvent] at hev
    split at hev
    · cases topic with
      | tx =>
        simp only [LoopState.handleGossip] at hev
        split at hev
        · exact (not_vouches_penalize hev hvouches).elim
        · rw [List.mem_singleton.mp hev] at hvouches
          exact hvouches.elim
      | block =>
        simp only [LoopState.handleGossip] at hev
        split at hev
        · split at hev
          · rw [List.mem_singleton.mp hev] at hvouches
            exact Or.inl hvouches
          · exact (not_vouches_penalize hev hvouches).elim
        · exact (not_vouches_penalize hev hvouches).elim
      | other => cases hev
    · cases hev
  | Request p request =>
    simp only [LoopState.handleSwarmEvent] at hev
    split at hev
    · cases request with
      | Hello hello =>
        rw [List.mem_singleton.mp hev] at hvouches
        exact Or.inl hvouches
      | GetBlocks request =>
        simp only [LoopState.handleRequest] at hev
        split at hev
        · rw [List.mem_singleton.mp hev] at hvouches
          exact hvouches.elim
        · exact (not_vouches_penalize hev hvouches).elim
      | GetGenesis => cases hev
    · exact (not_vouches_penalize hev hvouches).elim
  | Response p requestId response =>
    simp only [LoopState.handleSwarmEvent, LoopState.handleResponse] at hev
    split at hev
    · rw [List.mem_singleton.mp hev] at hvouches
      exact Or.inl hvouches
    · rw [List.mem_singleton.mp hev] at hvouches
      exact Or.inl hvouches
    · cases hev
  | OutboundFailure p requestId =>
    simp only [LoopState.handleSwarmEvent, LoopState.handleOutboundFailure] at hev
    split at hev
    · rename_i hpending
      rw [List.mem_singleton.mp hev] at hvouches
      obtain ⟨⟨rid, kind⟩, hget, rfl⟩ := Option.map_eq_some_iff.mp hpending
      obtain rfl : rid = requestId := Table.key_of_get hget
      exact Or.inr ⟨rid, by rw [show p = peer from hvouches], hget⟩
    · cases hev
  | Ping p ok =>
    rw [List.mem_singleton.mp hev] at hvouches
    exact Or.inl hvouches

end

-- What a node keeps: it takes a peer for alive since an instant only if it heard from it
-- then, and each report that waits and vouches for a peer comes from what that peer did.
structure Sound (n : FullNode) : Prop where
  alive : ∀ peer t, n.driver.lastAlive peer = some t → t ≤ n.time ∧ HeardFrom n peer t
  channel : ∀ r ∈ n.channel, ∀ peer, Vouches peer r.event →
    ∃ cause, r.cause = some cause ∧ ByPeer peer cause

section
variable {host : NodeHost} {n n' : FullNode} {clock : Clock} {a : NodeAction}

theorem Sound.of_peers (h : Sound n) (htime : n.time ≤ n'.time)
    (hpeers : n'.driver.peers = n.driver.peers) (hhandled : n'.handled = n.handled)
    (hchannel : ∀ r ∈ n'.channel, r ∈ n.channel ∨ ∀ peer, Vouches peer r.event →
      ∃ cause, r.cause = some cause ∧ ByPeer peer cause) : Sound n' := by
  constructor
  · intro peer t halive
    have halive : n.driver.lastAlive peer = some t := by
      rw [← halive, NetDriver.lastAlive, NetDriver.lastAlive, NetDriver.entry, NetDriver.entry,
        hpeers]
    obtain ⟨ht, hheard⟩ := h.alive peer t halive
    refine ⟨ht.trans htime, ?_⟩
    rw [HeardFrom, hhandled]
    exact hheard
  · intro r hr peer hvouches
    rcases hchannel r hr with hr | hr
    · exact h.channel r hr peer hvouches
    · exact hr peer hvouches

theorem HeardFrom.mono {peer : PeerId} {t : Nat} (h : HeardFrom n peer t)
    (hsub : n.handled ⊆ n'.handled) : HeardFrom n' peer t := by
  obtain ⟨cause, event, hmem, hby⟩ := h
  exact ⟨cause, event, hsub hmem, hby⟩

theorem sound_step (h : Sound n) (htime : n.time ≤ clock.instant) (hpull : n.failsPull a = false)
    (hstep : n.step host clock a = some n') : Sound n' := by
  obtain ⟨n₁, hact, rfl⟩ := Option.map_eq_some_iff.mp hstep
  cases a with
  | swarm cause =>
    cases hact
    refine h.of_peers htime rfl rfl ?_
    intro r hr
    rcases List.mem_append.mp hr with hr | hr
    · exact Or.inl hr
    · obtain ⟨ev, hev, rfl⟩ := List.mem_map.mp hr
      refine Or.inr fun peer hvouches => ⟨cause, rfl, ?_⟩
      rcases byPeer_of_vouches hev hvouches with hby | ⟨requestId, rfl, hpending⟩
      · exact hby
      · simp [FullNode.failsPull, hpending] at hpull
  | command =>
    simp only [FullNode.act] at hact
    split at hact
    · cases hact
      exact h.of_peers htime rfl rfl fun r hr => Or.inl hr
    · cases hact
      refine h.of_peers htime rfl rfl ?_
      intro r hr
      rcases List.mem_append.mp hr with hr | hr
      · exact Or.inl hr
      · obtain ⟨ev, hev, rfl⟩ := List.mem_map.mp hr
        exact Or.inr fun peer hvouches => (not_vouches_handleCmd hev hvouches).elim
  | event =>
    simp only [FullNode.act] at hact
    split at hact
    · cases hact
      exact h.of_peers htime rfl rfl fun r hr => Or.inl hr
    · rename_i r channel hchannel
      obtain ⟨d, hevent, rfl⟩ := Option.map_eq_some_iff.mp hact
      constructor
      · intro peer t halive
        rcases marks_onEvent hevent peer t halive with halive | ⟨hvouches, rfl⟩
        · obtain ⟨ht, hheard⟩ := h.alive peer t halive
          exact ⟨ht.trans htime, hheard.mono (List.subset_append_left _ _)⟩
        · obtain ⟨cause, hcause, hby⟩ := h.channel r (by rw [hchannel]; simp) peer hvouches
          exact ⟨le_refl _, cause, r.event, by simp [← hcause], hby⟩
      · intro r' hr' peer hvouches
        exact h.channel r' (by rw [hchannel]; exact List.mem_cons_of_mem r hr') peer hvouches
  | tick timestamp =>
    obtain ⟨⟨produced, d⟩, htick, rfl⟩ := Option.map_eq_some_iff.mp hact
    exact h.of_peers htime (NetDriver.peers_tickProposer htick) rfl fun r hr => Or.inl hr
  | relay =>
    cases hact
    exact h.of_peers htime (NetDriver.peers_relayPendingTxs _) rfl fun r hr => Or.inl hr

theorem sound_run {steps : List (Clock × NodeAction)} (h : Sound n)
    (hsteps : n.noFailedPull host steps) (hrun : n.run host steps = some n') : Sound n' := by
  induction steps generalizing n with
  | nil =>
    cases hrun
    exact h
  | cons s steps ih =>
    obtain ⟨n₁, hstep, hrun⟩ := Option.bind_eq_some_iff.mp hrun
    rw [FullNode.noFailedPull, hstep] at hsteps
    obtain ⟨hguard, hsteps⟩ := Bool.and_eq_true_iff.mp hsteps
    obtain ⟨htime, hpull⟩ := Bool.and_eq_true_iff.mp hguard
    exact ih (sound_step h (by simpa using htime) (by simpa using hpull) hstep) hsteps hrun

theorem sound_boot {chain : Chain} {validatorKey : Option ProposerKey}
    {validatorOverride : Option Address} {isProposer : Bool} {chainId : U64}
    {localPeer : PeerId} {blockMs now : Nat} {hello : Hello} :
    Sound (.boot chain validatorKey validatorOverride isProposer chainId localPeer blockMs now
      hello) := by
  constructor
  · intro peer t halive
    cases halive
  · intro r hr
    cases hr

-- Whoever is within reach is the node itself or a validator with a fresh peer.
theorem mem_reachableValidators {d : NetDriver} {now : Nat} {v : List Address} {a : Address}
    (h : a ∈ d.reachableValidators now v) :
    d.chain.proposerAddress = some a ∨ ∃ peer e, d.peers.get peer = some (peer, e) ∧
      e.validator = some a ∧ ∃ t, e.lastAlive = some t ∧ now - t < d.livenessTimeout := by
  rw [NetDriver.reachableValidators] at h
  obtain ⟨hmem, -⟩ := List.mem_filter.mp (List.mem_dedup.mp h)
  rcases List.mem_append.mp hmem with hself | hbound
  · exact Or.inl (Option.mem_toList.mp hself)
  · obtain ⟨⟨peer, e⟩, hrow, hvalidator⟩ := List.mem_filterMap.mp hbound
    dsimp only at hvalidator
    split_ifs at hvalidator with hfresh
    obtain ⟨t, halive, hfresh⟩ := (Option.any_eq_true _ _).mp hfresh
    exact Or.inr ⟨peer, e, Table.get_of_mem hrow, hvalidator, t, halive, by simpa using hfresh⟩

-- In a run in which no pull fails, every validator counted within reach but the node itself
-- has earned it.
theorem reachability_earned {chain : Chain} {validatorKey : Option ProposerKey}
    {validatorOverride : Option Address} {isProposer : Bool} {chainId : U64}
    {localPeer : PeerId} {blockMs start : Nat} {hello : Hello}
    {steps : List (Clock × NodeAction)} {now : Nat} {v : List Address} {validator : Address}
    (hsteps : FullNode.noFailedPull host
      (.boot chain validatorKey validatorOverride isProposer chainId localPeer blockMs start
        hello) steps)
    (hrun : FullNode.run host
      (.boot chain validatorKey validatorOverride isProposer chainId localPeer blockMs start
        hello) steps = some n)
    (hnow : n.time ≤ now) (hreach : validator ∈ n.driver.reachableValidators now v)
    (hother : n.driver.chain.proposerAddress ≠ some validator) : Earned n now validator := by
  have hsound := sound_run sound_boot hsteps hrun
  rcases mem_reachableValidators hreach with hself | ⟨peer, e, hget, hvalidator, t, halive, hfresh⟩
  · exact absurd hself hother
  · have halive : n.driver.lastAlive peer = some t := by
      rw [NetDriver.lastAlive, NetDriver.entry, hget]
      exact halive
    obtain ⟨ht, hheard⟩ := hsound.alive peer t halive
    exact ⟨peer, e, t, hget, hvalidator, hheard, ht.trans hnow, hfresh⟩

end

-- A devnet of three validators.
def trioChain (key : Option ProposerKey) : Chain :=
  let genesis := Chain.new devnetHost key 0#64
  { genesis with
    inner := { genesis.inner with state := { epochValidators := [1#160, 2#160, 3#160] } } }

-- The greeting of the second validator, from the peer 9, one block ahead.
def secondHello : Hello where
  genesisHash := (trioChain none).genesisHash
  chainId := 1#64
  tip := (1, 0#256)
  validator := some 2#160
  peerProof := (ProposerKey.devnet 2#160).signPrehash
    (Hello.proofDigest devnetHost 9#304 (trioChain none).genesisHash)
  protocolVer := PROTOCOL_VERSION

-- The first validator.
def trioNode : FullNode :=
  .boot (trioChain (some (.devnet 1#160))) none none true 1#64 7#304 1000 0 secondHello

-- The second validator connects and greets, and is asked for its block.
def greetingSteps : List (Clock × NodeAction) :=
  [(⟨0, 0#64⟩, .swarm (.ConnectionEstablished 9#304 false)), (⟨0, 0#64⟩, .event),
    (⟨0, 0#64⟩, .swarm (.Request 9#304 (.Hello secondHello))), (⟨0, 0#64⟩, .event),
    (⟨0, 0#64⟩, .command)]

-- It then stays silent, and the pull times out.
def silentSteps : List (Clock × NodeAction) :=
  greetingSteps ++
    [(⟨millis 10000, 10#64⟩, .swarm (.OutboundFailure 9#304 0)), (⟨millis 10000, 10#64⟩, .event)]

-- A second after it greeted, the second validator has earned its place.
theorem reachability_earned_greeting : ∃ n, trioNode.run devnetHost greetingSteps = some n ∧
    Earned n (millis 1000) 2#160 := by
  have hrun : (trioNode.run devnetHost greetingSteps).map (fun n =>
      (decide (n.time ≤ millis 1000 ∧ 2#160 ∈ n.driver.reachableValidators (millis 1000) [1#160, 2#160, 3#160]),
        n.driver.chain.proposerAddress)) = some (true, some 1#160) := by decide +kernel
  obtain ⟨n, hrun, hout⟩ := Option.map_eq_some_iff.mp hrun
  obtain ⟨hout, hself⟩ := Prod.mk.inj hout
  obtain ⟨htime, hreach⟩ := of_decide_eq_true hout
  refine ⟨n, hrun, reachability_earned (by decide +kernel) hrun htime hreach ?_⟩
  rw [hself]
  decide

-- The pull that timed out makes the silent validator count, ten seconds after it was last
-- heard from.
theorem silent_peer_counted : ∃ n, trioNode.run devnetHost silentSteps = some n ∧
    2#160 ∈ n.driver.reachableValidators (millis 10000) [1#160, 2#160, 3#160] ∧
    n.driver.chain.proposerAddress ≠ some 2#160 ∧ ¬ Earned n (millis 10000) 2#160 := by
  have hrun : (trioNode.run devnetHost silentSteps).map (fun n =>
      (n.driver.reachableValidators (millis 10000) [1#160, 2#160, 3#160], n.driver.chain.proposerAddress,
        n.driver.livenessTimeout, n.handled.all fun h => h.1 = 0 || h.2.cause.any fun
          | .OutboundFailure _ _ => true
          | .NewListenAddr | .ConnectionEstablished _ _ | .ConnectionClosed _ _
          | .GossipMessage _ _ _ _ | .Request _ _ | .Response _ _ _ | .Ping _ _ => false)) =
        some ([1#160, 2#160], some 1#160, millis 2000, true) := by decide +kernel
  obtain ⟨n, hrun, hout⟩ := Option.map_eq_some_iff.mp hrun
  simp only [Prod.mk.injEq] at hout
  obtain ⟨hreach, hself, htimeout, hhandled⟩ := hout
  refine ⟨n, hrun, by rw [hreach]; decide, by rw [hself]; decide, ?_⟩
  rintro ⟨peer, e, t, -, -, ⟨cause, event, hmem, hby⟩, -, hfresh⟩
  have hold := List.all_eq_true.mp hhandled _ hmem
  rw [htimeout] at hfresh
  cases cause with
  | OutboundFailure p requestId => exact hby
  | _ =>
    have ht : t = 0 := by simpa using hold
    rw [millis, millis] at hfresh
    omega

end Ubi2.Node
