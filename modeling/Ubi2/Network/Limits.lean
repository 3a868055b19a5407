import Ubi2.Network.Bucket

namespace Ubi2.Network

open Ubi2.Runtime Ubi2.Lib Ubi2.Rpc

-- What reaches the loop: an event of the transport or a command of the driver.
inductive NetAct where
  | swarm (ev : SwarmEvent)
  | cmd (c : NetCmd)

-- The loop, and beside it the connections that each peer has open and the pulls of each that
-- the driver was handed and has not answered.
structure Net where
  loop : LoopState
  connections : PeerId → Nat
  unanswered : PeerId → Nat
  time : Nat

-- Whether the driver is handed a pull of the peer.
def NetEvent.isPullOf (peer : PeerId) : NetEvent → Bool
  | .SyncRequest from_ _ => from_ = peer
  | _ => false

namespace NetAct

def closes (peer : PeerId) : NetAct → Bool
  | .swarm (.ConnectionClosed p _) => p = peer
  | _ => false

def answers (peer : PeerId) : NetAct → Nat
  | .cmd (.RespondBlocks p _) => if p = peer then 1 else 0
  | _ => 0

end NetAct

namespace Net

def boot (hello : Hello) : Net where
  loop := { rate := ∅, pendingRequests := ∅, nextRequestId := 0, localHello := hello, calls := [] }
  connections := fun _ => 0
  unanswered := fun _ => 0
  time := 0

def handle (host : NodeHost) (n : Net) (now : Nat) : NetAct → LoopState × List NetEvent
  | .swarm ev => n.loop.handleSwarmEvent host now ev
  | .cmd c => n.loop.handleCmd now c

-- The transport counts the connections.
def connect (n : Net) : NetAct → PeerId → Nat
  | .swarm (.ConnectionEstablished p _), peer =>
    if p = peer then n.connections peer + 1 else n.connections peer
  | .swarm (.ConnectionClosed p numEstablished), peer =>
    if p = peer then numEstablished else n.connections peer
  | _, peer => n.connections peer

def step (host : NodeHost) (n : Net) (now : Nat) (a : NetAct) : Net where
  loop := (n.handle host now a).1
  connections := n.connect a
  unanswered := fun peer =>
    n.unanswered peer + (n.handle host now a).2.countP (NetEvent.isPullOf peer) - a.answers peer
  time := now

-- Time does not run back, the number of connections that are left after one was closed is
-- right, and the token of a pull is given up with the answer to it.
def Possible (n : Net) (now : Nat) (a : NetAct) : Prop :=
  n.time ≤ now ∧
    match a with
    | .swarm (.ConnectionClosed p numEstablished) => n.connections p = numEstablished + 1
    | .cmd (.RespondBlocks p _) => 0 < n.unanswered p
    | _ => True

def run (host : NodeHost) : Net → List (Nat × NetAct) → Net
  | n, [] => n
  | n, (now, a) :: acts => (n.step host now a).run host acts

-- What holds at every step of a run.
def Along (host : NodeHost) (P : Net → Nat → NetAct → Prop) : Net → List (Nat × NetAct) → Prop
  | _, [] => True
  | n, (now, a) :: acts => P n now a ∧ Along host P (n.step host now a) acts

-- The messages of a peer that are let in by one of its buckets.
def admits (n : Net) (peer : PeerId) (now : Nat) (a : NetAct) (lane : Lane) : Bool :=
  match lane, a with
  | .gossip, .swarm (.GossipMessage source _ _ _) =>
    source = peer && (RateLimiter.allow n.loop.rate source now).1
  | .sync, .swarm (.Request p _) => p = peer && (RateLimiter.allowSync n.loop.rate p now).1
  | _, _ => false

def admitted (host : NodeHost) (lane : Lane) (peer : PeerId) : Net → List (Nat × NetAct) → Nat
  | _, [] => 0
  | n, (now, a) :: acts =>
    (n.admits peer now a lane).toNat + admitted host lane peer (n.step host now a) acts

variable {host : NodeHost} {n : Net} {peer : PeerId} {now : Nat} {a : NetAct}

open RateLimiter

theorem rate_penalize (st : LoopState) (p : PeerId) :
    (st.penalize now p).1.rate = (penalize st.rate p now).2 := by
  unfold LoopState.penalize
  dsimp only
  split_ifs <;> rfl

theorem pulls_penalize (st : LoopState) (p : PeerId) :
    (st.penalize now p).2.countP (NetEvent.isPullOf peer) = 0 := by
  unfold LoopState.penalize
  dsimp only
  split_ifs <;> rfl

-- A message that was let in is handed on, or its sender penalized.
theorem handleGossip_cases (st : LoopState) (source : PeerId) (id : Hash) (data : Bytes)
    (topic : Topic) :
    ((st.handleGossip host now source id data topic).1.rate = st.rate ∨
      (st.handleGossip host now source id data topic).1.rate = (penalize st.rate source now).2) ∧
    (st.handleGossip host now source id data topic).2.countP (NetEvent.isPullOf peer) = 0 := by
  have hpenalty := @rate_penalize now st source
  have hnone := @pulls_penalize peer now st source
  cases topic with
  | tx =>
    dsimp only [LoopState.handleGossip]
    split_ifs
    · exact ⟨Or.inr hpenalty, hnone⟩
    · exact ⟨Or.inl rfl, rfl⟩
  | block =>
    dsimp only [LoopState.handleGossip]
    cases decode data with
    | error e => exact ⟨Or.inr hpenalty, hnone⟩
    | ok b =>
      dsimp only
      split_ifs
      · exact ⟨Or.inl rfl, rfl⟩
      · exact ⟨Or.inr hpenalty, hnone⟩
  | other => exact ⟨Or.inl rfl, rfl⟩

-- A step that leaves the limiter alone and hands on no pull.
theorem charges_idle {r : RateLimiter} (hadmits : ∀ lane, n.admits peer now a lane = false)
    (hpulls : (n.handle host now a).2.countP (NetEvent.isPullOf peer) = 0)
    (hanswers : a.answers peer = 0) (hrate : (n.handle host now a).1.rate = r)
    (hcharges : Charges now peer (fun _ => false) 0 0 n.loop.rate r) :
    Charges now peer (n.admits peer now a)
      ((n.handle host now a).2.countP (NetEvent.isPullOf peer)) (a.answers peer) n.loop.rate
      (n.handle host now a).1.rate := by
  have hfun : n.admits peer now a = fun _ => false := funext hadmits
  rw [hfun, hpulls, hanswers, hrate]
  exact hcharges

theorem charges_cmd (c : NetCmd) :
    Charges now peer (n.admits peer now (.cmd c))
      ((n.handle host now (.cmd c)).2.countP (NetEvent.isPullOf peer)) ((NetAct.cmd c).answers peer)
      n.loop.rate (n.handle host now (.cmd c)).1.rate := by
  have hadmits : ∀ lane, n.admits peer now (.cmd c) lane = false := by
    intro lane
    cases lane <;> rfl
  cases c with
  | RespondBlocks p blocks =>
    have hfun : n.admits peer now (.cmd (.RespondBlocks p blocks)) = fun _ => false :=
      funext hadmits
    rw [hfun]
    exact charges_release n.loop.rate p peer now
  | PenalizePeer p =>
    exact charges_idle hadmits (pulls_penalize _ p) rfl (rate_penalize _ p)
      (charges_penalize n.loop.rate p peer now)
  | _ => exact charges_idle hadmits rfl rfl rfl (charges_refl rfl)

theorem charges_gossip (source : PeerId) (id : Hash) (topic : Topic) (data : Bytes) :
    Charges now peer (n.admits peer now (.swarm (.GossipMessage source id topic data)))
      ((n.handle host now (.swarm (.GossipMessage source id topic data))).2.countP
        (NetEvent.isPullOf peer)) 0 n.loop.rate
      (n.handle host now (.swarm (.GossipMessage source id topic data))).1.rate := by
  have hallow := charges_allow n.loop.rate source peer now
  have hadmits : n.admits peer now (.swarm (.GossipMessage source id topic data)) =
      fun lane => decide (lane = .gossip) && (source = peer && (allow n.loop.rate source now).1) := by
    funext lane
    cases lane <;> rfl
  rw [hadmits]
  dsimp only [handle, LoopState.handleSwarmEvent]
  split_ifs
  · obtain ⟨hrate, hpulls⟩ := @handleGossip_cases host peer now
      { n.loop with rate := (allow n.loop.rate source now).2 } source id data topic
    rw [hpulls]
    rcases hrate with hrate | hrate
    · rw [hrate]
      exact hallow
    · rw [hrate]
      refine hallow.penalize source fun _ => ?_
      rw [allow, entry_put, if_pos rfl]
      exact Option.some_ne_none _
  · exact hallow

theorem charges_request (p : PeerId) (request : SyncRequest) :
    Charges now peer (n.admits peer now (.swarm (.Request p request)))
      ((n.handle host now (.swarm (.Request p request))).2.countP (NetEvent.isPullOf peer)) 0
      n.loop.rate (n.handle host now (.swarm (.Request p request))).1.rate := by
  have hallow := charges_allowSync n.loop.rate p peer now
  have hadmits : n.admits peer now (.swarm (.Request p request)) =
      fun lane => decide (lane = .sync) && (p = peer && (allowSync n.loop.rate p now).1) := by
    funext lane
    cases lane <;> rfl
  have hknown : p = peer → entry (allowSync n.loop.rate p now).2 p ≠ none := by
    intro _
    rw [allowSync, entry_put, if_pos rfl]
    exact Option.some_ne_none _
  rw [hadmits]
  dsimp only [handle, LoopState.handleSwarmEvent]
  split_ifs
  · cases request with
    | Hello hello => exact hallow
    | GetGenesis => exact hallow
    | GetBlocks request =>
      have hacquire := hallow.acquire p hknown
      dsimp only [LoopState.handleRequest]
      split_ifs with hok
      · rw [hok] at hacquire
        dsimp only
        rw [List.countP_singleton]
        simpa [NetEvent.isPullOf] using hacquire
      · have hno : ¬ ((tryAcquireSyncInflight (allowSync n.loop.rate p now).2 p now).1 ∧
            p = peer) := fun h => hok h.1
        rw [if_neg hno] at hacquire
        rw [pulls_penalize, rate_penalize]
        exact hacquire.penalize p fun _ => entry_acquire_ne_none _ p now
  · rw [pulls_penalize, rate_penalize]
    exact hallow.penalize p hknown

-- What a step charges a peer, unless it closes one of its connections.
theorem charges_step (hopen : a.closes peer = false) :
    Charges now peer (n.admits peer now a)
      ((n.handle host now a).2.countP (NetEvent.isPullOf peer)) (a.answers peer) n.loop.rate
      (n.step host now a).loop.rate := by
  cases a with
  | cmd c => exact charges_cmd c
  | swarm ev =>
    cases ev with
    | GossipMessage source id topic data => exact charges_gossip source id topic data
    | Request p request => exact charges_request p request
    | NewListenAddr =>
      exact charges_idle (fun lane => by cases lane <;> rfl) rfl rfl rfl
        (charges_refl rfl)
    | Ping p ok =>
      exact charges_idle (fun lane => by cases lane <;> rfl) rfl rfl rfl
        (charges_refl rfl)
    | ConnectionEstablished p isDialer =>
      refine charges_idle (fun lane => by cases lane <;> rfl) rfl rfl ?_
        (charges_refl rfl)
      dsimp only [handle, LoopState.handleSwarmEvent]
      split_ifs <;> rfl
    | ConnectionClosed p numEstablished =>
      have hpeer : peer ≠ p := fun h => of_decide_eq_false hopen h.symm
      refine charges_idle (fun lane => by cases lane <;> rfl) ?_ rfl rfl
        (charges_refl ?_)
      · dsimp only [handle, LoopState.handleSwarmEvent]
        split_ifs <;> rfl
      · exact (entry_forget _ _ _).trans (if_neg hpeer)
    | Response p requestId response =>
      refine charges_idle (fun lane => by cases lane <;> rfl) ?_ rfl ?_
        (charges_refl rfl)
      · dsimp only [handle, LoopState.handleSwarmEvent, LoopState.handleResponse]
        split <;> rfl
      · dsimp only [handle, LoopState.handleSwarmEvent, LoopState.handleResponse]
        split <;> rfl
    | OutboundFailure p requestId =>
      refine charges_idle (fun lane => by cases lane <;> rfl) ?_ rfl ?_
        (charges_refl rfl)
      · dsimp only [handle, LoopState.handleSwarmEvent, LoopState.handleOutboundFailure]
        split <;> rfl
      · dsimp only [handle, LoopState.handleSwarmEvent, LoopState.handleOutboundFailure]
        split <;> rfl

-- A connection that is closed takes with it all that is kept of its peer.
theorem entry_of_closes (hcloses : a.closes peer = true) :
    entry (n.step host now a).loop.rate peer = none := by
  cases a with
  | cmd c => cases hcloses
  | swarm ev =>
    cases ev with
    | ConnectionClosed p numEstablished =>
      have hpeer : peer = p := (of_decide_eq_true hcloses).symm
      exact (entry_forget _ _ _).trans (if_pos hpeer)
    | _ => cases hcloses

theorem idle_of_closes (hcloses : a.closes peer = true) :
    (n.step host now a).unanswered peer = n.unanswered peer ∧
      ∀ lane, n.admits peer now a lane = false := by
  cases a with
  | cmd c => cases hcloses
  | swarm ev =>
    cases ev with
    | ConnectionClosed p numEstablished =>
      refine ⟨?_, fun lane => by cases lane <;> rfl⟩
      dsimp only [step, handle, LoopState.handleSwarmEvent]
      split_ifs <;> rfl
    | _ => cases hcloses

theorem run_append (n : Net) (before after : List (Nat × NetAct)) :
    n.run host (before ++ after) = (n.run host before).run host after := by
  induction before generalizing n with
  | nil => rfl
  | cons x before ih => exact ih _

theorem along_append {P : Net → Nat → NetAct → Prop} (before after : List (Nat × NetAct)) :
    Along host P n (before ++ after) ↔
      Along host P n before ∧ Along host P (n.run host before) after := by
  induction before generalizing n with
  | nil => exact ⟨fun h => ⟨trivial, h⟩, And.right⟩
  | cons x before ih =>
    rw [List.cons_append, Along, ih, Along, and_assoc]
    rfl

-- Every bucket is as full as it may be at most.
def Sane (n : Net) : Prop :=
  ∀ peer lane t, laneOf lane n.loop.rate peer = some t → t.Sane lane n.time

theorem sane_laneStep {lane : Lane} {t t' : Option TokenBucket} {b : Bool} {time : Nat}
    (h : LaneStep lane now t b t') (hsane : ∀ x, t = some x → x.Sane lane time)
    (htime : time ≤ now) : ∀ x, t' = some x → x.Sane lane now := by
  cases h with
  | keep => exact fun x hx => (hsane x hx).mono htime
  | create =>
    intro x hx
    cases hx
    exact TokenBucket.sane_fresh lane now
  | take =>
    intro x hx
    cases hx
    cases t with
    | none => exact TokenBucket.sane_take (TokenBucket.sane_fresh lane now) (le_refl _)
    | some t => exact TokenBucket.sane_take (hsane t rfl) htime

theorem sane_step (h : n.Sane) (hpossible : n.Possible now a) : (n.step host now a).Sane := by
  intro peer lane t ht
  by_cases hcloses : a.closes peer = true
  · rw [laneOf, entry_of_closes hcloses] at ht
    cases ht
  · have hcharges := @charges_step host n peer now a (Bool.eq_false_of_not_eq_true hcloses)
    exact sane_laneStep (hcharges.lanes lane) (h peer lane) hpossible.1 t ht

theorem sane_run {acts : List (Nat × NetAct)} (h : n.Sane) (hlegal : Along host Possible n acts) :
    (n.run host acts).Sane := by
  induction acts generalizing n with
  | nil => exact h
  | cons x acts ih => exact ih (sane_step h hlegal.1) hlegal.2

theorem sane_boot (hello : Hello) : (boot hello).Sane := by
  intro peer lane t ht
  cases ht

-- The limiter knows of every pull that is not answered, and there are few.
structure Counted (n : Net) (peer : PeerId) : Prop where
  known : inflight n.loop.rate peer = n.unanswered peer
  few : n.unanswered peer ≤ SYNC_MAX_INFLIGHT_PER_PEER

theorem counted_step (h : n.Counted peer) (hsettled : a.closes peer = true → n.unanswered peer = 0) :
    (n.step host now a).Counted peer := by
  by_cases hcloses : a.closes peer = true
  · have hnone := (@idle_of_closes host n peer now a hcloses).1
    have hzero := hsettled hcloses
    refine ⟨?_, by omega⟩
    rw [inflight, entry_of_closes hcloses, hnone, hzero]
    rfl
  · have hcharges := @charges_step host n peer now a (Bool.eq_false_of_not_eq_true hcloses)
    have hpulls : inflight (n.step host now a).loop.rate peer =
        (n.step host now a).unanswered peer := by
      rw [hcharges.pulls, h.known]
      rfl
    refine ⟨hpulls, ?_⟩
    rw [← hpulls]
    exact hcharges.capped (h.known.trans_le h.few)

-- No connection of the peer is closed while one of its pulls is not answered.
def Settled (host : NodeHost) (peer : PeerId) : Net → List (Nat × NetAct) → Prop :=
  Along host fun n _ a => a.closes peer = true → n.unanswered peer = 0

theorem counted_run {acts : List (Nat × NetAct)} (h : n.Counted peer)
    (hsettled : Settled host peer n acts) : (n.run host acts).Counted peer := by
  induction acts generalizing n with
  | nil => exact h
  | cons x acts ih => exact ih (counted_step h hsettled.1) hsettled.2

-- What is left of a bucket, or that there is none yet.
def SpentBy (start admitted : Nat) (t : Option TokenBucket) : Prop :=
  (t = none → admitted = 0) ∧ ∀ x, t = some x → x.Spent start admitted

theorem spentBy_laneStep {lane : Lane} {t t' : Option TokenBucket} {b : Bool}
    {time start admitted : Nat} (h : LaneStep lane now t b t')
    (hsane : ∀ x, t = some x → x.Sane lane time) (hstart : start ≤ now)
    (hspent : SpentBy start admitted t) : SpentBy start (admitted + b.toNat) t' := by
  cases h with
  | keep => exact hspent
  | create =>
    refine ⟨by rintro ⟨⟩, ?_⟩
    intro x _
    rw [hspent.1 rfl]
    exact Or.inl rfl
  | take =>
    refine ⟨by rintro ⟨⟩, ?_⟩
    intro x hx
    cases hx
    cases t with
    | none =>
      have hfresh := TokenBucket.sane_fresh lane now
      rw [hspent.1 rfl]
      exact TokenBucket.spent_take hfresh hstart (Or.inl rfl)
    | some t => exact TokenBucket.spent_take (hsane t rfl) hstart (hspent.2 t rfl)

-- The connections of the peer stay as they are, or more are opened.
def Open (host : NodeHost) (peer : PeerId) : Net → List (Nat × NetAct) → Prop :=
  Along host fun _ _ a => a.closes peer = false

theorem spentBy_run {lane : Lane} {acts : List (Nat × NetAct)} {start k : Nat} (h : n.Sane)
    (hlegal : Along host Possible n acts) (hopen : Open host peer n acts)
    (hstart : ∀ x ∈ acts, start ≤ x.1)
    (hspent : SpentBy start k (laneOf lane n.loop.rate peer)) :
    SpentBy start (k + admitted host lane peer n acts)
      (laneOf lane (n.run host acts).loop.rate peer) := by
  induction acts generalizing n k with
  | nil => exact hspent
  | cons x acts ih =>
    have hcharges := @charges_step host n peer x.1 x.2 hopen.1
    have hnext := spentBy_laneStep (hcharges.lanes lane) (h peer lane) (hstart x (by simp)) hspent
    have hrest := ih (sane_step h hlegal.1) hlegal.2 hopen.2
      (fun y hy => hstart y (List.mem_cons_of_mem x hy)) hnext
    rw [admitted, ← Nat.add_assoc]
    exact hrest

theorem invalidCount_run {acts : List (Nat × NetAct)} (hopen : Open host peer n acts) :
    invalidCount n.loop.rate peer ≤ invalidCount (n.run host acts).loop.rate peer := by
  induction acts generalizing n with
  | nil => exact le_refl _
  | cons x acts ih =>
    have hcharges := @charges_step host n peer x.1 x.2 hopen.1
    exact hcharges.penalties.trans (ih hopen.2)

theorem time_run_le {acts : List (Nat × NetAct)} {last : Nat} (h : n.time ≤ last)
    (hlast : ∀ x ∈ acts, x.1 ≤ last) : (n.run host acts).time ≤ last := by
  induction acts generalizing n with
  | nil => exact h
  | cons x acts ih =>
    exact ih (hlast x (by simp)) fun y hy => hlast y (List.mem_cons_of_mem x hy)

-- The bound on what is let in over a window of so many milliseconds.
theorem admitted_le {lane : Lane} {acts : List (Nat × NetAct)} {start ms : Nat} (h : n.Sane)
    (hlegal : Along host Possible n acts) (hopen : Open host peer n acts)
    (hwindow : ∀ x ∈ acts, start ≤ x.1 ∧ x.1 ≤ start + millis ms) :
    admitted host lane peer n acts ≤ lane.capacity + ms * lane.refillPerSec / 1000 := by
  cases acts with
  | nil => exact Nat.zero_le _
  | cons x acts =>
    have hnone : SpentBy start 0 (laneOf lane n.loop.rate peer) :=
      ⟨fun _ => rfl, fun _ _ => Or.inl rfl⟩
    have hspent := spentBy_run h hlegal hopen (fun y hy => (hwindow y hy).1) hnone
    have htime : n.time ≤ start + millis ms := hlegal.1.1.trans (hwindow x (by simp)).2
    have hend := @time_run_le host n (x :: acts) _ htime fun y hy => (hwindow y hy).2
    rw [Nat.zero_add] at hspent
    cases hlane : laneOf lane (n.run host (x :: acts)).loop.rate peer with
    | none =>
      rw [hspent.1 hlane]
      exact Nat.zero_le _
    | some t =>
      exact TokenBucket.admitted_le (sane_run h hlegal peer lane t hlane) (hspent.2 t hlane) hend

-- The peer has a connection open all along.
def Connected (host : NodeHost) (peer : PeerId) (n : Net) (acts : List (Nat × NetAct)) : Prop :=
  0 < n.connections peer ∧
    Along host (fun n now a => 0 < (n.step host now a).connections peer) n acts

-- No connection of the peer is closed but its last one.
def OnlyLast (host : NodeHost) (peer : PeerId) : Net → List (Nat × NetAct) → Prop :=
  Along host fun n _ a => a.closes peer = true → n.connections peer = 1

theorem open_of_onlyLast {acts : List (Nat × NetAct)} (hlegal : Along host Possible n acts)
    (hconnected : Connected host peer n acts) (honly : OnlyLast host peer n acts) :
    Open host peer n acts := by
  induction acts generalizing n with
  | nil => trivial
  | cons x acts ih =>
    obtain ⟨-, hstep, hrest⟩ := hconnected
    refine ⟨?_, ih hlegal.2 ⟨hstep, hrest⟩ honly.2⟩
    by_contra hcloses
    have hcloses : x.2.closes peer = true := by simpa using hcloses
    have hone := honly.1 hcloses
    obtain ⟨now, a⟩ := x
    cases a with
    | cmd c => cases hcloses
    | swarm ev =>
      cases ev with
      | ConnectionClosed p numEstablished =>
        have hpeer : p = peer := of_decide_eq_true hcloses
        have hleft : n.connections p = numEstablished + 1 := hlegal.1.2
        simp only [step, connect, if_pos hpeer] at hstep
        rw [hpeer, hone] at hleft
        omega
      | _ => cases hcloses

-- In a run in which no connection of a peer is closed while one of its pulls is not answered,
-- few pulls of it are not answered. Over a window in which the peer stays connected, and none
-- but the last of its connections is closed, it keeps its penalties, and each of its buckets
-- lets in what it can hold and what is refilled.
theorem peer_limits {hello : Hello} {before window : List (Nat × NetAct)}
    (hlegal : Along host Possible (boot hello) (before ++ window)) :
    (Settled host peer (boot hello) (before ++ window) →
      ((boot hello).run host (before ++ window)).unanswered peer ≤ SYNC_MAX_INFLIGHT_PER_PEER) ∧
    (Connected host peer ((boot hello).run host before) window →
      OnlyLast host peer ((boot hello).run host before) window →
      invalidCount ((boot hello).run host before).loop.rate peer ≤
        invalidCount ((boot hello).run host (before ++ window)).loop.rate peer ∧
      ∀ lane start ms, (∀ x ∈ window, start ≤ x.1 ∧ x.1 ≤ start + millis ms) →
        admitted host lane peer ((boot hello).run host before) window ≤
          lane.capacity + ms * lane.refillPerSec / 1000) := by
  obtain ⟨hbefore, hwindow⟩ := (along_append before window).mp hlegal
  refine ⟨?_, ?_⟩
  · intro hsettled
    have hboot : (boot hello).Counted peer := ⟨rfl, Nat.zero_le _⟩
    exact (counted_run hboot hsettled).few
  · intro hconnected honly
    have hsane := sane_run (sane_boot hello) hbefore
    have hopen := open_of_onlyLast hwindow hconnected honly
    refine ⟨?_, ?_⟩
    · rw [run_append]
      exact invalidCount_run hopen
    · intro lane start ms htimes
      exact admitted_le hsane hwindow hopen htimes

end Net

-- The peer 9.
def sampleGreeting : Hello where
  genesisHash := 0#256
  chainId := 1#64
  tip := (0, 0#256)
  validator := none
  peerProof := []
  protocolVer := PROTOCOL_VERSION

-- The peer 9 connects twice.
def twice : List (Nat × NetAct) :=
  [(0, .swarm (.ConnectionEstablished 9#304 false)),
    (0, .swarm (.ConnectionEstablished 9#304 false))]

-- So many pulls of the peer 9.
def pulls (now : Nat) : Nat → List (Nat × NetAct)
  | 0 => []
  | count + 1 => (now, .swarm (.Request 9#304 (.GetBlocks ⟨0, 100⟩))) :: pulls now count

namespace Net

variable {host : NodeHost} {n : Net} {now : Nat}

theorem legal_twice : Along host Possible (boot sampleGreeting) twice :=
  ⟨⟨Nat.le_refl 0, trivial⟩, ⟨Nat.le_refl 0, trivial⟩, trivial⟩

theorem legal_pulls (count : Nat) (h : n.time ≤ now) : Along host Possible n (pulls now count) := by
  induction count generalizing n with
  | zero => trivial
  | succ count ih => exact ⟨⟨h, trivial⟩, ih (Nat.le_refl now)⟩

theorem connected_pulls (count : Nat) (h : 0 < n.connections 9#304) :
    Connected host 9#304 n (pulls now count) := by
  induction count generalizing n with
  | zero => exact ⟨h, trivial⟩
  | succ count ih => exact ⟨h, ih h⟩

theorem open_pulls (count : Nat) : Open host 9#304 n (pulls now count) := by
  induction count generalizing n with
  | zero => trivial
  | succ count ih => exact ⟨rfl, ih⟩

theorem Open.along {peer : PeerId} {acts : List (Nat × NetAct)} {P : Net → Prop}
    (h : Open host peer n acts) :
    Along host (fun n _ a => a.closes peer = true → P n) n acts := by
  induction acts generalizing n with
  | nil => trivial
  | cons x acts ih =>
    refine ⟨fun hcloses => ?_, ih h.2⟩
    rw [h.1] at hcloses
    cases hcloses

-- A burst of pulls of a peer that stays connected.
theorem peer_limits_burst :
    ((boot sampleGreeting).run devnetHost (twice ++ pulls 5 70)).unanswered 9#304 ≤
      SYNC_MAX_INFLIGHT_PER_PEER ∧
    admitted devnetHost .sync 9#304 ((boot sampleGreeting).run devnetHost twice) (pulls 5 70) ≤
      64 := by
  have hlegal : Along devnetHost Possible (boot sampleGreeting) (twice ++ pulls 5 70) :=
    (along_append _ _).mpr ⟨legal_twice, legal_pulls 70 (Nat.zero_le 5)⟩
  have hopen : Open devnetHost 9#304 (boot sampleGreeting) (twice ++ pulls 5 70) :=
    (along_append _ _).mpr ⟨⟨rfl, rfl, trivial⟩, open_pulls 70⟩
  have hlimits := @peer_limits devnetHost 9#304 sampleGreeting twice (pulls 5 70) hlegal
  refine ⟨hlimits.1 hopen.along, ?_⟩
  have htwo : 0 < ((boot sampleGreeting).run devnetHost twice).connections 9#304 := by
    decide +kernel
  have hwindow := (hlimits.2 (connected_pulls 70 htwo) (open_pulls 70).along).2
  refine hwindow .sync 5 0 ?_
  intro x hx
  have hnow : ∀ count, x ∈ pulls 5 count → x.1 = 5 := by
    intro count
    induction count with
    | zero => rintro ⟨⟩
    | succ count ih =>
      intro hx
      rcases List.mem_cons.mp hx with rfl | hx
      · rfl
      · exact ih hx
  rw [hnow 70 hx]
  omega

-- The peer 9 has four pulls that are not answered, closes one of its two connections, and has
-- four more.
def churn : List (Nat × NetAct) :=
  twice ++ (pulls 0 4 ++ ((0, .swarm (.ConnectionClosed 9#304 1)) :: pulls 0 4))

theorem legal_churn : Along devnetHost Possible (boot sampleGreeting) churn := by
  have hclosed : ((((boot sampleGreeting).run devnetHost twice).run devnetHost
      (pulls 0 4)).connections 9#304) = 1 + 1 := by decide +kernel
  refine (along_append _ _).mpr ⟨legal_twice, (along_append _ _).mpr ⟨legal_pulls 4 ?_, ?_⟩⟩
  · exact Nat.le_refl 0
  · exact ⟨⟨Nat.le_refl 0, hclosed⟩, legal_pulls 4 (Nat.le_refl 0)⟩

-- Closing one of several connections makes the limiter forget the pulls of the others.
theorem pulls_uncounted : ¬ ∀ acts, Along devnetHost Possible (boot sampleGreeting) acts →
    ((boot sampleGreeting).run devnetHost acts).unanswered 9#304 ≤
      SYNC_MAX_INFLIGHT_PER_PEER := by
  intro hlimit
  have hchurn := hlimit churn legal_churn
  have hcount : ((boot sampleGreeting).run devnetHost churn).unanswered 9#304 = 8 := by
    decide +kernel
  rw [hcount] at hchurn
  exact absurd hchurn (by decide)

end Net

end Ubi2.Network
