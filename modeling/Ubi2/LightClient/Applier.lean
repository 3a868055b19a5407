import Ubi2.LightClient.Client

namespace Ubi2.LightClient

open Ubi2.Runtime Ubi2.Lib Ubi2.Lib.Encode Ubi2.Lib.Decode

variable {kernel : ILightState} {opts : LightClientOptions kernel} {c : Client kernel}

-- The kernel tip after blocks were handed over, from the tip before them.
def tipAfter (tip : Nat) : List Handed → Nat
  | [] => tip
  | h :: handed => tipAfter (if h.accepted then tip + 1 else tip) handed

-- Every block handed over is the one above the tip at that moment.
def InOrder (tip : Nat) : List Handed → Prop
  | [] => True
  | h :: handed =>
    wireBlockNumber h.block = some (tip + 1) ∧ InOrder (if h.accepted then tip + 1 else tip) handed

theorem tipAfter_append (tip : Nat) (handed : List Handed) (h : Handed) :
    tipAfter tip (handed ++ [h]) =
      if h.accepted then tipAfter tip handed + 1 else tipAfter tip handed := by
  induction handed generalizing tip with
  | nil => rfl
  | cons h' handed ih => exact ih _

theorem inOrder_append (tip : Nat) (handed : List Handed) (h : Handed) :
    InOrder tip (handed ++ [h]) ↔
      InOrder tip handed ∧ wireBlockNumber h.block = some (tipAfter tip handed + 1) := by
  induction handed generalizing tip with
  | nil => simp [InOrder, tipAfter]
  | cons h' handed ih => simp only [List.cons_append, InOrder, tipAfter, ih, and_assoc]

-- Where only the last block may have been refused, the heights are consecutive.
theorem InOrder.heights {tip : Nat} {handed : List Handed} (h : InOrder tip handed)
    (haccepted : ∀ x ∈ handed.dropLast, x.accepted) :
    handed.map (fun x => wireBlockNumber x.block) =
      (List.range' (tip + 1) handed.length).map some := by
  induction handed generalizing tip with
  | nil => rfl
  | cons x handed ih =>
    cases handed with
    | nil => simp [h.1]
    | cons y handed =>
      have hx : x.accepted = true := haccepted x (by simp)
      have hrest := h.2
      rw [if_pos hx] at hrest
      have htail := ih hrest (fun z hz => haccepted z (by simp [hz]))
      rw [List.map_cons, htail, h.1]
      rfl

namespace Client

theorem request_eq (c : Client kernel) (req : SyncRequest) : ∃ reply id log,
    c.request req = (reply, { c with nextReqId := id, requests := log }) := by
  by_cases hsocket : c.socket
  · exact ⟨_, _, _, if_pos hsocket⟩
  · exact ⟨_, _, _, if_neg hsocket⟩

-- What a call of `enqueueBlocks` does to the buffer, thrown out of or not.
structure Buffered (c : Client kernel) (blocks : List Bytes) (buffer : Table (Prod.fst : Nat × Bytes → Nat)) :
    Prop where
  kept : ∀ {n : Nat} {e : Nat × Bytes}, c.liveBuffer.get n = some e → buffer.get n = some e
  fresh : ∀ {n : Nat} {e : Nat × Bytes}, buffer.get n = some e → c.liveBuffer.get n = some e ∨
    c.localTip < n ∧ e.2 ∈ blocks ∧ wireBlockNumber e.2 = some n

theorem buffered_bufferBlock {n : Nat} {b : Bytes} (hb : wireBlockNumber b = some n) :
    ∃ buffer, c.bufferBlock n b = { c with liveBuffer := buffer } ∧ c.Buffered [b] buffer := by
  by_cases hnew : c.localTip < n ∧ ¬ c.liveBuffer.contains n
  · refine ⟨_, if_pos hnew, ?_, ?_⟩
    · intro k e hk
      have hne : n ≠ k := by
        rintro rfl
        exact hnew.2 (by rw [Table.contains, hk]; rfl)
      rwa [Table.get_put_ne hne]
    · intro k e hk
      by_cases hkn : n = k
      · subst hkn
        have he : (c.liveBuffer.put (n, b)).get n = some (n, b) := Table.get_put_self _ (n, b)
        rw [he] at hk
        cases hk
        exact .inr ⟨hnew.1, by simp, hb⟩
      · exact .inl (by rwa [Table.get_put_ne hkn] at hk)
  · exact ⟨c.liveBuffer, if_neg hnew, id, .inl⟩

theorem Buffered.trans {blocks blocks' : List Bytes}
    {buffer buffer' : Table (Prod.fst : Nat × Bytes → Nat)} (h : c.Buffered blocks buffer)
    (h' : { c with liveBuffer := buffer }.Buffered blocks' buffer') :
    c.Buffered (blocks ++ blocks') buffer' where
  kept hk := h'.kept (h.kept hk)
  fresh hk := by
    rcases h'.fresh hk with hmid | ⟨hlt, hmem, hnumber⟩
    · rcases h.fresh hmid with hold | ⟨hlt, hmem, hnumber⟩
      · exact .inl hold
      · exact .inr ⟨hlt, List.mem_append_left _ hmem, hnumber⟩
    · exact .inr ⟨hlt, List.mem_append_right _ hmem, hnumber⟩

theorem enqueueBlocks_cases (c : Client kernel) (blocks : List Bytes) : ∃ r buffer,
    c.enqueueBlocks blocks = (r, { c with liveBuffer := buffer }) ∧ c.Buffered blocks buffer ∧
      ((∃ e, r = .error e) → ∃ b ∈ blocks, wireBlockNumber b = none) := by
  induction blocks generalizing c with
  | nil => exact ⟨_, c.liveBuffer, rfl, ⟨id, .inl⟩, by simp⟩
  | cons b blocks ih =>
    cases hb : wireBlockNumber b with
    | none =>
      refine ⟨.error .BlobTooShort, c.liveBuffer, by rw [enqueueBlocks, hb], ⟨id, .inl⟩, ?_⟩
      exact fun _ => ⟨b, List.mem_cons_self .., hb⟩
    | some n =>
      obtain ⟨buffer, hone, hbuffer⟩ := buffered_bufferBlock (c := c) hb
      obtain ⟨r, buffer', hrest, hbuffer', hshort⟩ := ih { c with liveBuffer := buffer }
      have heq : c.enqueueBlocks (b :: blocks) = (c.bufferBlock n b).enqueueBlocks blocks := by
        simp only [enqueueBlocks, hb]
      refine ⟨r, buffer', by rw [heq, hone]; exact hrest, hbuffer.trans hbuffer', ?_⟩
      intro hr
      obtain ⟨b', hb', hnone⟩ := hshort hr
      exact ⟨b', List.mem_cons_of_mem _ hb', hnone⟩

-- What the applier can do between two awaits: hand over the block above the tip, with each
-- verdict of the kernel, ask for the gap below a buffered block, or stop and persist.
inductive Scanned (opts : LightClientOptions kernel) (c : Client kernel) : Client kernel → Prop
  | stateless (b : Bytes) (queued : Bool)
      (hnext : c.liveBuffer.get (c.localTip + 1) = some (c.localTip + 1, b))
      (hstate : c.state = none) :
      Scanned opts c { c with
        liveBuffer := c.liveBuffer.erase (c.localTip + 1), drainQueued := queued
        drain := .applying (.error .StateNotInitialised) }
  | accepted (b : Bytes) (queued : Bool) (s s' : kernel.State)
      (hnext : c.liveBuffer.get (c.localTip + 1) = some (c.localTip + 1, b))
      (hstate : c.state = some s)
      (happly : kernel.applyBlock s b opts.expectedProposer = some s') :
      Scanned opts c { c with
        liveBuffer := c.liveBuffer.erase (c.localTip + 1), drainQueued := queued
        state := some s', badge := .verified, drain := .applying (.ok (kernel.tip s'))
        handed := c.handed ++ [⟨b, true, c.sync.running⟩] }
  | refused (b : Bytes) (queued : Bool) (s : kernel.State)
      (hnext : c.liveBuffer.get (c.localTip + 1) = some (c.localTip + 1, b))
      (hstate : c.state = some s)
      (happly : kernel.applyBlock s b opts.expectedProposer = none) :
      Scanned opts c { c with
        liveBuffer := c.liveBuffer.erase (c.localTip + 1), drainQueued := queued
        badge := .error, drain := .applying (.error .VerificationError)
        handed := c.handed ++ [⟨b, false, c.sync.running⟩] }
  | gap (upTo : Nat) (reply : Reply) (id : Nat) (log : List SyncRequest) (queued : Bool)
      (hnext : c.liveBuffer.get (c.localTip + 1) = none) (hupTo : c.localTip < upTo) :
      Scanned opts c { c with
        nextReqId := id, requests := log, drainQueued := queued
        drain := .fetching upTo reply, drainSent := c.drainSent + 1 }
  | stopped (hnext : c.liveBuffer.get (c.localTip + 1) = none) :
      Scanned opts c { c with drainQueued := false, drain := .persisting }

theorem lt_of_lowestHigher {next higher : Nat} (h : c.lowestHigher next = some higher) :
    next < higher := by
  have hmem := List.min?_mem h
  simpa using (List.mem_filter.mp hmem).2

theorem pass_cases (opts : LightClientOptions kernel) (c : Client kernel) (queued : Bool)
    (onBreak : Client kernel → Client kernel) :
    Scanned opts c (pass opts { c with drainQueued := queued } onBreak) ∨
      c.liveBuffer.get (c.localTip + 1) = none ∧ c.lowestHigher (c.localTip + 1) = none ∧
        pass opts { c with drainQueued := queued } onBreak =
          onBreak { c with drainQueued := queued } := by
  cases hnext : c.liveBuffer.get (c.localTip + 1) with
  | some e =>
    obtain ⟨n, b⟩ := e
    obtain rfl : n = c.localTip + 1 := Table.key_of_get hnext
    refine .inl ?_
    rw [pass]
    simp only [hnext]
    rcases Option.eq_none_or_eq_some c.state with hstate | ⟨s, hstate⟩
    · have hscan := @Scanned.stateless _ opts _ b queued hnext hstate
      simpa only [applyWireBlock, hstate] using hscan
    cases happly : kernel.applyBlock s b opts.expectedProposer with
    | some s' =>
      have hscan := Scanned.accepted b queued s s' hnext hstate happly
      simpa only [applyWireBlock, hstate, happly] using hscan
    | none =>
      have hscan := Scanned.refused b queued s hnext hstate happly
      simpa only [applyWireBlock, hstate, happly] using hscan
  | none =>
    cases hhigher : c.lowestHigher (c.localTip + 1) with
    | none =>
      refine .inr ⟨rfl, rfl, ?_⟩
      rw [pass]
      have hsame : ({ c with drainQueued := queued } : Client kernel).lowestHigher
          (c.localTip + 1) = none := hhigher
      simp only [hnext, hsame]
    | some higher =>
      have hsame : ({ c with drainQueued := queued } : Client kernel).lowestHigher
          (c.localTip + 1) = some higher := hhigher
      have hlt := lt_of_lowestHigher hhigher
      obtain ⟨reply, id, log, hrequest⟩ := request_eq { c with drainQueued := queued }
        (.GetBlocks (c.localTip + 1)
          (min (c.localTip + 1 + SYNC_MAX_BATCH - 1) (higher - 1)))
      refine .inl ?_
      rw [pass]
      simp only [hnext, hsame, hrequest]
      refine .gap _ reply id log queued hnext ?_
      simp only [SYNC_MAX_BATCH]
      omega

theorem scanned_rescan (opts : LightClientOptions kernel) (c : Client kernel) :
    Scanned opts c (rescan opts c) := by
  rcases pass_cases opts c false persist with hscanned | ⟨hnext, -, hbreak⟩
  · exact hscanned
  · rw [rescan, hbreak]
    exact .stopped hnext

theorem scanned_scan (opts : LightClientOptions kernel) (c : Client kernel) :
    Scanned opts c (scan opts c) := by
  rcases pass_cases opts c c.drainQueued (whileQueued opts) with hscanned | ⟨hnext, -, hbreak⟩
  · exact hscanned
  · have hscan : scan opts c = whileQueued opts c := hbreak
    rw [hscan, whileQueued]
    by_cases hqueued : c.drainQueued
    · rw [if_pos hqueued]
      exact scanned_rescan opts c
    · have hcleared : persist c = { c with drainQueued := false, drain := .persisting } := by
        have hfalse : c.drainQueued = false := by simpa using hqueued
        rw [persist, ← hfalse]
      rw [if_neg hqueued, hcleared]
      exact .stopped hnext

-- After an empty reply the applier looks again only where a push asked it to.
theorem whileQueued_cases (opts : LightClientOptions kernel) (c : Client kernel) :
    c.drainQueued = true ∧ Scanned opts c (whileQueued opts c) ∨
      c.drainQueued = false ∧ whileQueued opts c = persist c := by
  by_cases hqueued : c.drainQueued
  · refine .inl ⟨hqueued, ?_⟩
    rw [whileQueued, if_pos hqueued]
    exact scanned_rescan opts c
  · exact .inr ⟨by simpa using hqueued, if_neg hqueued⟩

theorem scanned_startDrain (opts : LightClientOptions kernel) (c : Client kernel) :
    Scanned opts { c with drainStart := c.localTip, drainSent := 0 } (startDrain opts c) :=
  scanned_rescan opts _

-- Where `sync` is, against the kernel, the drain and the live flag.
def Phase (c : Client kernel) : Prop :=
  match c.sync with
  | .loading | .opening | .greeting _ | .anchoring _ =>
    c.state = none ∧ c.live = false ∧ c.drain = .idle
  | .fetching _ _ | .drained _ | .querying _ _ =>
    c.state ≠ none ∧ c.live = false ∧ c.drain = .idle
  | .draining _ => c.state ≠ none ∧ c.live = false ∧ c.drain ≠ .idle
  | .flushing => c.state ≠ none ∧ c.live = true ∧ c.drain ≠ .idle
  | .resolved => c.state ≠ none ∧ c.live = true
  | .rejected _ => (c.live = false → c.drain = .idle) ∧ (c.live = true → c.state ≠ none)

-- `sync` has not imported the genesis yet, or has given up before.
def Anchorless : Sync → Prop
  | .loading | .opening | .greeting _ | .anchoring _ | .rejected _ => True
  | _ => False

-- Between two turns of `catchUpTo`, with nothing running beside it.
structure Between (c : Client kernel) : Prop where
  state : c.state ≠ none
  live : c.live = false
  drain : c.drain = .idle

-- `sync` is about to call `drain`, with the blocks of a batch or to go live.
def Drains (c : Client kernel) : Prop :=
  match c.sync with
  | .fetching f (.settled (.ok (.Blocks blocks))) => blocks ≠ [] ∨ f.rounds = 0
  | .drained f => f.target ≤ c.localTip ∧ f.rounds = 0
  | .querying _ (.settled (.ok (.Hello hello))) => hello.tipHeight ≤ c.localTip
  | _ => False

-- The call of `catchUpTo` that goes on is the one that was drained, or a new one.
def Continues (c : Client kernel) (f : CatchUp) : Prop :=
  c.sync = .drained f ∨ f.start = c.localTip ∧ f.sent = 0

-- The blocks an event brings in: a push, or the reply that is consumed.
def delivered (c : Client kernel) : Event → List Bytes
  | .message 0 (.Blocks blocks) => if c.closed then [] else blocks
  | .runSync =>
    match c.sync with
    | .fetching _ (.settled (.ok (.Blocks blocks))) => blocks
    | _ => []
  | .runDrain =>
    match c.drain with
    | .fetching _ (.settled (.ok (.Blocks blocks))) => blocks
    | _ => []
  | _ => []

-- What an event can do to a client.
inductive Turn (opts : LightClientOptions kernel) (c : Client kernel) : Event → Client kernel → Prop
  | unchanged (e : Event) : Turn opts c e c
  | settled (e : Event) (g : Reply → Reply) (socket closed : Bool) :
      Turn opts c e { c with
        sync := c.sync.onReply g, drain := c.drain.onReply g, socket := socket, closed := closed }
  | waiting (e : Event) (sync : Sync) (socket : Bool) (gatewayTip id : Nat)
      (log : List SyncRequest) (hstate : c.state = none) (hlive : c.live = false)
      (hdrain : c.drain = .idle) (hsync : Anchorless sync) :
      Turn opts c e { c with
        sync := sync, socket := socket, gatewayTip := gatewayTip, nextReqId := id, requests := log }
  | rejected (buffer : Table (Prod.fst : Nat × Bytes → Nat)) (e : SyncError)
      (hbetween : Between c) (hbuffer : Buffered c (c.delivered .runSync) buffer) :
      Turn opts c .runSync { c with liveBuffer := buffer, sync := .rejected e }
  | imported (s : kernel.State) (sync : Sync) (id : Nat) (log : List SyncRequest)
      (hstate : c.state = none) (hlive : c.live = false) (hdrain : c.drain = .idle)
      (hsync : (∃ rounds reply, sync = .querying rounds reply) ∨ ∃ f reply,
        sync = .fetching f reply ∧ f.start = kernel.tip s ∧ f.sent = 1 ∧ kernel.tip s < f.target) :
      Turn opts c .runSync { c with
        state := some s, localTip := kernel.tip s, anchorTip := kernel.tip s
        sync := sync, nextReqId := id, requests := log }
  | asked (f : CatchUp) (reply : Reply) (id : Nat) (log : List SyncRequest)
      (hbetween : Between c) (hf : Continues c f) (hlt : c.localTip < f.target) :
      Turn opts c .runSync { c with
        sync := .fetching { f with sent := f.sent + 1 } reply, nextReqId := id, requests := log }
  | requeried (rounds : Nat) (reply : Reply) (id : Nat) (log : List SyncRequest)
      (hbetween : Between c) :
      Turn opts c .runSync { c with
        sync := .querying rounds reply, nextReqId := id, requests := log }
  | wentLive {c' : Client kernel} (hbetween : Between c) (hdrains : Drains c)
      (hempty : c.delivered .runSync = [])
      (hscan : Scanned opts { c with
        live := true, sync := .flushing, drainStart := c.localTip, drainSent := 0 } c') :
      Turn opts c .runSync c'
  | fetched {c' : Client kernel} (f : CatchUp) (blocks : List Bytes) (buffer : Table (Prod.fst : Nat × Bytes → Nat))
      (hsync : c.sync = .fetching f (.settled (.ok (.Blocks blocks)))) (hblocks : blocks ≠ [])
      (hbetween : Between c) (hbuffer : Buffered c blocks buffer)
      (henqueue : c.enqueueBlocks blocks = (.ok (), { c with liveBuffer := buffer }))
      (hscan : Scanned opts { c with
        liveBuffer := buffer, sync := .draining f, drainStart := c.localTip, drainSent := 0 } c') :
      Turn opts c .runSync c'
  | buffered (blocks : List Bytes) (buffer : Table (Prod.fst : Nat × Bytes → Nat))
      (hopen : c.closed = false)
      (hbuffer : Buffered c blocks buffer)
      (hquiet : c.live = false ∨ ∃ b ∈ blocks, wireBlockNumber b = none) :
      Turn opts c (.message 0 (.Blocks blocks)) { c with liveBuffer := buffer }
  | queued (blocks : List Bytes) (buffer : Table (Prod.fst : Nat × Bytes → Nat))
      (hopen : c.closed = false)
      (hlive : c.live = true) (hdrain : c.drain ≠ .idle) (hbuffer : Buffered c blocks buffer) :
      Turn opts c (.message 0 (.Blocks blocks))
        { c with liveBuffer := buffer, drainQueued := true }
  | woken {c' : Client kernel} (blocks : List Bytes) (buffer : Table (Prod.fst : Nat × Bytes → Nat))
      (hopen : c.closed = false)
      (hlive : c.live = true) (hdrain : c.drain = .idle) (hbuffer : Buffered c blocks buffer)
      (hscan : Scanned opts { c with
        liveBuffer := buffer, drainStart := c.localTip, drainSent := 0 } c') :
      Turn opts c (.message 0 (.Blocks blocks)) c'
  | applied {c' : Client kernel} (n : Nat) (hdrain : c.drain = .applying (.ok n))
      (hscan : Scanned opts { c with localTip := n } c') : Turn opts c .runDrain c'
  | refused (hdrain : c.drain = .applying (.error .VerificationError)) :
      Turn opts c .runDrain c.drainResolved
  | aborted (e : SyncError) (hdrain : c.drain = .applying (.error e)) :
      Turn opts c .runDrain (c.drainRejected e)
  | unanswered (upTo : Nat) (r : Except SyncError SyncResponse) (e : SyncError)
      (hdrain : c.drain = .fetching upTo (.settled r)) (hr : ∀ blocks, r ≠ .ok (.Blocks blocks)) :
      Turn opts c .runDrain (c.drainRejected e)
  | emptied {c' : Client kernel} (upTo : Nat) (hdrain : c.drain = .fetching upTo (.settled (.ok (.Blocks []))))
      (hqueued : c.drainQueued = true) (hscan : Scanned opts c c') : Turn opts c .runDrain c'
  | spent (upTo : Nat) (hdrain : c.drain = .fetching upTo (.settled (.ok (.Blocks []))))
      (hqueued : c.drainQueued = false) : Turn opts c .runDrain c.persist
  | filled {c' : Client kernel} (upTo : Nat) (blocks : List Bytes) (buffer : Table (Prod.fst : Nat × Bytes → Nat))
      (hdrain : c.drain = .fetching upTo (.settled (.ok (.Blocks blocks)))) (hblocks : blocks ≠ [])
      (hbuffer : Buffered c blocks buffer)
      (henqueue : c.enqueueBlocks blocks = (.ok (), { c with liveBuffer := buffer }))
      (hscan : Scanned opts { c with liveBuffer := buffer } c') : Turn opts c .runDrain c'
  | thrown (upTo : Nat) (blocks : List Bytes) (buffer : Table (Prod.fst : Nat × Bytes → Nat))
      (e : SyncError) (hdrain : c.drain = .fetching upTo (.settled (.ok (.Blocks blocks))))
      (hbuffer : Buffered c blocks buffer) (hshort : ∃ b ∈ blocks, wireBlockNumber b = none) :
      Turn opts c .runDrain ({ c with liveBuffer := buffer }.drainRejected e)
  | saved (hdrain : c.drain = .persisting) : Turn opts c .saved c.drainResolved

theorem turn_goLive (hbetween : Between c) (hdrains : Drains c)
    (hempty : c.delivered .runSync = []) : Turn opts c .runSync (goLive opts c) := by
  have hidle : draining { c with live := true } = false := by simp [draining, hbetween.drain]
  refine .wentLive hbetween hdrains hempty ?_
  rw [goLive, awaitDrain, if_neg (by simp [hidle])]
  exact scanned_startDrain opts { c with live := true, sync := .flushing }

theorem turn_nextRound (hbetween : Between c) {rounds : Nat} (hdrains : rounds = 0 → Drains c)
    (hempty : c.delivered .runSync = []) : Turn opts c .runSync (nextRound opts c rounds) := by
  cases rounds with
  | zero => exact turn_goLive hbetween (hdrains rfl) hempty
  | succ rounds =>
    obtain ⟨reply, id, log, hrequest⟩ := request_eq c (.Hello c.localTip)
    simp only [nextRound, hrequest]
    exact .requeried rounds reply id log hbetween

theorem catchUpTo_lt {f : CatchUp} (hlt : c.localTip < f.target) : ∃ reply id log,
    catchUpTo opts c f = { c with
      sync := .fetching { f with sent := f.sent + 1 } reply, nextReqId := id, requests := log } := by
  obtain ⟨reply, id, log, hrequest⟩ := request_eq c (.GetBlocks (c.localTip + 1)
    (if c.localTip + 1 + SYNC_MAX_BATCH - 1 ≤ f.target then c.localTip + 1 + SYNC_MAX_BATCH - 1
      else f.target))
  exact ⟨reply, id, log, by simp only [catchUpTo, if_pos hlt, hrequest]⟩

theorem turn_catchUpTo (hbetween : Between c) {f : CatchUp} (hf : Continues c f)
    (hdrains : ¬ c.localTip < f.target → f.rounds = 0 → Drains c)
    (hempty : c.delivered .runSync = []) : Turn opts c .runSync (catchUpTo opts c f) := by
  by_cases hlt : c.localTip < f.target
  · obtain ⟨reply, id, log, hcatch⟩ := @catchUpTo_lt _ opts _ _ hlt
    rw [hcatch]
    exact .asked f reply id log hbetween hf hlt
  · rw [catchUpTo, if_neg hlt]
    exact turn_nextRound hbetween (hdrains hlt) hempty

theorem turn_reject (hbetween : Between c) (e : SyncError) :
    Turn opts c .runSync (c.reject e) :=
  .rejected c.liveBuffer e hbetween ⟨id, .inl⟩

theorem turn_fetched {f : CatchUp} {r : Except SyncError SyncResponse}
    (hsync : c.sync = .fetching f (.settled r)) (hbetween : Between c) :
    Turn opts c .runSync (fetched opts c f r) := by
  match r, hsync with
  | .error e, _ => exact turn_reject hbetween e
  | .ok (.Hello _), _ => exact turn_reject hbetween _
  | .ok (.Genesis _), _ => exact turn_reject hbetween _
  | .ok (.Blocks []), hsync =>
    refine turn_nextRound hbetween (fun hrounds => ?_) (by rw [delivered, hsync])
    rw [Drains, hsync]
    exact .inr hrounds
  | .ok (.Blocks (b :: blocks)), hsync =>
    obtain ⟨r, buffer, henqueue, hbuffer, -⟩ := enqueueBlocks_cases c (b :: blocks)
    rw [fetched, henqueue]
    · cases r with
      | error e =>
        refine .rejected buffer e hbetween ?_
        rwa [delivered, hsync]
      | ok u =>
        refine .fetched f (b :: blocks) buffer hsync (by simp) hbetween hbuffer henqueue ?_
        have hidle : draining { c with liveBuffer := buffer } = false := by
          simp [draining, hbetween.drain]
        simp only [awaitDrain, hidle, Bool.false_eq_true, if_false]
        exact scanned_startDrain opts { c with liveBuffer := buffer, sync := .draining f }
    · simp

theorem turn_queried {rounds : Nat} {r : Except SyncError SyncResponse}
    (hsync : c.sync = .querying rounds (.settled r)) (hbetween : Between c) :
    Turn opts c .runSync (queried opts c rounds r) := by
  have hempty : c.delivered .runSync = [] := by rw [delivered, hsync]
  match r, hsync with
  | .error e, _ => exact turn_reject hbetween e
  | .ok (.Blocks _), _ => exact turn_reject hbetween _
  | .ok (.Genesis _), _ => exact turn_reject hbetween _
  | .ok (.Hello hello), hsync =>
    by_cases hle : hello.tipHeight ≤ c.localTip
    · rw [queried, if_pos hle]
      exact turn_goLive hbetween (by rwa [Drains, hsync]) hempty
    · rw [queried, if_neg hle]
      exact turn_catchUpTo hbetween (.inr ⟨rfl, rfl⟩) (fun h => absurd (not_le.mp hle) h) hempty

theorem turn_greeted (r : Except SyncError SyncResponse) (hstate : c.state = none)
    (hlive : c.live = false) (hdrain : c.drain = .idle) (e : Event) :
    Turn opts c e (greeted opts c r) := by
  have hreject (err : SyncError) : Turn opts c e (c.reject err) :=
    .waiting e (.rejected err) c.socket c.gatewayTip c.nextReqId c.requests hstate hlive hdrain
      trivial
  match r with
  | .error err => exact hreject err
  | .ok (.Blocks _) => exact hreject _
  | .ok (.Genesis _) => exact hreject _
  | .ok (.Hello hello) =>
    by_cases hchain : hello.chainId ≠ opts.chainId
    · rw [greeted, if_pos hchain]
      exact hreject _
    by_cases hhash : hello.genesisHash ≠ opts.genesisHash
    · rw [greeted, if_neg hchain, if_pos hhash]
      exact hreject _
    obtain ⟨reply, id, log, hrequest⟩ :=
      request_eq { c with gatewayTip := hello.tipHeight } .GetGenesis
    rw [greeted, if_neg hchain, if_neg hhash, hrequest]
    exact .waiting e (.anchoring reply) c.socket hello.tipHeight id log hstate hlive hdrain trivial

theorem turn_imported (s : kernel.State) (hstate : c.state = none) (hlive : c.live = false)
    (hdrain : c.drain = .idle) (target rounds : Nat) :
    Turn opts c .runSync (startCatchUp opts
      { c with state := some s, localTip := kernel.tip s, anchorTip := kernel.tip s }
      target (rounds + 1)) := by
  by_cases hlt : kernel.tip s < target
  · obtain ⟨reply, id, log, hcatch⟩ := @catchUpTo_lt _ opts
      { c with state := some s, localTip := kernel.tip s, anchorTip := kernel.tip s }
      { target := target, rounds := rounds + 1, start := kernel.tip s, sent := 0 } hlt
    rw [startCatchUp, hcatch]
    exact .imported s _ id log hstate hlive hdrain (.inr ⟨_, reply, rfl, rfl, rfl, hlt⟩)
  · obtain ⟨reply, id, log, hrequest⟩ := request_eq
      { c with state := some s, localTip := kernel.tip s, anchorTip := kernel.tip s }
      (.Hello (kernel.tip s))
    rw [startCatchUp, catchUpTo, if_neg hlt, nextRound, hrequest]
    exact .imported s _ id log hstate hlive hdrain (.inl ⟨rounds, reply, rfl⟩)

theorem turn_anchored (r : Except SyncError SyncResponse) (hstate : c.state = none)
    (hlive : c.live = false) (hdrain : c.drain = .idle) :
    Turn opts c .runSync (anchored opts c r) := by
  have hreject (err : SyncError) : Turn opts c .runSync (c.reject err) :=
    .waiting _ (.rejected err) c.socket c.gatewayTip c.nextReqId c.requests hstate hlive hdrain
      trivial
  match r with
  | .error err => exact hreject err
  | .ok (.Blocks _) => exact hreject _
  | .ok (.Hello _) => exact hreject _
  | .ok (.Genesis anchor) =>
    rw [anchored]
    by_cases hhash : anchor.genesisHash ≠ opts.genesisHash
    · rw [if_pos hhash]
      exact hreject _
    by_cases hroot : anchor.stateRoot ≠ opts.genesisStateRoot
    · rw [if_neg hhash, if_pos hroot]
      exact hreject _
    by_cases hchain : anchor.chainId ≠ opts.chainId
    · rw [if_neg hhash, if_neg hroot, if_pos hchain]
      exact hreject _
    by_cases hproposer : anchor.proposer ∉ opts.validatorSet
    · rw [if_neg hhash, if_neg hroot, if_neg hchain, if_pos hproposer]
      exact hreject _
    rw [if_neg hhash, if_neg hroot, if_neg hchain, if_neg hproposer]
    cases opts.lightStateGenesisFactory opts.chainId opts.genesisHash opts.genesisStateRoot
        (opts.genesisTime.getD anchor.genesisTime) anchor.snapshot opts.validatorSet with
    | none => exact hreject _
    | some s => exact turn_imported s hstate hlive hdrain c.gatewayTip _

theorem turn_runSync (h : Phase c) : Turn opts c .runSync (runSync opts c) := by
  rw [Phase] at h
  cases hsync : c.sync with
  | loading =>
    simp only [hsync] at h
    obtain ⟨hstate, hlive, hdrain⟩ := h
    simp only [runSync, hsync]
    exact .waiting _ .opening c.socket c.gatewayTip c.nextReqId c.requests hstate hlive hdrain
      trivial
  | greeting reply =>
    simp only [hsync] at h
    obtain ⟨hstate, hlive, hdrain⟩ := h
    cases reply with
    | pending id => simpa only [runSync, hsync] using .unchanged _
    | settled r =>
      simp only [runSync, hsync]
      exact turn_greeted r hstate hlive hdrain _
  | anchoring reply =>
    simp only [hsync] at h
    obtain ⟨hstate, hlive, hdrain⟩ := h
    cases reply with
    | pending id => simpa only [runSync, hsync] using .unchanged _
    | settled r =>
      simp only [runSync, hsync]
      exact turn_anchored r hstate hlive hdrain
  | fetching f reply =>
    simp only [hsync] at h
    cases reply with
    | pending id => simpa only [runSync, hsync] using .unchanged _
    | settled r =>
      simp only [runSync, hsync]
      exact turn_fetched hsync ⟨h.1, h.2.1, h.2.2⟩
  | drained f =>
    simp only [hsync] at h
    simp only [runSync, hsync]
    refine turn_catchUpTo ⟨h.1, h.2.1, h.2.2⟩ (.inl hsync) (fun hlt hrounds => ?_)
      (by rw [delivered, hsync])
    rw [Drains, hsync]
    exact ⟨not_lt.mp hlt, hrounds⟩
  | querying rounds reply =>
    simp only [hsync] at h
    cases reply with
    | pending id => simpa only [runSync, hsync] using .unchanged _
    | settled r =>
      simp only [runSync, hsync]
      exact turn_queried hsync ⟨h.1, h.2.1, h.2.2⟩
  | opening => simpa only [runSync, hsync] using .unchanged _
  | draining f => simpa only [runSync, hsync] using .unchanged _
  | flushing => simpa only [runSync, hsync] using .unchanged _
  | resolved => simpa only [runSync, hsync] using .unchanged _
  | rejected e => simpa only [runSync, hsync] using .unchanged _

theorem turn_runDrain (opts : LightClientOptions kernel) (c : Client kernel) :
    Turn opts c .runDrain (runDrain opts c) := by
  cases hdrain : c.drain with
  | idle => simpa only [runDrain, hdrain] using .unchanged _
  | persisting => simpa only [runDrain, hdrain] using .unchanged _
  | applying outcome =>
    match outcome, hdrain with
    | .ok n, hdrain =>
      have hrun : runDrain opts c = scan opts { c with localTip := n } := by
        simp only [runDrain, hdrain]
      rw [hrun]
      exact .applied n hdrain (scanned_scan opts _)
    | .error e, hdrain =>
      cases e
      case VerificationError =>
        simp only [runDrain, hdrain]
        exact .refused hdrain
      all_goals
        simp only [runDrain, hdrain]
        exact .aborted _ hdrain
  | fetching upTo reply =>
    match reply, hdrain with
    | .pending id, hdrain => simpa only [runDrain, hdrain] using .unchanged _
    | .settled (.error e), hdrain =>
      simp only [runDrain, hdrain]
      exact .unanswered upTo _ e hdrain (by simp)
    | .settled (.ok (.Hello _)), hdrain =>
      simp only [runDrain, hdrain]
      exact .unanswered upTo _ _ hdrain (by simp)
    | .settled (.ok (.Genesis _)), hdrain =>
      simp only [runDrain, hdrain]
      exact .unanswered upTo _ _ hdrain (by simp)
    | .settled (.ok (.Blocks [])), hdrain =>
      simp only [runDrain, hdrain]
      rcases whileQueued_cases opts c with ⟨hqueued, hscan⟩ | ⟨hqueued, heq⟩
      · exact .emptied upTo hdrain hqueued hscan
      · rw [heq]
        exact .spent upTo hdrain hqueued
    | .settled (.ok (.Blocks (b :: blocks))), hdrain =>
      obtain ⟨r, buffer, henqueue, hbuffer, hshort⟩ := enqueueBlocks_cases c (b :: blocks)
      cases r with
      | error e =>
        have hrun : runDrain opts c = { c with liveBuffer := buffer }.drainRejected e := by
          simp only [runDrain, hdrain, henqueue]
        rw [hrun]
        exact .thrown upTo (b :: blocks) buffer e hdrain hbuffer (hshort ⟨e, rfl⟩)
      | ok u =>
        have hrun : runDrain opts c = scan opts { c with liveBuffer := buffer } := by
          simp only [runDrain, hdrain, henqueue]
        rw [hrun]
        exact .filled upTo (b :: blocks) buffer hdrain (by simp) hbuffer henqueue
          (scanned_scan opts _)

theorem turn_message (opts : LightClientOptions kernel) (c : Client kernel) (reqId : Nat)
    (resp : SyncResponse) : Turn opts c (.message reqId resp) (onMessage opts c reqId resp) := by
  by_cases hclosed : c.closed
  · simpa only [onMessage, if_pos hclosed] using .unchanged _
  have hopen : c.closed = false := by simpa using hclosed
  by_cases hid : reqId ≠ 0
  · simp only [onMessage, if_neg hclosed, if_pos hid]
    exact .settled _ (Reply.settle reqId (.ok resp)) c.socket c.closed
  obtain rfl : reqId = 0 := not_not.mp hid
  simp only [onMessage, if_neg hclosed, if_neg hid]
  cases resp with
  | Hello hello => exact .unchanged _
  | Genesis genesis => exact .unchanged _
  | Blocks blocks =>
    obtain ⟨r, buffer, henqueue, hbuffer, hshort⟩ := enqueueBlocks_cases c blocks
    simp only [henqueue]
    cases r with
    | error e => exact .buffered blocks buffer hopen hbuffer (.inr (hshort ⟨e, rfl⟩))
    | ok u =>
      change Turn opts c _ (if c.live = true then callDrain opts { c with liveBuffer := buffer }
        else { c with liveBuffer := buffer })
      by_cases hlive : c.live = true
      · rw [if_pos hlive, callDrain]
        by_cases hdraining : draining { c with liveBuffer := buffer }
        · rw [if_pos hdraining]
          refine .queued blocks buffer hopen hlive ?_ hbuffer
          intro hdrain
          simp [draining, hdrain] at hdraining
        · rw [if_neg hdraining]
          refine .woken blocks buffer hopen hlive ?_ hbuffer
            (scanned_startDrain opts { c with liveBuffer := buffer })
          cases hdrain : c.drain
          · rfl
          all_goals simp [draining, hdrain] at hdraining
      · rw [if_neg hlive]
        exact .buffered blocks buffer hopen hbuffer (.inl (by simpa using hlive))

theorem turn_step (opts : LightClientOptions kernel) (h : Phase c) (e : Event) :
    Turn opts c e (c.step opts e) := by
  cases e with
  | runSync => exact turn_runSync h
  | runDrain => exact turn_runDrain opts c
  | opened =>
    rw [step, opened]
    rw [Phase] at h
    cases hsync : c.sync with
    | opening =>
      simp only [hsync] at h
      obtain ⟨hstate, hlive, hdrain⟩ := h
      obtain ⟨reply, id, log, hrequest⟩ :=
        request_eq { c with socket := true, sync := .opening } (.Hello 0)
      simp only [hrequest]
      exact .waiting _ (.greeting reply) true c.gatewayTip id log hstate hlive hdrain trivial
    | _ => exact .unchanged _
  | connectFailed =>
    rw [step, connectFailed]
    rw [Phase] at h
    cases hsync : c.sync with
    | opening =>
      simp only [hsync] at h
      obtain ⟨hstate, hlive, hdrain⟩ := h
      exact .waiting _ _ c.socket c.gatewayTip c.nextReqId c.requests hstate hlive hdrain trivial
    | _ => exact .unchanged _
  | message reqId resp => exact turn_message opts c reqId resp
  | timeout reqId => exact .settled _ (Reply.settle reqId _) c.socket c.closed
  | disconnected => exact .settled _ (Reply.reject _) c.socket c.closed
  | saved =>
    rw [step, saved]
    cases hdrain : c.drain with
    | persisting => exact .saved hdrain
    | _ => exact .unchanged _
  | close => exact .settled _ (Reply.reject _) false true

end Client

end Ubi2.LightClient
