import Ubi2.RuntimeWasm.Kernel

namespace Ubi2.LightClient

open Ubi2.Runtime Ubi2.Lib Ubi2.Lib.Encode Ubi2.Lib.Decode

def SYNC_MAX_BATCH : Nat := 128
def HANDSHAKE_CATCHUP_ROUNDS : Nat := 8

-- The number comes first in the bytes of a block. A blob without one is an exception.
def wireBlockNumber (bytes : Bytes) : Option Nat :=
  if bytes.length < 8 then none else some (ofBytes (bytes.take 8))

-- The handle of the verification kernel. `applyBlock` also gets the scheduled proposer; a
-- block that it takes is the one above the tip and becomes the tip.
structure ILightState where
  State : Type
  tip : State → Nat
  applyBlock : State → Bytes → Bytes → Option State
  contiguous : ∀ {s s' : State} {wire proposer : Bytes}, applyBlock s wire proposer = some s' →
    wireBlockNumber wire = some (tip s + 1) ∧ tip s' = tip s + 1

-- The kernel of the browser behind that handle. A panic is one more way to refuse.
def LightState (host : Rpc.NodeHost) : ILightState where
  State := RuntimeWasm.Snapshot.LightCore
  tip := RuntimeWasm.Snapshot.LightCore.tipNumber
  applyBlock core wire proposer :=
    if proposer.length ≠ 20 then none
    else
      match core.applyBlock host wire (some (BitVec.ofNat 160 (ofBytes proposer))) with
      | some (.ok core') => some core'
      | _ => none
  contiguous {core core' wire proposer} h := by
    by_cases hlength : proposer.length ≠ 20
    · simp [hlength] at h
    rw [if_neg hlength] at h
    have happly : core.applyBlock host wire (some (BitVec.ofNat 160 (ofBytes proposer))) =
        some (.ok core') := by
      split at h
      case h_1 heq => rw [heq, Option.some.inj h]
      case h_2 => cases h
    obtain ⟨⟨hwire, hnumber⟩, htip⟩ :=
      RuntimeWasm.Snapshot.LightCore.tipNumber_applyBlock happly
    exact ⟨by rw [wireBlockNumber, if_neg (by omega), hnumber], htip⟩

structure LightClientOptions (kernel : ILightState) where
  chainId : Nat
  genesisHash : Bytes
  genesisStateRoot : Bytes
  genesisTime : Option Nat
  validatorSet : List Bytes
  expectedProposer : Bytes
  lightStateGenesisFactory : Nat → Bytes → Bytes → Nat → Bytes → List Bytes → Option kernel.State

structure Hello where
  genesisHash : Bytes
  chainId : Nat
  tipHeight : Nat

structure Genesis where
  genesisHash : Bytes
  chainId : Nat
  stateRoot : Bytes
  genesisTime : Nat
  proposer : Bytes
  snapshot : Bytes

inductive SyncRequest where
  | Hello (tipHeight : Nat)
  | GetBlocks (first last : Nat)
  | GetGenesis
deriving DecidableEq

inductive SyncResponse where
  | Hello (hello : Hello)
  | Blocks (blocks : List Bytes)
  | Genesis (genesis : Genesis)

-- What a call rejects with, by the reason: the kernel's verdict, a fault of the gateway or
-- its connection, a gateway of another network, or a bad blob.
inductive SyncError where
  | VerificationError
  | StateNotInitialised
  | SocketNotOpen
  | ConnectFailed
  | ConnectionClosed
  | ClientClosed
  | TimedOut (reqId : Nat)
  | UnexpectedResponse
  | ChainIdMismatch (got : Nat)
  | GenesisHashMismatch (got : Bytes)
  | StateRootMismatch (got : Bytes)
  | UnknownProposer (got : Bytes)
  | SnapshotRejected
  | BlobTooShort

-- The promise of a reply: in flight under its id, or settled.
inductive Reply where
  | pending (reqId : Nat)
  | settled (r : Except SyncError SyncResponse)

def Reply.settle (reqId : Nat) (r : Except SyncError SyncResponse) : Reply → Reply
  | .pending id => if id = reqId then .settled r else .pending id
  | .settled r => .settled r

def Reply.reject (e : SyncError) : Reply → Reply
  | .pending _ => .settled (.error e)
  | .settled r => .settled r

-- A call of `catchUpTo`, and the tip re-queries left after it. The tip it started from and
-- the number of its requests are kept for the statements only.
structure CatchUp where
  target : Nat
  rounds : Nat
  start : Nat
  sent : Nat

-- The promise that `sync` awaits.
inductive Sync where
  | loading
  | opening
  | greeting (reply : Reply)
  | anchoring (reply : Reply)
  | fetching (f : CatchUp) (reply : Reply)
  | draining (f : CatchUp)
  | drained (f : CatchUp)
  | querying (rounds : Nat) (reply : Reply)
  | flushing
  | resolved
  | rejected (e : SyncError)

def Sync.onReply (g : Reply → Reply) : Sync → Sync
  | .greeting reply => .greeting (g reply)
  | .anchoring reply => .anchoring (g reply)
  | .fetching f reply => .fetching f (g reply)
  | .querying rounds reply => .querying rounds (g reply)
  | s => s

-- `sync` has not settled.
def Sync.running : Sync → Bool
  | .resolved => false
  | .rejected _ => false
  | _ => true

-- The promise that the one running `drain` awaits: the verdict of the kernel, the reply to
-- a gap request, or the snapshot store.
inductive Drain where
  | idle
  | applying (outcome : Except SyncError Nat)
  | fetching (upTo : Nat) (reply : Reply)
  | persisting

def Drain.onReply (g : Reply → Reply) : Drain → Drain
  | .fetching upTo reply => .fetching upTo (g reply)
  | d => d

inductive Badge where
  | unverified
  | verified
  | error
deriving DecidableEq

-- A block that was handed to the kernel, its verdict, and whether `sync` was running.
structure Handed where
  block : Bytes
  accepted : Bool
  syncing : Bool

-- The fields from `requests` on are kept for the statements only: what was sent and handed
-- so far, the tip of the imported genesis, and where the running drain started from and how
-- many requests it has sent.
structure Client (kernel : ILightState) where
  state : Option kernel.State
  socket : Bool
  closed : Bool
  badge : Badge
  gatewayTip : Nat
  nextReqId : Nat
  liveBuffer : Table (Prod.fst : Nat × Bytes → Nat)
  localTip : Nat
  drainQueued : Bool
  live : Bool
  drain : Drain
  sync : Sync
  requests : List SyncRequest
  handed : List Handed
  anchorTip : Nat
  drainStart : Nat
  drainSent : Nat

variable {kernel : ILightState}

-- A client whose `sync` was called.
def Client.new : Client kernel where
  state := none
  socket := false
  closed := false
  badge := .unverified
  gatewayTip := 0
  nextReqId := 1
  liveBuffer := ∅
  localTip := 0
  drainQueued := false
  live := false
  drain := .idle
  sync := .loading
  requests := []
  handed := []
  anchorTip := 0
  drainStart := 0
  drainSent := 0

namespace Client

def draining (c : Client kernel) : Bool :=
  match c.drain with
  | .idle => false
  | _ => true

def request (c : Client kernel) (req : SyncRequest) : Reply × Client kernel :=
  if c.socket then
    (.pending c.nextReqId,
      { c with nextReqId := c.nextReqId + 1, requests := c.requests ++ [req] })
  else (.settled (.error .SocketNotOpen), c)

def settlePending (c : Client kernel) (g : Reply → Reply) : Client kernel :=
  { c with sync := c.sync.onReply g, drain := c.drain.onReply g }

-- Blocks at or below the tip are ignored, and so are numbers that are buffered already.
def bufferBlock (c : Client kernel) (n : Nat) (b : Bytes) : Client kernel :=
  if c.localTip < n ∧ ¬ c.liveBuffer.contains n then
    { c with liveBuffer := c.liveBuffer.put (n, b) }
  else c

-- A blob without a number stops the loop with an exception. The blocks before it stay.
def enqueueBlocks : Client kernel → List Bytes → Except SyncError Unit × Client kernel
  | c, [] => (.ok (), c)
  | c, b :: bs =>
    match wireBlockNumber b with
    | none => (.error .BlobTooShort, c)
    | some n => enqueueBlocks (c.bufferBlock n b) bs

def lowestHigher (c : Client kernel) (next : Nat) : Option Nat :=
  ((c.liveBuffer.rows.map Prod.fst).filter (next < ·)).min?

-- The end of a drain, seen by the call of `sync` that awaits it, if one does.
def drainResolved (c : Client kernel) : Client kernel :=
  { c with
    drain := .idle
    sync :=
      match c.sync with
      | .draining f => .drained f
      | .flushing => .resolved
      | s => s }

def drainRejected (c : Client kernel) (e : SyncError) : Client kernel :=
  { c with
    drain := .idle
    sync :=
      match c.sync with
      | .draining _ => .rejected e
      | .flushing => .rejected e
      | s => s }

-- The kernel runs at once. Its verdict is awaited.
def applyWireBlock (opts : LightClientOptions kernel) (c : Client kernel) (bytes : Bytes) :
    Client kernel :=
  match c.state with
  | none => { c with drain := .applying (.error .StateNotInitialised) }
  | some s =>
    match kernel.applyBlock s bytes opts.expectedProposer with
    | some s' =>
      { c with
        state := some s'
        badge := .verified
        drain := .applying (.ok (kernel.tip s'))
        handed := c.handed ++ [⟨bytes, true, c.sync.running⟩] }
    | none =>
      { c with
        badge := .error
        drain := .applying (.error .VerificationError)
        handed := c.handed ++ [⟨bytes, false, c.sync.running⟩] }

def persist (c : Client kernel) : Client kernel := { c with drain := .persisting }

-- The inner loop of `drain` up to its next await, or to its `break`.
def pass (opts : LightClientOptions kernel) (c : Client kernel)
    (onBreak : Client kernel → Client kernel) : Client kernel :=
  let next := c.localTip + 1
  match c.liveBuffer.get next with
  | some (_, bytes) =>
    applyWireBlock opts { c with liveBuffer := c.liveBuffer.erase next } bytes
  | none =>
    match c.lowestHigher next with
    | none => onBreak c
    | some higher =>
      let upTo := min (next + SYNC_MAX_BATCH - 1) (higher - 1)
      let (reply, c) := c.request (.GetBlocks next upTo)
      { c with drain := .fetching upTo reply, drainSent := c.drainSent + 1 }

-- The outer loop from its start. Nothing queues a drain before its first await.
def rescan (opts : LightClientOptions kernel) (c : Client kernel) : Client kernel :=
  pass opts { c with drainQueued := false } persist

-- What follows the `break` of the inner loop.
def whileQueued (opts : LightClientOptions kernel) (c : Client kernel) : Client kernel :=
  if c.drainQueued then rescan opts c else persist c

def scan (opts : LightClientOptions kernel) (c : Client kernel) : Client kernel :=
  pass opts c (whileQueued opts)

def startDrain (opts : LightClientOptions kernel) (c : Client kernel) : Client kernel :=
  rescan opts { c with drainStart := c.localTip, drainSent := 0 }

-- A call of `drain` that nobody awaits.
def callDrain (opts : LightClientOptions kernel) (c : Client kernel) : Client kernel :=
  if c.draining then { c with drainQueued := true } else startDrain opts c

-- A call of `drain` that `sync` awaits: a second drain returns at once.
def awaitDrain (opts : LightClientOptions kernel) (c : Client kernel) (during after : Sync) :
    Client kernel :=
  if c.draining then { c with drainQueued := true, sync := after }
  else startDrain opts { c with sync := during }

-- `drain` goes on when what it awaits has settled.
def runDrain (opts : LightClientOptions kernel) (c : Client kernel) : Client kernel :=
  match c.drain with
  | .applying (.ok number) => scan opts { c with localTip := number }
  | .applying (.error .VerificationError) => c.drainResolved
  | .applying (.error e) => c.drainRejected e
  | .fetching _ (.settled (.error e)) => c.drainRejected e
  | .fetching _ (.settled (.ok (.Blocks []))) => whileQueued opts c
  | .fetching _ (.settled (.ok (.Blocks blocks))) =>
    match c.enqueueBlocks blocks with
    | (.error e, c) => c.drainRejected e
    | (.ok (), c) => scan opts c
  | .fetching _ (.settled (.ok _)) => c.drainRejected .UnexpectedResponse
  | _ => c

def saved (c : Client kernel) : Client kernel :=
  match c.drain with
  | .persisting => c.drainResolved
  | _ => c

def reject (c : Client kernel) (e : SyncError) : Client kernel :=
  { c with sync := .rejected e }

def goLive (opts : LightClientOptions kernel) (c : Client kernel) : Client kernel :=
  awaitDrain opts { c with live := true } .flushing .resolved

-- One round of the tip re-query, or its bound is reached.
def nextRound (opts : LightClientOptions kernel) (c : Client kernel) : Nat → Client kernel
  | 0 => goLive opts c
  | rounds + 1 =>
    let (reply, c) := c.request (.Hello c.localTip)
    { c with sync := .querying rounds reply }

-- The loop condition of `catchUpTo`, and its body up to the await.
def catchUpTo (opts : LightClientOptions kernel) (c : Client kernel) (f : CatchUp) :
    Client kernel :=
  if c.localTip < f.target then
    let first := c.localTip + 1
    let last := if first + SYNC_MAX_BATCH - 1 ≤ f.target then first + SYNC_MAX_BATCH - 1 else f.target
    let (reply, c) := c.request (.GetBlocks first last)
    { c with sync := .fetching { f with sent := f.sent + 1 } reply }
  else nextRound opts c f.rounds

def startCatchUp (opts : LightClientOptions kernel) (c : Client kernel) (target rounds : Nat) :
    Client kernel :=
  catchUpTo opts c { target := target, rounds := rounds, start := c.localTip, sent := 0 }

def greeted (opts : LightClientOptions kernel) (c : Client kernel) :
    Except SyncError SyncResponse → Client kernel
  | .error e => c.reject e
  | .ok (.Hello hello) =>
    if hello.chainId ≠ opts.chainId then c.reject (.ChainIdMismatch hello.chainId)
    else if hello.genesisHash ≠ opts.genesisHash then
      c.reject (.GenesisHashMismatch hello.genesisHash)
    else
      let (reply, c) := { c with gatewayTip := hello.tipHeight }.request .GetGenesis
      { c with sync := .anchoring reply }
  | .ok _ => c.reject .UnexpectedResponse

def anchored (opts : LightClientOptions kernel) (c : Client kernel) :
    Except SyncError SyncResponse → Client kernel
  | .error e => c.reject e
  | .ok (.Genesis anchor) =>
    if anchor.genesisHash ≠ opts.genesisHash then
      c.reject (.GenesisHashMismatch anchor.genesisHash)
    else if anchor.stateRoot ≠ opts.genesisStateRoot then
      c.reject (.StateRootMismatch anchor.stateRoot)
    else if anchor.chainId ≠ opts.chainId then c.reject (.ChainIdMismatch anchor.chainId)
    else if anchor.proposer ∉ opts.validatorSet then c.reject (.UnknownProposer anchor.proposer)
    else
      match opts.lightStateGenesisFactory opts.chainId opts.genesisHash opts.genesisStateRoot
          (opts.genesisTime.getD anchor.genesisTime) anchor.snapshot opts.validatorSet with
      | none => c.reject .SnapshotRejected
      | some s =>
        startCatchUp opts
          { c with state := some s, localTip := kernel.tip s, anchorTip := kernel.tip s }
          c.gatewayTip HANDSHAKE_CATCHUP_ROUNDS
  | .ok _ => c.reject .UnexpectedResponse

def fetched (opts : LightClientOptions kernel) (c : Client kernel) (f : CatchUp) :
    Except SyncError SyncResponse → Client kernel
  | .error e => c.reject e
  | .ok (.Blocks []) => nextRound opts c f.rounds
  | .ok (.Blocks blocks) =>
    match c.enqueueBlocks blocks with
    | (.error e, c) => c.reject e
    | (.ok (), c) => awaitDrain opts c (.draining f) (.drained f)
  | .ok _ => c.reject .UnexpectedResponse

def queried (opts : LightClientOptions kernel) (c : Client kernel) (rounds : Nat) :
    Except SyncError SyncResponse → Client kernel
  | .error e => c.reject e
  | .ok (.Hello hello) =>
    if hello.tipHeight ≤ c.localTip then goLive opts c
    else startCatchUp opts c hello.tipHeight rounds
  | .ok _ => c.reject .UnexpectedResponse

-- `sync` goes on when what it awaits has settled.
def runSync (opts : LightClientOptions kernel) (c : Client kernel) : Client kernel :=
  match c.sync with
  | .loading => { c with sync := .opening }
  | .greeting (.settled r) => greeted opts c r
  | .anchoring (.settled r) => anchored opts c r
  | .fetching f (.settled r) => fetched opts c f r
  | .drained f => catchUpTo opts c f
  | .querying rounds (.settled r) => queried opts c rounds r
  | _ => c

def opened (c : Client kernel) : Client kernel :=
  match c.sync with
  | .opening =>
    let (reply, c) := { c with socket := true }.request (.Hello 0)
    { c with sync := .greeting reply }
  | _ => c

def connectFailed (c : Client kernel) : Client kernel :=
  match c.sync with
  | .opening => c.reject .ConnectFailed
  | _ => c

-- The id zero is an unsolicited push. Any other settles the request it was given to.
def onMessage (opts : LightClientOptions kernel) (c : Client kernel) (reqId : Nat)
    (resp : SyncResponse) : Client kernel :=
  if c.closed then c
  else if reqId ≠ 0 then c.settlePending (Reply.settle reqId (.ok resp))
  else
    match resp with
    | .Blocks blocks =>
      match c.enqueueBlocks blocks with
      | (.error _, c) => c
      | (.ok (), c) => if c.live then callDrain opts c else c
    | _ => c

def close (c : Client kernel) : Client kernel :=
  { c.settlePending (Reply.reject .ClientClosed) with closed := true, socket := false }

end Client

-- What can happen next. The two coroutines run when the promise they await has settled; the
-- rest comes from the socket, the timers, the snapshot store and the caller.
inductive Event where
  | runSync
  | runDrain
  | opened
  | connectFailed
  | message (reqId : Nat) (resp : SyncResponse)
  | timeout (reqId : Nat)
  | disconnected
  | saved
  | close

-- An event that nobody waits for changes nothing.
def Client.step (opts : LightClientOptions kernel) (c : Client kernel) : Event → Client kernel
  | .runSync => c.runSync opts
  | .runDrain => c.runDrain opts
  | .opened => c.opened
  | .connectFailed => c.connectFailed
  | .message reqId resp => c.onMessage opts reqId resp
  | .timeout reqId => c.settlePending (Reply.settle reqId (.error (.TimedOut reqId)))
  | .disconnected => c.settlePending (Reply.reject .ConnectionClosed)
  | .saved => c.saved
  | .close => c.close

def Client.run (opts : LightClientOptions kernel) (c : Client kernel) (events : List Event) :
    Client kernel :=
  events.foldl (Client.step opts) c

end Ubi2.LightClient
