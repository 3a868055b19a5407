import Ubi2.Network.Wire

namespace Ubi2.Network

open Ubi2.Runtime Ubi2.Lib Ubi2.Lib.Encode Ubi2.Rpc

-- The bytes of an Ed25519 peer id.
abbrev PeerId := BitVec 304

def PROTOCOL_VERSION : BitVec 16 := 2#16
def SYNC_MAX_BATCH : Nat := 128
def SYNC_MAX_LOOKAHEAD : Nat := SYNC_MAX_BATCH * 64
def SYNC_MAX_NO_PROGRESS_ROUNDS : U32 := 3#32
def RATE_BUCKET_CAPACITY : Nat := 256
def RATE_REFILL_PER_SEC : Nat := 64
def SYNC_RATE_BUCKET_CAPACITY : Nat := 64
def SYNC_RATE_REFILL_PER_SEC : Nat := 16
def SYNC_MAX_INFLIGHT_PER_PEER : Nat := 4
def GREYLIST_THRESHOLD : U32 := 16#32

-- What a peer says of itself when it connects.
structure Hello where
  genesisHash : Hash
  chainId : U64
  tip : Nat × Hash
  validator : Option Address
  peerProof : Bytes
  protocolVer : BitVec 16
deriving DecidableEq

def Hello.proofDigest (host : NodeHost) (peer : PeerId) (genesisHash : Hash) : Hash :=
  host.keccak256 (beBytes peer ++ beBytes genesisHash)

-- The validator a peer speaks for, if its proof recovers to the one it claims.
def Hello.verifyBinding (host : NodeHost) (hello : Hello) (peer : PeerId) : Option Address :=
  match hello.validator with
  | none => none
  | some claimed =>
    if hello.peerProof = [] then none
    else if host.recoverProposer (Hello.proofDigest host peer hello.genesisHash)
        hello.peerProof = some claimed then some claimed
    else none

-- An inclusive range of heights.
structure GetBlocks where
  from_ : Nat
  to_ : Nat
deriving DecidableEq

-- What the driver hands to the network.
inductive NetCmd where
  | PublishTx (raw : Bytes)
  | PublishBlock (block : WireBlock)
  | RequestBlocks (peer : PeerId) (request : GetBlocks)
  | RespondBlocks (peer : PeerId) (blocks : List WireBlock)
  | PenalizePeer (peer : PeerId)
  | Disconnect (peer : PeerId)
  | UpdateHello (hello : Hello)
deriving DecidableEq

-- What the network hands to the driver.
inductive NetEvent where
  | Listening
  | PeerConnected (peer : PeerId)
  | PeerDisconnected (peer : PeerId)
  | PeerGreylisted (peer : PeerId)
  | Hello (peer : PeerId) (hello : Hello)
  | TxReceived (from_ : PeerId) (id : Hash) (raw : Bytes)
  | BlockReceived (from_ : PeerId) (block : WireBlock)
  | SyncRequest (from_ : PeerId) (request : GetBlocks)
  | SyncResponse (from_ : PeerId) (blocks : List WireBlock)
  | PeerPing (peer : PeerId) (ok : Bool)
deriving DecidableEq

-- Instants and durations are counted in nanoseconds.
@[irreducible] def millis (n : Nat) : Nat := n * 1000000

-- The whole milliseconds of a duration.
def asMillis (nanos : Nat) : Nat := nanos / 1000000

-- A bucket of tokens, counted in thousandths, that refills by the millisecond.
structure TokenBucket where
  tokensMilli : Nat
  lastRefill : Nat
  capacity : Nat
  refillPerSec : Nat

def TokenBucket.new (now capacity refillPerSec : Nat) : TokenBucket :=
  ⟨capacity * 1000, now, capacity, refillPerSec⟩

def TokenBucket.refill (t : TokenBucket) (now : Nat) : TokenBucket :=
  let elapsedMs := asMillis (now - t.lastRefill)
  if elapsedMs = 0 then t
  else
    { t with
      tokensMilli := min (t.tokensMilli + elapsedMs * t.refillPerSec) (t.capacity * 1000)
      lastRefill := now }

def TokenBucket.take (t : TokenBucket) (now : Nat) : Bool × TokenBucket :=
  let t := t.refill now
  if 1000 ≤ t.tokensMilli then (true, { t with tokensMilli := t.tokensMilli - 1000 })
  else (false, t)

structure PeerBucket where
  gossip : TokenBucket
  sync : TokenBucket
  syncInflight : Nat
  invalidCount : U32

def PeerBucket.new (now : Nat) : PeerBucket where
  gossip := .new now RATE_BUCKET_CAPACITY RATE_REFILL_PER_SEC
  sync := .new now SYNC_RATE_BUCKET_CAPACITY SYNC_RATE_REFILL_PER_SEC
  syncInflight := 0
  invalidCount := 0#32

abbrev RateLimiter := Table (Prod.fst : PeerId × PeerBucket → PeerId)

namespace RateLimiter

def bucket (r : RateLimiter) (peer : PeerId) (now : Nat) : PeerBucket :=
  ((r.get peer).map Prod.snd).getD (.new now)

def allow (r : RateLimiter) (peer : PeerId) (now : Nat) : Bool × RateLimiter :=
  let b := bucket r peer now
  let (ok, gossip) := b.gossip.take now
  (ok, r.put (peer, { b with gossip := gossip }))

def allowSync (r : RateLimiter) (peer : PeerId) (now : Nat) : Bool × RateLimiter :=
  let b := bucket r peer now
  let (ok, sync) := b.sync.take now
  (ok, r.put (peer, { b with sync := sync }))

def tryAcquireSyncInflight (r : RateLimiter) (peer : PeerId) (now : Nat) :
    Bool × RateLimiter :=
  let b := bucket r peer now
  if SYNC_MAX_INFLIGHT_PER_PEER ≤ b.syncInflight then (false, r.put (peer, b))
  else (true, r.put (peer, { b with syncInflight := b.syncInflight + 1 }))

def releaseSyncInflight (r : RateLimiter) (peer : PeerId) : RateLimiter :=
  match r.get peer with
  | some e => r.put (peer, { e.2 with syncInflight := e.2.syncInflight - 1 })
  | none => r

-- Whether the peer has now sent enough that is invalid to be greylisted.
def penalize (r : RateLimiter) (peer : PeerId) (now : Nat) : Bool × RateLimiter :=
  let b := bucket r peer now
  let count := Word.satAdd b.invalidCount 1#32
  (GREYLIST_THRESHOLD ≤ count, r.put (peer, { b with invalidCount := count }))

def forget (r : RateLimiter) (peer : PeerId) : RateLimiter := r.erase peer

end RateLimiter

-- The anchor of a chain and the state it starts from.
structure Genesis where
  genesisHash : Hash
  chainId : U64
  stateRoot : Hash
  genesisTime : U64
  proposer : Address
  snapshot : Bytes
deriving DecidableEq

inductive SyncRequest where
  | Hello (hello : Hello)
  | GetBlocks (request : GetBlocks)
  | GetGenesis

inductive SyncResponse where
  | Hello (hello : Hello)
  | Blocks (blocks : List WireBlock)
  | Genesis (genesis : Genesis)

inductive Topic where
  | tx
  | block
  | other

-- What the transport reports. A request is named by the id it was sent under.
inductive SwarmEvent where
  | NewListenAddr
  | ConnectionEstablished (peer : PeerId) (isDialer : Bool)
  | ConnectionClosed (peer : PeerId) (numEstablished : Nat)
  | GossipMessage (source : PeerId) (id : Hash) (topic : Topic) (data : Bytes)
  | Request (peer : PeerId) (request : SyncRequest)
  | Response (peer : PeerId) (requestId : Nat) (response : SyncResponse)
  | OutboundFailure (peer : PeerId) (requestId : Nat)
  | Ping (peer : PeerId) (ok : Bool)

inductive PendingKind where
  | Hello
  | Blocks
deriving DecidableEq

-- What the loop asks of the transport.
inductive SwarmCall where
  | PublishTx (raw : Bytes)
  | PublishBlock (bytes : Bytes)
  | SendRequest (peer : PeerId) (requestId : Nat) (request : SyncRequest)
  | SendResponse (peer : PeerId) (response : SyncResponse)
  | DisconnectPeer (peer : PeerId)

abbrev PendingRequests := Table (Prod.fst : Nat × PendingKind → Nat)

-- The swarm loop: the requests that are not answered yet, and the calls it made, the last
-- one last.
structure LoopState where
  rate : RateLimiter
  pendingRequests : PendingRequests
  nextRequestId : Nat
  localHello : Hello
  calls : List SwarmCall

namespace LoopState

def call (st : LoopState) (c : SwarmCall) : LoopState := { st with calls := st.calls ++ [c] }

def sendRequest (st : LoopState) (peer : PeerId) (request : SyncRequest) (kind : PendingKind) :
    LoopState :=
  { st with
    pendingRequests := st.pendingRequests.put (st.nextRequestId, kind)
    nextRequestId := st.nextRequestId + 1 }.call (.SendRequest peer st.nextRequestId request)

def penalize (st : LoopState) (now : Nat) (peer : PeerId) : LoopState × List NetEvent :=
  let (greylisted, rate) := RateLimiter.penalize st.rate peer now
  let st := { st with rate := rate }
  if greylisted then (st.call (.DisconnectPeer peer), [.PeerGreylisted peer]) else (st, [])

def handleCmd (st : LoopState) (now : Nat) : NetCmd → LoopState × List NetEvent
  | .PublishTx raw => (st.call (.PublishTx raw), [])
  | .PublishBlock b => (st.call (.PublishBlock (encode b)), [])
  | .RequestBlocks peer request => (st.sendRequest peer (.GetBlocks request) .Blocks, [])
  | .RespondBlocks peer blocks =>
    ({ st with rate := RateLimiter.releaseSyncInflight st.rate peer }.call
      (.SendResponse peer (.Blocks blocks)), [])
  | .PenalizePeer peer => st.penalize now peer
  | .Disconnect peer => (st.call (.DisconnectPeer peer), [])
  | .UpdateHello hello => ({ st with localHello := hello }, [])

def handleGossip (host : NodeHost) (st : LoopState) (now : Nat) (source : PeerId) (id : Hash)
    (data : Bytes) : Topic → LoopState × List NetEvent
  | .tx =>
    if data = [] ∨ MAX_TX_BYTES < data.length then st.penalize now source
    else (st, [.TxReceived source id data])
  | .block =>
    match decode data with
    | .ok b =>
      if shallowVerify host b then (st, [.BlockReceived source b]) else st.penalize now source
    | .error _ => st.penalize now source
  | .other => (st, [])

-- A request over the rate or over the cap on pulls is dropped.
def handleRequest (st : LoopState) (now : Nat) (peer : PeerId) :
    SyncRequest → LoopState × List NetEvent
  | .Hello hello =>
    (st.call (.SendResponse peer (.Hello st.localHello)), [.Hello peer hello])
  | .GetBlocks request =>
    let (ok, rate) := RateLimiter.tryAcquireSyncInflight st.rate peer now
    let st := { st with rate := rate }
    if ok then (st, [.SyncRequest peer request]) else st.penalize now peer
  | .GetGenesis => (st, [])

-- A response counts for what its request asked for.
def handleResponse (st : LoopState) (peer : PeerId) (requestId : Nat)
    (response : SyncResponse) : LoopState × List NetEvent :=
  let pending := st.pendingRequests.get requestId
  let st := { st with pendingRequests := st.pendingRequests.erase requestId }
  match pending.map Prod.snd, response with
  | some .Hello, .Hello hello => (st, [.Hello peer hello])
  | some .Blocks, .Blocks blocks => (st, [.SyncResponse peer blocks])
  | _, _ => (st, [])

-- A pull that failed is reported as a response without blocks, so that the driver asks
-- again.
def handleOutboundFailure (st : LoopState) (peer : PeerId) (requestId : Nat) :
    LoopState × List NetEvent :=
  let pending := st.pendingRequests.get requestId
  let st := { st with pendingRequests := st.pendingRequests.erase requestId }
  match pending.map Prod.snd with
  | some .Blocks => (st, [.SyncResponse peer []])
  | _ => (st, [])

def handleSwarmEvent (host : NodeHost) (st : LoopState) (now : Nat) :
    SwarmEvent → LoopState × List NetEvent
  | .NewListenAddr => (st, [.Listening])
  | .ConnectionEstablished peer isDialer =>
    let st := if isDialer then st.sendRequest peer (.Hello st.localHello) .Hello else st
    (st, [.PeerConnected peer])
  | .ConnectionClosed peer numEstablished =>
    ({ st with rate := RateLimiter.forget st.rate peer },
      if numEstablished = 0 then [.PeerDisconnected peer] else [])
  | .GossipMessage source id topic data =>
    let (ok, rate) := RateLimiter.allow st.rate source now
    let st := { st with rate := rate }
    if ok then st.handleGossip host now source id data topic else (st, [])
  | .Request peer request =>
    let (ok, rate) := RateLimiter.allowSync st.rate peer now
    let st := { st with rate := rate }
    if ok then st.handleRequest now peer request else st.penalize now peer
  | .Response peer requestId response => st.handleResponse peer requestId response
  | .OutboundFailure peer requestId => st.handleOutboundFailure peer requestId
  | .Ping peer ok => (st, [.PeerPing peer ok])

end LoopState

end Ubi2.Network
