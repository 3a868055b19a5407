import Ubi2.Network.Swarm
import Ubi2.Rpc.Admission
import Ubi2.Rpc.Reorg

namespace Ubi2.Node

open Ubi2.Runtime Ubi2.Lib Ubi2.Rpc Ubi2.Network

-- The rejections a peer is penalized for. The others are what a race between forks brings.
def isPenalizable : BlockError → Bool
  | .WrongProposer | .BadSignature | .ViewOutOfRange _ | .StateRootMismatch _ _
  | .NoValidatorSet | .UndecodableTx => true
  | .NonContiguous _ _ | .WrongParent | .BadTimestamp => false

-- The two clocks a node reads: instants are nanoseconds of a monotonic clock, and the
-- submit gate reads the wall clock.
structure Clock where
  instant : Nat
  unix : U64

structure PeerEntry where
  validator : Option Address := none
  tip : Option (Nat × Hash) := none
  syncNoProgress : U32 := 0#32
  lastAlive : Option Nat := none
deriving DecidableEq

abbrev Peers := Table (Prod.fst : PeerId × PeerEntry → PeerId)

-- What the node shows of the consensus.
structure ConsensusStatus where
  validatorSet : List Address := []
  currentView : U32 := 0#32
  reachableValidators : Nat := 0

structure NetDriver where
  chain : Chain
  peers : Peers
  validatorKey : Option ProposerKey
  validatorOverride : Option Address
  isProposer : Bool
  chainId : U64
  localPeer : PeerId
  syncInFlightTo : Nat
  viewHeight : Nat
  currentView : U32
  viewDeadline : Nat
  proposerTimeout : Nat
  livenessTimeout : Nat
  status : ConsensusStatus
  sent : List NetCmd

end Ubi2.Node

namespace Ubi2.Rpc.Chain

open Ubi2.Runtime

def tip (chain : Chain) : Nat × Hash := (chain.head.number, chain.head.hash)

def genesisHash (chain : Chain) : Hash := (chain.inner.blocks.head chain.inner.genesisPresent).hash

def knowsBlock (chain : Chain) (hash : Hash) : Bool := chain.inner.blocksByHash.contains hash

def blockAt (chain : Chain) (height : Nat) : Option Block := chain.inner.blocks[height]?

def proposerAddress (chain : Chain) : Option Address := chain.proposerKey.map ProposerKey.address

-- Reading the validator set of a chain at genesis seeds it.
def effectiveValidatorSet (chain : Chain) (validatorOverride : Option Address) :
    List Address × Chain :=
  match validatorOverride with
  | some a => ([a], chain)
  | none =>
    let chain := chain.ensureEpochValidatorsSeeded
    (chain.inner.state.epochValidators, chain)

def scheduledProposer (chain : Chain) (height : Nat) (view : U32)
    (validatorOverride : Option Address) : Option Address × Chain :=
  let (v, chain) := chain.effectiveValidatorSet validatorOverride
  (v[proposerIndex height view v.length]?, chain)

end Ubi2.Rpc.Chain

namespace Ubi2.Node.NetDriver

open Ubi2.Runtime Ubi2.Lib Ubi2.Rpc Ubi2.Network

def send (d : NetDriver) (cmd : NetCmd) : NetDriver := { d with sent := d.sent ++ [cmd] }

-- The entry of a peer, or a fresh one.
def entry (d : NetDriver) (peer : PeerId) : PeerEntry :=
  ((d.peers.get peer).map Prod.snd).getD {}

def setEntry (d : NetDriver) (peer : PeerId) (e : PeerEntry) : NetDriver :=
  { d with peers := d.peers.put (peer, e) }

def markPeerAlive (d : NetDriver) (now : Nat) (peer : PeerId) : NetDriver :=
  d.setEntry peer { d.entry peer with lastAlive := some now }

def setTip (d : NetDriver) (peer : PeerId) (tip : Nat × Hash) : NetDriver :=
  d.setEntry peer { d.entry peer with tip := some tip }

def removePeer (d : NetDriver) (peer : PeerId) : NetDriver :=
  { d with peers := d.peers.erase peer }

-- Whether a peer proved itself alive within the liveness timeout.
def fresh (d : NetDriver) (now : Nat) (e : PeerEntry) : Bool :=
  e.lastAlive.any fun t => now - t < d.livenessTimeout

-- The validators of `v` within reach: the node's own, and those of its fresh peers.
def reachableValidators (d : NetDriver) (now : Nat) (v : List Address) : List Address :=
  let bound := d.peers.rows.filterMap fun e =>
    if d.fresh now e.2 then e.2.validator else none
  ((d.chain.proposerAddress.toList ++ bound).filter (· ∈ v)).dedup

def reachableValidatorCount (d : NetDriver) (now : Nat) (v : List Address) : Nat :=
  if v = [] then 0 else (d.reachableValidators now v).length

def publishConsensusStatus (d : NetDriver) (now : Nat) : NetDriver :=
  let (v, chain) := d.chain.effectiveValidatorSet d.validatorOverride
  { d with
    chain := chain
    status := ⟨v, d.currentView, d.reachableValidatorCount now v⟩ }

-- Production needs a majority of the validators within reach.
def productionGuardOk (d : NetDriver) (now : Nat) : Bool × NetDriver :=
  let (v, chain) := d.chain.effectiveValidatorSet d.validatorOverride
  let n := v.length
  (n ≠ 0 ∧ n / 2 + 1 ≤ d.reachableValidatorCount now v, { d with chain := chain })

def buildHello (host : NodeHost) (d : NetDriver) : Hello where
  genesisHash := d.chain.genesisHash
  chainId := d.chainId
  tip := d.chain.tip
  validator := d.validatorKey.map ProposerKey.address
  peerProof :=
    match d.validatorKey with
    | some key => key.signPrehash (Hello.proofDigest host d.localPeer d.chain.genesisHash)
    | none => []
  protocolVer := PROTOCOL_VERSION

def refreshAdvertisedState (host : NodeHost) (d : NetDriver) (now : Nat) : NetDriver :=
  (d.send (.UpdateHello (d.buildHello host))).publishConsensusStatus now

-- Pull the blocks a peer is ahead by, unless its tip is implausible or already pulled.
def maybeSync (d : NetDriver) (peer : PeerId) (peerTip : Nat) : NetDriver :=
  let head := d.chain.tip.1
  if peerTip ≤ head then d
  else if head + SYNC_MAX_LOOKAHEAD < peerTip then d
  else if peerTip ≤ d.syncInFlightTo then d
  else
    let from_ := head + 1
    let to_ := min peerTip (from_ + SYNC_MAX_BATCH - 1)
    { d with syncInFlightTo := to_ }.send (.RequestBlocks peer ⟨from_, to_⟩)

-- A peer of another network or another protocol is disconnected.
def onHello (host : NodeHost) (d : NetDriver) (now : Nat) (peer : PeerId) (hello : Hello) :
    NetDriver :=
  if hello.genesisHash ≠ d.chain.genesisHash ∨ hello.chainId ≠ d.chainId then
    (d.send (.Disconnect peer)).removePeer peer
  else if hello.protocolVer ≠ PROTOCOL_VERSION then
    (d.send (.Disconnect peer)).removePeer peer
  else
    let e : PeerEntry :=
      { d.entry peer with
        validator := hello.verifyBinding host peer
        tip := some hello.tip
        lastAlive := some now }
    (d.setEntry peer e).maybeSync peer hello.tip.1

def onTx (host : NodeHost) (d : NetDriver) (unix : U64) (from_ : PeerId) (id : Hash)
    (raw : Bytes) : NetDriver :=
  if d.chain.knowsTx id then d
  else
    match d.chain.ingestRawTx host unix raw with
    | (.ok _, chain) => { d with chain := chain }.send (.PublishTx raw)
    | (.error _, chain) => { d with chain := chain }.send (.PenalizePeer from_)

-- Apply a block to the head and keep its raw transactions. `none` is a panic.
def applyWireBlock (host : NodeHost) (d : NetDriver) (b : WireBlock) :
    Option (Except BlockError Unit × NetDriver) :=
  match d.chain.validateAndApplyBlock host b d.validatorOverride with
  | none => none
  | some (.ok _, chain) => some (.ok (), { d with chain := chain.cacheRawTxs host b.rawTxs })
  | some (.error e, chain) => some (.error e, { d with chain := chain })

-- Hand a block off the head to the fork choice.
def considerFork (host : NodeHost) (d : NetDriver) (now : Nat) (from_ : PeerId)
    (b : WireBlock) : Option NetDriver :=
  match d.chain.considerCompetingBlock host b d.validatorOverride with
  | none => none
  | some (.ok (some _), chain) =>
    let d := { d with chain := chain.cacheRawTxs host b.rawTxs }
    let d := (d.setTip from_ (b.number, b.hash host)).send (.PublishBlock b)
    some (d.refreshAdvertisedState host now)
  | some (.ok none, chain) => some { d with chain := chain }
  | some (.error e, chain) =>
    let d := { d with chain := chain }
    some (if isPenalizable e then d.send (.PenalizePeer from_) else d)

-- Whether a block ahead of the head is believed about its height: it is authentic, and a
-- validator's.
def announcedTipIsTrustworthy (host : NodeHost) (d : NetDriver) (b : WireBlock) :
    Bool × NetDriver :=
  if ¬ shallowVerify host b then (false, d)
  else
    let (v, chain) := d.chain.effectiveValidatorSet d.validatorOverride
    (b.proposer ∈ v, { d with chain := chain })

def onAheadBlock (host : NodeHost) (d : NetDriver) (now : Nat) (from_ : PeerId)
    (b : WireBlock) : Option NetDriver :=
  match d.announcedTipIsTrustworthy host b with
  | (false, d) => some (d.send (.PenalizePeer from_))
  | (true, d) =>
    (d.considerFork host now from_ b).map fun d =>
      (d.setTip from_ (b.number, b.hash host)).maybeSync from_ b.number

-- A block above the head that does not extend it leaves a gap, and any other competes
-- with what the node has.
def onForkBlock (host : NodeHost) (d : NetDriver) (now : Nat) (from_ : PeerId)
    (b : WireBlock) (localHeight : Nat) : Option NetDriver :=
  if localHeight + 1 < b.number then d.onAheadBlock host now from_ b
  else d.considerFork host now from_ b

def onBlock (host : NodeHost) (d : NetDriver) (now : Nat) (from_ : PeerId) (b : WireBlock) :
    Option NetDriver :=
  let d := d.markPeerAlive now from_
  let localHeight := d.chain.tip.1
  if d.chain.knowsBlock (b.hash host) then some d
  else if b.number = localHeight + 1 then
    match d.applyWireBlock host b with
    | none => none
    | some (.ok _, d) =>
      let d := (d.setTip from_ (b.number, b.hash host)).send (.PublishBlock b)
      some (d.refreshAdvertisedState host now)
    | some (.error e, d) =>
      if isPenalizable e then some (d.send (.PenalizePeer from_))
      else d.onForkBlock host now from_ b localHeight
  else d.onForkBlock host now from_ b localHeight

def wireBlocks (d : NetDriver) (start end_ : Nat) : List WireBlock :=
  (List.range' start (end_ + 1 - start)).filterMap fun h =>
    (d.chain.blockAt h).map d.chain.wireBlockFrom

-- Genesis is never served.
def onSyncRequest (d : NetDriver) (from_ : PeerId) (request : GetBlocks) : NetDriver :=
  let head := d.chain.tip.1
  let start := max request.from_ 1
  let end_ := min (min request.to_ head) (start + (SYNC_MAX_BATCH - 1))
  d.send (.RespondBlocks from_ (d.wireBlocks start end_))

-- The blocks of a response in order, with whether a fork was seen so far. An invalid block
-- ends it.
def applySyncBlocks (host : NodeHost) (now : Nat) (from_ : PeerId) :
    List WireBlock → Bool → NetDriver → Option (Bool × NetDriver)
  | [], forkSeen, d => some (forkSeen, d)
  | b :: blocks, forkSeen, d =>
    if d.chain.knowsBlock (b.hash host) then applySyncBlocks host now from_ blocks forkSeen d
    else if ¬ shallowVerify host b then some (forkSeen, d.send (.PenalizePeer from_))
    else if forkSeen = false ∧ b.number = d.chain.tip.1 + 1 then
      match d.applyWireBlock host b with
      | none => none
      | some (.ok _, d) => applySyncBlocks host now from_ blocks forkSeen d
      | some (.error e, d) =>
        if isPenalizable e then some (forkSeen, d.send (.PenalizePeer from_))
        else (d.considerFork host now from_ b).bind (applySyncBlocks host now from_ blocks true)
    else
      (d.considerFork host now from_ b).bind (applySyncBlocks host now from_ blocks forkSeen)

-- Pull the blocks from just above the finalized height to the head.
def requestForkBackfill (d : NetDriver) (peer : PeerId) : NetDriver :=
  let head := d.chain.tip.1
  let from_ := max (d.chain.finalizedHeight + 1) 1
  if head < from_ then d
  else d.send (.RequestBlocks peer ⟨from_, min head (from_ + SYNC_MAX_BATCH - 1)⟩)

-- Pull on toward the tip that is recorded for a peer.
def chaseTip (d : NetDriver) (peer : PeerId) : NetDriver :=
  match (d.peers.get peer).bind fun e => e.2.tip with
  | some tip => d.maybeSync peer tip.1
  | none => d

-- Change the entry of a peer, where there is one.
def modifyEntry (d : NetDriver) (peer : PeerId) (f : PeerEntry → PeerEntry) : NetDriver :=
  match d.peers.get peer with
  | some e => d.setEntry peer (f e.2)
  | none => d

-- After a response the head has moved on: forget the idle rounds and pull the next batch.
def onSyncProgress (host : NodeHost) (d : NetDriver) (now : Nat) (from_ : PeerId) :
    NetDriver :=
  let d := d.modifyEntry from_ fun e => { e with syncNoProgress := 0#32 }
  (d.refreshAdvertisedState host now).chaseTip from_

-- A response that brought nothing counts against the peer, which is given up after a few.
def onSyncIdle (d : NetDriver) (from_ : PeerId) (forkSeen : Bool) : NetDriver :=
  let rounds := Word.satAdd (d.entry from_).syncNoProgress 1#32
  let d := d.setEntry from_ { d.entry from_ with syncNoProgress := rounds }
  if SYNC_MAX_NO_PROGRESS_ROUNDS ≤ rounds then
    (d.send (.PenalizePeer from_)).modifyEntry from_ fun e => { e with tip := none }
  else if forkSeen then d.requestForkBackfill from_
  else d.chaseTip from_

def onSyncResponse (host : NodeHost) (d : NetDriver) (now : Nat) (from_ : PeerId)
    (blocks : List WireBlock) : Option NetDriver :=
  let d := d.markPeerAlive now from_
  let headBefore := d.chain.tip.1
  match applySyncBlocks host now from_ blocks false d with
  | none => none
  | some (forkSeen, d) =>
    let d := { d with syncInFlightTo := 0 }
    some (if headBefore < d.chain.tip.1 then d.onSyncProgress host now from_
      else d.onSyncIdle from_ forkSeen)

-- `none` is a panic.
def onEvent (host : NodeHost) (d : NetDriver) (clock : Clock) : NetEvent → Option NetDriver
  | .Listening => some d
  | .PeerConnected peer =>
    some ((d.markPeerAlive clock.instant peer).publishConsensusStatus clock.instant)
  | .PeerDisconnected peer => some (d.removePeer peer)
  | .PeerGreylisted peer => some (d.removePeer peer)
  | .Hello peer hello => some (d.onHello host clock.instant peer hello)
  | .TxReceived from_ id raw => some (d.onTx host clock.unix from_ id raw)
  | .BlockReceived from_ b => d.onBlock host clock.instant from_ b
  | .SyncRequest from_ request => some (d.onSyncRequest from_ request)
  | .SyncResponse from_ blocks => d.onSyncResponse host clock.instant from_ blocks
  | .PeerPing peer ok =>
    some (if ok then (d.markPeerAlive clock.instant peer).publishConsensusStatus clock.instant
      else d)

-- A new head starts over at view 0, and a deadline that has passed moves on to the next
-- view.
def tickView (d : NetDriver) (now : Nat) : NetDriver :=
  let target := d.chain.tip.1 + 1
  if d.viewHeight ≠ target then
    { d with
      viewHeight := target
      currentView := 0#32
      viewDeadline := now + d.proposerTimeout }.publishConsensusStatus now
  else if d.viewDeadline ≤ now then
    { d with
      currentView := Word.satAdd d.currentView 1#32
      viewDeadline := now + d.proposerTimeout }.publishConsensusStatus now
  else d

-- The produced block, if it is this node's turn. `none` is a panic.
def produceIfScheduled (host : NodeHost) (d : NetDriver) (now : Nat) (timestamp : U64) :
    Option (Option Block × NetDriver) :=
  let me := d.chain.proposerAddress
  let (scheduled, chain) :=
    d.chain.scheduledProposer (d.chain.tip.1 + 1) d.currentView d.validatorOverride
  let d := { d with chain := chain }
  if me = none ∨ scheduled = none ∨ me ≠ scheduled then some (none, d)
  else if VIEW_MAX ≤ d.currentView then some (none, d)
  else
    match d.productionGuardOk now with
    | (false, d) => some (none, d)
    | (true, d) =>
      match d.chain.produceBlockAtView host timestamp d.currentView with
      | none => none
      | some (b, chain) =>
        let d := { d with chain := chain }
        let d := d.send (.PublishBlock (d.chain.wireBlockFrom b))
        some (some b, d.refreshAdvertisedState host now)

def tickProposer (host : NodeHost) (d : NetDriver) (now : Nat) (timestamp : U64) :
    Option (Option Block × NetDriver) :=
  let d := (d.tickView now).publishConsensusStatus now
  if ¬ d.isProposer then some (none, d)
  else d.produceIfScheduled host now timestamp

def relayPendingTxs (d : NetDriver) : NetDriver :=
  d.chain.pendingRawTxs.foldl (fun d raw => d.send (.PublishTx raw)) d

-- A node that has just started.
def new (chain : Chain) (validatorKey : Option ProposerKey)
    (validatorOverride : Option Address) (isProposer : Bool) (chainId : U64)
    (localPeer : PeerId) (blockMs now : Nat) : NetDriver :=
  let proposerTimeout := millis (max (blockMs * 2) 1)
  publishConsensusStatus
    { chain := chain
      peers := ∅
      validatorKey := validatorKey
      validatorOverride := validatorOverride
      isProposer := isProposer
      chainId := chainId
      localPeer := localPeer
      syncInFlightTo := 0
      viewHeight := 0
      currentView := 0#32
      viewDeadline := now + proposerTimeout
      proposerTimeout := proposerTimeout
      livenessTimeout := proposerTimeout
      status := {}
      sent := [] } now

end Ubi2.Node.NetDriver
