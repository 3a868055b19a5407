import Ubi2.Network.Cursor

namespace Ubi2.Network

open Ubi2.Runtime Ubi2.Lib Ubi2.Lib.Encode Ubi2.Lib.Decode Ubi2.Rpc

namespace Hello

def encodeValidator : Option Address → Bytes
  | some a => 1#8 :: beBytes a
  | none => [0#8]

def encode (h : Hello) : Bytes :=
  beBytes h.genesisHash ++ beBytes h.chainId ++ natBytes 8 h.tip.1 ++ beBytes h.tip.2 ++
    encodeValidator h.validator ++ putBytes h.peerProof ++ beBytes h.protocolVer

def readValidator : Scan WireError (Option Address) := do
  let tag ← Reader.word 8
  if tag = 0#8 then return none
  else if tag = 1#8 then do
    let a ← Reader.word 160
    return some a
  else Scan.fail (.Invalid "validator-tag")

def read : Scan WireError Hello := do
  let genesisHash ← Reader.word 256
  let chainId ← Reader.word 64
  let tipHeight ← Reader.nat 8
  let tipHash ← Reader.word 256
  let validator ← readValidator
  let peerProof ← Reader.bytes MAX_SIG_BYTES
  let protocolVer ← Reader.word 16
  return {
    genesisHash := genesisHash, chainId := chainId, tip := (tipHeight, tipHash)
    validator := validator, peerProof := peerProof, protocolVer := protocolVer }

def decode (buf : Bytes) : Option (Except WireError Hello) := decodeWhole read buf

end Hello

namespace GetBlocks

def encode (g : GetBlocks) : Bytes := natBytes 8 g.from_ ++ natBytes 8 g.to_

def read : Scan WireError GetBlocks := do
  let from_ ← Reader.nat 8
  let to_ ← Reader.nat 8
  return { from_ := from_, to_ := to_ }

def decode (buf : Bytes) : Option (Except WireError GetBlocks) := decodeWhole read buf

end GetBlocks

-- A request that has no body.
namespace GetGenesis

def encode (_ : Unit) : Bytes := []

def decode (buf : Bytes) : Option (Except WireError Unit) :=
  if buf = [] then some (.ok ()) else some (.error .TrailingBytes)

end GetGenesis

namespace Genesis

def encode (g : Genesis) : Bytes :=
  beBytes g.genesisHash ++ beBytes g.chainId ++ beBytes g.stateRoot ++ beBytes g.genesisTime ++
    beBytes g.proposer ++ putBytes g.snapshot

def read : Scan WireError Genesis := do
  let genesisHash ← Reader.word 256
  let chainId ← Reader.word 64
  let stateRoot ← Reader.word 256
  let genesisTime ← Reader.word 64
  let proposer ← Reader.word 160
  let snapshot ← Reader.bytes MAX_BLOCK_BYTES
  return {
    genesisHash := genesisHash, chainId := chainId, stateRoot := stateRoot
    genesisTime := genesisTime, proposer := proposer, snapshot := snapshot }

def decode (buf : Bytes) : Option (Except WireError Genesis) := decodeWhole read buf

end Genesis

namespace Blocks

def encode (blocks : List WireBlock) : Bytes :=
  natBytes 4 blocks.length ++ blocks.flatMap fun b => putBytes (Network.encode b)

-- A block is cut out of the response and decoded on its own.
def readOne : Scan WireError WireBlock := do
  let raw ← Reader.bytes MAX_BLOCK_BYTES
  Scan.ofResult (WireBlock.decode raw)

def read : Scan WireError (List WireBlock) := do
  let count ← Reader.nat 4
  if SYNC_MAX_BATCH < count then Scan.fail .TooLong else Scan.times readOne count

def decode (buf : Bytes) : Option (Except WireError (List WireBlock)) := decodeWhole read buf

end Blocks

def SYNC_TAG_HELLO : U8 := 0#8
def SYNC_TAG_BLOCKS : U8 := 1#8
def SYNC_TAG_GENESIS : U8 := 2#8

-- What was decoded, as one of the kinds of a message.
def asKind {α β : Type} (kind : α → β) (r : Option (Except WireError α)) :
    Option (Except WireError β) :=
  r.map fun x => x.map kind

namespace SyncRequest

def encode : SyncRequest → Bytes
  | .Hello h => SYNC_TAG_HELLO :: h.encode
  | .GetBlocks g => SYNC_TAG_BLOCKS :: g.encode
  | .GetGenesis => SYNC_TAG_GENESIS :: GetGenesis.encode ()

def decode : Bytes → Option (Except WireError SyncRequest)
  | [] => some (.error .Truncated)
  | tag :: rest =>
    if tag = SYNC_TAG_HELLO then asKind .Hello (Hello.decode rest)
    else if tag = SYNC_TAG_BLOCKS then asKind .GetBlocks (GetBlocks.decode rest)
    else if tag = SYNC_TAG_GENESIS then asKind (fun _ => .GetGenesis) (GetGenesis.decode rest)
    else some (.error (.Invalid "sync-request-tag"))

end SyncRequest

namespace SyncResponse

def encode : SyncResponse → Bytes
  | .Hello h => SYNC_TAG_HELLO :: h.encode
  | .Blocks blocks => SYNC_TAG_BLOCKS :: Blocks.encode blocks
  | .Genesis g => SYNC_TAG_GENESIS :: g.encode

def decode : Bytes → Option (Except WireError SyncResponse)
  | [] => some (.error .Truncated)
  | tag :: rest =>
    if tag = SYNC_TAG_HELLO then asKind .Hello (Hello.decode rest)
    else if tag = SYNC_TAG_BLOCKS then asKind .Blocks (Blocks.decode rest)
    else if tag = SYNC_TAG_GENESIS then asKind .Genesis (Genesis.decode rest)
    else some (.error (.Invalid "sync-response-tag"))

end SyncResponse

-- A message of the gateway behind the id of its request.
structure SyncFrame (α : Type) where
  reqId : Nat
  body : α

namespace SyncFrame

variable {α : Type}

def writeFramed (reqId : Nat) (body : Bytes) : Bytes := natBytes 8 reqId ++ body

def readReqId (buf : Bytes) : Option (Except WireError (Nat × Bytes)) :=
  if buf.length < 8 then some (.error .Truncated)
  else
    match (Scan.slice buf 0 8).bind (Scan.toArray 8), Scan.slice buf 8 buf.length with
    | some id, some body => some (.ok (ofBytes id, body))
    | _, _ => none

def encode (encodeBody : α → Bytes) (f : SyncFrame α) : Bytes :=
  writeFramed f.reqId (encodeBody f.body)

def decode (decodeBody : Bytes → Option (Except WireError α)) (buf : Bytes) :
    Option (Except WireError (SyncFrame α)) :=
  match readReqId buf with
  | none => none
  | some (.error e) => some (.error e)
  | some (.ok (reqId, rest)) => asKind (SyncFrame.mk reqId) (decodeBody rest)

def encodeRequest (f : SyncFrame SyncRequest) : Bytes := f.encode SyncRequest.encode

def decodeRequest (buf : Bytes) : Option (Except WireError (SyncFrame SyncRequest)) :=
  decode SyncRequest.decode buf

def encodeResponse (f : SyncFrame SyncResponse) : Bytes := f.encode SyncResponse.encode

def decodeResponse (buf : Bytes) : Option (Except WireError (SyncFrame SyncResponse)) :=
  decode SyncResponse.decode buf

end SyncFrame

end Ubi2.Network
