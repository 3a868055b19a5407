import Ubi2.Lib.Except
import Ubi2.Lib.Json
import Ubi2.StatusSnapshot.Codec
import Ubi2.StatusSnapshot.Coherence

namespace Ubi2.StatusSnapshot

open Ubi2.Runtime Ubi2.Lib Ubi2.Lib.Except PackedStatusSnapshotBuilder

-- The records that the JSON texts are read into.
structure BlockRefWire where
  number : String
  hash : String
  parentHash : String

structure EventWire where
  kind : String
  logIndex : Nat
  issuerKeyId : String
  statusId : Nat
  authorizationReference : Option String

structure BlockWire where
  number : String
  hash : String
  parentHash : String
  events : List EventWire

structure SourceWire where
  schema : String
  chainId : String
  issuanceRegistry : String
  issuerKeyId : String
  anchor : BlockRefWire
  blocks : List BlockWire

structure SnapshotChunkWire where
  index : Nat
  value : String
deriving DecidableEq, Repr

structure SnapshotWire where
  schema : String
  chainId : String
  issuanceRegistry : String
  issuerKeyId : String
  sourceBlockNumber : String
  sourceBlockHash : String
  sourceBlockParentHash : String
  nextStatusId : Nat
  activatedThroughStatusId : Nat
  root : String
  chunks : List SnapshotChunkWire
deriving DecidableEq, Repr

-- The numbers are those of the fields' types.
structure SnapshotWire.Fits (w : SnapshotWire) : Prop where
  nextStatusId : w.nextStatusId ≤ U64_MAX
  activatedThroughStatusId : w.activatedThroughStatusId ≤ U32_MAX
  chunks : ∀ chunk ∈ w.chunks, chunk.index ≤ U32_MAX

def SnapshotChunkWire.json (w : SnapshotChunkWire) : Json :=
  .obj [("index", .num w.index), ("value", .str w.value)]

def SnapshotWire.json (w : SnapshotWire) : Json :=
  .obj
    [("schema", .str w.schema), ("chainId", .str w.chainId),
      ("issuanceRegistry", .str w.issuanceRegistry), ("issuerKeyId", .str w.issuerKeyId),
      ("sourceBlockNumber", .str w.sourceBlockNumber),
      ("sourceBlockHash", .str w.sourceBlockHash),
      ("sourceBlockParentHash", .str w.sourceBlockParentHash),
      ("nextStatusId", .num w.nextStatusId),
      ("activatedThroughStatusId", .num w.activatedThroughStatusId), ("root", .str w.root),
      ("chunks", .arr (w.chunks.map SnapshotChunkWire.json))]

-- How a JSON text is read into a record. `none` is a text that is refused.
structure FromStr where
  snapshot : String → Option SnapshotWire
  source : String → Option SourceWire

-- What serde_json writes of a record: its members in the order of its fields, with no blanks.
abbrev SnapshotWire.toString (w : SnapshotWire) : String := w.json.compact

-- A text that was written is read back.
def FromStr.ReadsBack (fromStr : FromStr) : Prop :=
  ∀ w : SnapshotWire, w.Fits → fromStr.snapshot w.toString = some w

namespace PackedStatusSnapshot

-- `none` is a panic.
def activatedThroughStatusId (snapshot : PackedStatusSnapshot) : Option Nat :=
  if snapshot.nextStatusId = 0 ∨ snapshot.nextStatusId - 1 > U32_MAX then none
  else some (snapshot.nextStatusId - 1)

def chunkFromWire (chunk : SnapshotChunkWire) :
    Except PackedStatusSnapshotError PackedStatusSnapshotChunk := do
  let value ← chunkFromHex chunk.value
  pure ⟨chunk.index, value⟩

-- What `from_json` makes of the record it has read.
def fromWire (wire : SnapshotWire) : Except PackedStatusSnapshotError PackedStatusSnapshot :=
  if wire.schema ≠ PACKED_STATUS_SNAPSHOT_SCHEMA then .error .InvalidSnapshotEncoding
  else do
    let chainId ← asSnapshot (parseCanonicalU64 wire.chainId)
    let issuanceRegistry ← asSnapshot (bytesFromHex 160 wire.issuanceRegistry)
    let issuerKeyId ← asSnapshot (bytesFromHex 256 wire.issuerKeyId)
    let number ← asSnapshot (parseCanonicalU64 wire.sourceBlockNumber)
    let hash ← asSnapshot (bytesFromHex 256 wire.sourceBlockHash)
    let parentHash ← asSnapshot (bytesFromHex 256 wire.sourceBlockParentHash)
    let root ← fieldFromHex wire.root
    let chunks ← wire.chunks.mapM chunkFromWire
    let snapshot : PackedStatusSnapshot :=
      { schema := PACKED_STATUS_SNAPSHOT_SCHEMA
        chainId := chainId
        issuanceRegistry := issuanceRegistry
        issuerKeyId := issuerKeyId
        source := ⟨number, hash, parentHash⟩
        nextStatusId := wire.nextStatusId
        root := root
        chunks := chunks }
    validateSnapshot snapshot
    if some wire.activatedThroughStatusId ≠ snapshot.activatedThroughStatusId then
      .error .InvalidSnapshotEncoding
    else pure snapshot

def fromJson (fromStr : FromStr) (json : String) :
    Except PackedStatusSnapshotError PackedStatusSnapshot :=
  match fromStr.snapshot json with
  | none => .error .InvalidSnapshotEncoding
  | some wire => fromWire wire

def chunkToWire (chunk : PackedStatusSnapshotChunk) : SnapshotChunkWire :=
  ⟨chunk.index, chunkToHex chunk.value⟩

def toWire (snapshot : PackedStatusSnapshot) : Option SnapshotWire :=
  snapshot.activatedThroughStatusId.map fun activated =>
    { schema := snapshot.schema
      chainId := snapshot.chainId.repr
      issuanceRegistry := bytesToHex snapshot.issuanceRegistry
      issuerKeyId := bytesToHex snapshot.issuerKeyId
      sourceBlockNumber := snapshot.source.number.repr
      sourceBlockHash := bytesToHex snapshot.source.hash
      sourceBlockParentHash := bytesToHex snapshot.source.parentHash
      nextStatusId := snapshot.nextStatusId
      activatedThroughStatusId := activated
      root := fieldToHex snapshot.root
      chunks := snapshot.chunks.map chunkToWire }

-- The record is always serializable.
def toJson (snapshot : PackedStatusSnapshot) : Option String :=
  snapshot.toWire.map SnapshotWire.toString

end PackedStatusSnapshot

structure ParsedSource where
  chainId : Nat
  issuanceRegistry : Address
  issuerKeyId : Hash
  anchor : SourceBlockRef
  blocks : List FinalizedStatusBlock

def parseBlockRef (wire : BlockRefWire) : Except PackedStatusSnapshotError SourceBlockRef := do
  let number ← parseCanonicalU64 wire.number
  let hash ← bytesFromHex 256 wire.hash
  let parentHash ← bytesFromHex 256 wire.parentHash
  pure ⟨number, hash, parentHash⟩

def parseEvent (event : EventWire) :
    Except PackedStatusSnapshotError PackedStatusSourceEvent := do
  let issuerKeyId ← bytesFromHex 256 event.issuerKeyId
  if event.kind = "credential-allocated" then
    match event.authorizationReference with
    | none => pure (.CredentialAllocated event.logIndex issuerKeyId event.statusId)
    | some _ => .error .InvalidSourceEncoding
  else if event.kind = "credential-revoked" then
    match event.authorizationReference with
    | some reference =>
      let reference ← bytesFromHex 256 reference
      pure (.CredentialRevoked event.logIndex issuerKeyId event.statusId reference)
    | none => .error .InvalidSourceEncoding
  else .error .InvalidSourceEncoding

def BlockWire.ref (block : BlockWire) : BlockRefWire :=
  ⟨block.number, block.hash, block.parentHash⟩

def parseBlock (block : BlockWire) : Except PackedStatusSnapshotError FinalizedStatusBlock := do
  let source ← parseBlockRef block.ref
  let events ← block.events.mapM parseEvent
  pure ⟨source, events⟩

-- What `parse_source_json` makes of the record it has read.
def parseSource (wire : SourceWire) : Except PackedStatusSnapshotError ParsedSource :=
  if wire.schema ≠ PACKED_STATUS_SOURCE_SCHEMA then .error .InvalidSourceEncoding
  else do
    let chainId ← parseCanonicalU64 wire.chainId
    let issuanceRegistry ← bytesFromHex 160 wire.issuanceRegistry
    let issuerKeyId ← bytesFromHex 256 wire.issuerKeyId
    let anchor ← parseBlockRef wire.anchor
    let blocks ← wire.blocks.mapM parseBlock
    pure ⟨chainId, issuanceRegistry, issuerKeyId, anchor, blocks⟩

def parseSourceJson (fromStr : FromStr) (json : String) :
    Except PackedStatusSnapshotError ParsedSource :=
  match fromStr.source json with
  | none => .error .InvalidSourceEncoding
  | some wire => parseSource wire

def applySourceBlocks (poseidon : Poseidon) :
    PackedStatusSnapshotBuilder → List FinalizedStatusBlock →
      Except PackedStatusSnapshotError PackedStatusSnapshotBuilder
  | b, [] => .ok b
  | b, block :: blocks =>
    match b.applyFinalizedBlock poseidon block with
    | (.ok (), b') => applySourceBlocks poseidon b' blocks
    | (.error error, _) => .error error

-- The text of a builder, or the panic of its serialization.
def writeResult (poseidon : Poseidon) :
    Except PackedStatusSnapshotError PackedStatusSnapshotBuilder →
      Option (Except PackedStatusSnapshotError String)
  | .error error => some (.error error)
  | .ok b => (b.snapshot poseidon).toJson.map .ok

def buildPackedStatusSnapshotFromJson (poseidon : Poseidon) (fromStr : FromStr) (json : String) :
    Option (Except PackedStatusSnapshotError String) :=
  writeResult poseidon do
    let source ← parseSourceJson fromStr json
    let builder ← new source.chainId source.issuanceRegistry source.issuerKeyId source.anchor
    applySourceBlocks poseidon builder source.blocks

def advancePackedStatusSnapshotFromJson (poseidon : Poseidon) (fromStr : FromStr)
    (checkpointJson sourceJson : String) : Option (Except PackedStatusSnapshotError String) :=
  writeResult poseidon do
    let checkpoint ← PackedStatusSnapshot.fromJson fromStr checkpointJson
    let source ← parseSourceJson fromStr sourceJson
    if source.chainId ≠ checkpoint.chainId ∨
        source.issuanceRegistry ≠ checkpoint.issuanceRegistry ∨
        source.issuerKeyId ≠ checkpoint.issuerKeyId ∨ source.anchor ≠ checkpoint.source then
      .error .CheckpointSourceMismatch
    else do
      let builder ← restore poseidon checkpoint
      applySourceBlocks poseidon builder source.blocks

section

namespace PackedStatusSnapshot

private theorem chunksFromWire_iff {w : List SnapshotChunkWire}
    {chunks : List PackedStatusSnapshotChunk} :
    w.mapM chunkFromWire = .ok chunks ↔ w = chunks.map chunkToWire := by
  have hchunk : ∀ (c : SnapshotChunkWire) (d : PackedStatusSnapshotChunk),
      chunkFromWire c = .ok d ↔ c = chunkToWire d := by
    intro c d
    obtain ⟨index, value⟩ := c
    obtain ⟨index', value'⟩ := d
    simp only [chunkFromWire, chunkToWire, bind_eq_ok, pure_eq_ok, chunkFromHex_iff,
      SnapshotChunkWire.mk.injEq, PackedStatusSnapshotChunk.mk.injEq]
    constructor
    · rintro ⟨v, hv, hi, rfl⟩
      exact ⟨hi, hv⟩
    · rintro ⟨hi, hv⟩
      exact ⟨value', hv, hi, rfl⟩
  rw [mapM_eq_ok]
  simp only [hchunk]
  rw [← List.forall₂_map_right_iff (f := chunkToWire), List.forall₂_eq_eq_eq]

-- A record is accepted when it is the one that an accepted snapshot is written to.
theorem fromWire_iff {wire : SnapshotWire} {snapshot : PackedStatusSnapshot} :
    fromWire wire = .ok snapshot ↔
      SnapshotOk snapshot ∧ snapshot.chainId ≤ U64_MAX ∧ snapshot.source.number ≤ U64_MAX ∧
        snapshot.toWire = some wire := by
  have hbytes : ∀ (s : String) (x : Hash),
      bytesFromHex 256 s = .ok x ↔ s = bytesToHex x := fun s x => bytesFromHex_iff (by decide)
  have haddress : ∀ (s : String) (x : Address),
      bytesFromHex 160 s = .ok x ↔ s = bytesToHex x := fun s x => bytesFromHex_iff (by decide)
  simp only [fromWire, check_eq_ok, bind_eq_ok, pure_eq_ok, asSnapshot_eq_ok,
    parseCanonicalU64_iff, hbytes, haddress, fieldFromHex_iff, chunksFromWire_iff]
  constructor
  · rintro ⟨hschema, chainId, ⟨hchain, hc⟩, registry, hr, issuer, hi, number, ⟨hnumber, hn⟩, hash,
      hh, parent, hp, root, hroot, chunks, hchunks, u, hvalid, hactivated, rfl⟩
    have hok := validateSnapshot_iff.mp hvalid
    refine ⟨hok, hchain, hnumber, ?_⟩
    rw [toWire, ← not_not.mp hactivated, Option.map_some]
    obtain ⟨schema, chainId', registry', issuer', number', hash', parent', next, activated, root',
      chunks'⟩ := wire
    simp only at hschema hc hr hi hn hh hp hroot hchunks
    rw [hc, hr, hi, hn, hh, hp, hroot, hchunks, not_not.mp hschema]
  · rintro ⟨hok, hchain, hnumber, hwire⟩
    rw [toWire] at hwire
    obtain ⟨activated, hactivated, rfl⟩ := Option.map_eq_some_iff.mp hwire
    refine ⟨not_not.mpr hok.schema, snapshot.chainId, ⟨hchain, rfl⟩, snapshot.issuanceRegistry, rfl,
      snapshot.issuerKeyId, rfl, snapshot.source.number, ⟨hnumber, rfl⟩, snapshot.source.hash, rfl,
      snapshot.source.parentHash, rfl, snapshot.root, rfl, snapshot.chunks, rfl, (), ?_⟩
    have heq : (⟨PACKED_STATUS_SNAPSHOT_SCHEMA, snapshot.chainId, snapshot.issuanceRegistry,
        snapshot.issuerKeyId, ⟨snapshot.source.number, snapshot.source.hash,
        snapshot.source.parentHash⟩, snapshot.nextStatusId, snapshot.root,
        snapshot.chunks⟩ : PackedStatusSnapshot) = snapshot := by
      rw [← hok.schema]
    rw [heq]
    exact ⟨validateSnapshot_iff.mpr hok, not_not.mpr hactivated.symm, rfl⟩

end PackedStatusSnapshot

end

end Ubi2.StatusSnapshot
