import Ubi2.StatusSnapshot.Document

namespace Ubi2.StatusSnapshot

open Ubi2.Runtime Ubi2.Lib Ubi2.Lib.Except Sdk

-- What the SDK checks of a chunk below the last allocated id.
structure ChunkAccepted (lastChunk lastBit : Nat) (chunk : SnapshotChunkWire) : Prop where
  max : chunk.index ≤ Sdk.MAX_CHUNK_INDEX
  last : chunk.index ≤ lastChunk
  bytes : IsBytes32 chunk.value
  stored : chunk.value ≠ FAIL_CLOSED_CHUNK
  zero : chunk.index = 0 → bigIntOfHex chunk.value &&& 1 ≠ 0
  tail : chunk.index = lastChunk →
    bigIntOfHex chunk.value &&& requiredFailClosed lastBit = requiredFailClosed lastBit

-- The snapshots that the SDK's parser gives.
structure Accepted (w : SnapshotWire) : Prop where
  schema : w.schema = ZK_IDENTITY_STATUS_SNAPSHOT_SCHEMA
  chainId : ∃ n, n ≠ 0 ∧ n ≤ U64_MAX ∧ w.chainId = n.repr
  issuanceRegistry : ∃ x : Address, x ≠ ZERO_ADDRESS ∧ w.issuanceRegistry = bytesToHex x
  issuerKeyId : IsBytes32 w.issuerKeyId ∧ bigIntOfHex w.issuerKeyId ≠ 0
  sourceBlockNumber : ∃ n ≤ U64_MAX, w.sourceBlockNumber = n.repr
  sourceBlockHash : IsBytes32 w.sourceBlockHash ∧ bigIntOfHex w.sourceBlockHash ≠ 0
  sourceBlockParentHash : IsBytes32 w.sourceBlockParentHash
  nextPos : 0 < w.nextStatusId
  nextBound : w.nextStatusId ≤ ZK_IDENTITY_MAX_NEXT_STATUS_ID
  activated : w.activatedThroughStatusId = w.nextStatusId - 1
  root : IsBytes32 w.root ∧ bigIntOfHex w.root ≠ 0 ∧ bigIntOfHex w.root < BN254_SCALAR_FIELD
  chunks : ∀ chunk ∈ w.chunks,
    ChunkAccepted ((w.nextStatusId - 1) >>> 8) ((w.nextStatusId - 1) &&& 0xff) chunk
  sorted : w.chunks.Pairwise fun c d => c.index < d.index
  empty : w.nextStatusId = 1 → w.chunks = []

def SnapshotChunkWire.document (w : SnapshotChunkWire) : JsValue :=
  .obj [("index", .integer w.index), ("value", .str w.value)]

-- The document of a snapshot.
def SnapshotWire.document (w : SnapshotWire) : JsValue :=
  .obj
    [("schema", .str w.schema), ("chainId", .str w.chainId),
      ("issuanceRegistry", .str w.issuanceRegistry), ("issuerKeyId", .str w.issuerKeyId),
      ("sourceBlockNumber", .str w.sourceBlockNumber),
      ("sourceBlockHash", .str w.sourceBlockHash),
      ("sourceBlockParentHash", .str w.sourceBlockParentHash),
      ("nextStatusId", .integer w.nextStatusId),
      ("activatedThroughStatusId", .integer w.activatedThroughStatusId), ("root", .str w.root),
      ("chunks", .arr (w.chunks.map SnapshotChunkWire.document))]

-- What `JSON.parse` makes of the text.
theorem ofJson_snapshot (w : SnapshotWire) : JsValue.ofJson w.json = w.document := by
  have hchunks : JsValue.ofItems (w.chunks.map SnapshotChunkWire.json) =
      w.chunks.map SnapshotChunkWire.document := by
    rw [ofItems_eq, List.map_map]
    rfl
  rw [SnapshotWire.json, JsValue.ofJson, SnapshotWire.document, ← hchunks]
  rfl

theorem Accepted.exact {w : SnapshotWire} (h : Accepted w) : exact w.json = true := by
  have hnames : ∀ fields : List (String × Json), fields.map Prod.fst = snapshotKeys →
      plainNames (fields.map Prod.fst) = true := by
    intro fields hfields
    rw [hfields]
    decide
  have hnext := h.nextBound
  have hchunks : exactItems (w.chunks.map SnapshotChunkWire.json) = true := by
    refine (exactItems_iff _).mpr (List.forall_mem_map.mpr ?_)
    intro chunk hchunk
    have hmax := (h.chunks chunk hchunk).max
    have hindex : chunk.index ≤ 9007199254740991 := by
      rw [Sdk.MAX_CHUNK_INDEX] at hmax
      omega
    simp [SnapshotChunkWire.json, Sdk.exact, exactFields, plainNames, hindex]
  rw [ZK_IDENTITY_MAX_NEXT_STATUS_ID] at hnext
  have hactivated := h.activated
  have hsmall : w.nextStatusId ≤ 9007199254740991 := by omega
  have hsmall' : w.activatedThroughStatusId ≤ 9007199254740991 := by omega
  rw [SnapshotWire.json, Sdk.exact, hnames _ rfl]
  simp [exactFields, Sdk.exact, hchunks, hsmall, hsmall']

theorem safeInteger_eq_some {v : JsValue} {n : Int} :
    v.safeInteger = some n ↔ v = .integer n ∧ -MAX_SAFE_INTEGER ≤ n ∧ n ≤ MAX_SAFE_INTEGER := by
  rw [JsValue.safeInteger.eq_def]
  split
  · rename_i m
    simp only [Option.ite_none_right_eq_some, Option.some.injEq, JsValue.integer.injEq]
    constructor
    · rintro ⟨h, rfl⟩
      exact ⟨rfl, h⟩
    · rintro ⟨rfl, h⟩
      exact ⟨h, rfl⟩
  · rename_i hno
    constructor
    · intro h
      cases h
    · rintro ⟨rfl, -⟩
      exact absurd rfl (hno n)

theorem positiveSafeInteger_ok {v : JsValue} {label : String} {n : Nat} :
    positiveSafeInteger v label = .ok n ↔
      v = .integer n ∧ 0 < n ∧ (n : Int) ≤ MAX_SAFE_INTEGER := by
  rw [positiveSafeInteger]
  cases hsafe : v.safeInteger with
  | none =>
    constructor
    · intro h
      cases h
    · rintro ⟨rfl, hpos, hmax⟩
      rw [JsValue.safeInteger, if_pos] at hsafe
      · cases hsafe
      · rw [MAX_SAFE_INTEGER] at hmax ⊢
        omega
  | some m =>
    obtain ⟨rfl, hmin, hmax⟩ := safeInteger_eq_some.mp hsafe
    simp only [check_eq_ok, Except.ok.injEq, JsValue.integer.injEq]
    constructor
    · rintro ⟨hpos, rfl⟩
      omega
    · rintro ⟨rfl, hpos, -⟩
      omega

theorem chunkIndex_ok {v : JsValue} {previous : Int} {lastChunk n : Nat}
    (hlast : (lastChunk : Int) ≤ MAX_SAFE_INTEGER) :
    chunkIndex v previous lastChunk = .ok n ↔
      v = .integer n ∧ n ≤ Sdk.MAX_CHUNK_INDEX ∧ previous < n ∧ n ≤ lastChunk := by
  rw [chunkIndex]
  cases hsafe : v.safeInteger with
  | none =>
    constructor
    · intro h
      cases h
    · rintro ⟨rfl, -, -, hle⟩
      have hsome : (JsValue.integer n).safeInteger = some (n : Int) := by
        rw [MAX_SAFE_INTEGER] at hlast
        rw [safeInteger_eq_some, MAX_SAFE_INTEGER]
        exact ⟨rfl, by omega, by omega⟩
      rw [hsome] at hsafe
      cases hsafe
  | some m =>
    obtain ⟨rfl, hmin, hmax⟩ := safeInteger_eq_some.mp hsafe
    simp only [check_eq_ok, Except.ok.injEq, JsValue.integer.injEq]
    constructor
    · rintro ⟨hpos, rfl⟩
      omega
    · rintro ⟨rfl, hmaxIndex, hprevious, hle⟩
      omega

theorem object_ok {v : JsValue} {label : String} {fields : Fields} :
    object v label = .ok fields ↔ v = .obj fields := by
  cases v <;> simp [object]

-- A record written with its own keys has exactly these.
theorem exactKeys_self {value : Fields} {expected : List String} (label : String)
    (h : value.map Prod.fst = expected) : exactKeys value expected label = .ok () := by
  rw [exactKeys, if_neg (not_not.mpr (congrArg sortKeys h))]

theorem parseChunk_ok {viem : Viem} {v : JsValue} {previous : Int} {lastChunk lastBit : Nat}
    {chunk : SnapshotChunkWire} (hlast : (lastChunk : Int) ≤ MAX_SAFE_INTEGER)
    (h : parseChunk viem previous lastChunk lastBit v = .ok chunk) :
    ChunkAccepted lastChunk lastBit chunk ∧ previous < chunk.index := by
  simp only [parseChunk, bind_eq_ok, check_eq_ok, chunkIndex_ok hlast] at h
  obtain ⟨fields, -, _, -, index, ⟨-, hmax, hprevious, hle⟩, value, hvalue, hstored, hzero, htail,
    hchunk⟩ := h
  cases hchunk
  refine ⟨⟨hmax, hle, (canonicalBytes32_ok hvalue).1, hstored, ?_, ?_⟩, hprevious⟩
  · exact fun hindex hbit => hzero ⟨hindex, hbit⟩
  · exact fun hindex => not_not.mp fun hbits => htail ⟨hindex, hbits⟩

theorem parseChunk_document {viem : Viem} {previous : Int} {lastChunk lastBit : Nat}
    {chunk : SnapshotChunkWire} (hlast : (lastChunk : Int) ≤ MAX_SAFE_INTEGER)
    (h : ChunkAccepted lastChunk lastBit chunk) (hprevious : previous < chunk.index) :
    parseChunk viem previous lastChunk lastBit chunk.document = .ok chunk := by
  obtain ⟨index, value⟩ := chunk
  simp only [parseChunk, bind_eq_ok, check_eq_ok, chunkIndex_ok hlast]
  refine ⟨_, rfl, (), exactKeys_self _ rfl, index, ⟨rfl, h.max, hprevious, h.last⟩, value,
    canonicalBytes32_str h.bytes nofun, h.stored, ?_, ?_, rfl⟩
  · exact fun hc => h.zero hc.1 hc.2
  · exact fun hc => hc.2 (h.tail hc.1)

theorem parseChunks_ok {viem : Viem} {vs : List JsValue} {previous : Int} {lastChunk lastBit : Nat}
    {chunks : List SnapshotChunkWire} (hlast : (lastChunk : Int) ≤ MAX_SAFE_INTEGER)
    (h : parseChunks viem lastChunk lastBit previous vs = .ok chunks) :
    (∀ chunk ∈ chunks, ChunkAccepted lastChunk lastBit chunk ∧ previous < chunk.index) ∧
      chunks.Pairwise fun c d => c.index < d.index := by
  induction vs generalizing previous chunks with
  | nil =>
    cases h
    exact ⟨nofun, .nil⟩
  | cons v vs ih =>
    simp only [parseChunks, bind_eq_ok] at h
    obtain ⟨chunk, hchunk, rest, hrest, heq⟩ := h
    cases heq
    obtain ⟨haccepted, hprevious⟩ := parseChunk_ok hlast hchunk
    obtain ⟨hall, hsorted⟩ := ih hrest
    refine ⟨?_, List.pairwise_cons.mpr ⟨fun c hc => by have := (hall c hc).2; omega, hsorted⟩⟩
    intro c hc
    rcases List.mem_cons.mp hc with rfl | hc
    · exact ⟨haccepted, hprevious⟩
    · exact ⟨(hall c hc).1, by have := (hall c hc).2; omega⟩

theorem parseChunks_document {viem : Viem} {previous : Int} {lastChunk lastBit : Nat}
    {chunks : List SnapshotChunkWire} (hlast : (lastChunk : Int) ≤ MAX_SAFE_INTEGER)
    (h : ∀ chunk ∈ chunks, ChunkAccepted lastChunk lastBit chunk ∧ previous < chunk.index)
    (hsorted : chunks.Pairwise fun c d => c.index < d.index) :
    parseChunks viem lastChunk lastBit previous (chunks.map SnapshotChunkWire.document) =
      .ok chunks := by
  induction chunks generalizing previous with
  | nil => rfl
  | cons chunk chunks ih =>
    obtain ⟨hfirst, hrest⟩ := List.pairwise_cons.mp hsorted
    obtain ⟨haccepted, hprevious⟩ := h chunk List.mem_cons_self
    simp only [List.map_cons, parseChunks, bind_eq_ok]
    refine ⟨chunk, parseChunk_document hlast haccepted hprevious, chunks, ih ?_ hrest, rfl⟩
    intro c hc
    have hlt := hfirst c hc
    exact ⟨(h c (List.mem_cons_of_mem _ hc)).1, by omega⟩

theorem lastChunk_safe {next : Nat} (h : next ≤ ZK_IDENTITY_MAX_NEXT_STATUS_ID) :
    (((next - 1) >>> 8 : Nat) : Int) ≤ MAX_SAFE_INTEGER := by
  rw [ZK_IDENTITY_MAX_NEXT_STATUS_ID] at h
  rw [MAX_SAFE_INTEGER, Nat.shiftRight_eq_div_pow]
  omega

theorem isBytes32_nonzero {viem : Viem} {v : JsValue} {label t : String}
    (h : canonicalBytes32 viem v label true = .ok t) : IsBytes32 t ∧ bigIntOfHex t ≠ 0 :=
  ⟨(canonicalBytes32_ok h).1, (canonicalBytes32_ok h).2 rfl⟩

theorem parse_ok {viem : Viem} {v : JsValue} {w : SnapshotWire}
    (h : parseZkIdentityPackedStatusSnapshot viem v = .ok w) : Accepted w := by
  simp only [parseZkIdentityPackedStatusSnapshot, bind_eq_ok] at h
  obtain ⟨fields, -, _, -, h⟩ := h
  split at h
  · rename_i schema _
    simp only [check_eq_ok, bind_eq_ok, not_not] at h
    obtain ⟨rfl, chainId, hchain, hchainZero, registry, hregistry, issuer, hissuer, number, hnumber,
      hash, hhash, parent, hparent, next, hnext, hbound, hactivated, root, hroot, hfield, untrusted,
      huntrusted, chunks, hchunks, hempty, hw⟩ := h
    cases hw
    obtain ⟨n, hn, hchainText⟩ := canonicalDecimal_ok hchain
    have hnextOk := positiveSafeInteger_ok.mp hnext
    have hnextBound : next ≤ ZK_IDENTITY_MAX_NEXT_STATUS_ID := Nat.not_lt.mp hbound
    obtain ⟨hall, hsorted⟩ := parseChunks_ok (lastChunk_safe hnextBound) hchunks
    refine
      { schema := rfl
        chainId := ⟨n, ?_, hn, hchainText⟩
        issuanceRegistry := canonicalAddress_ok hregistry
        issuerKeyId := isBytes32_nonzero hissuer
        sourceBlockNumber := canonicalDecimal_ok hnumber
        sourceBlockHash := isBytes32_nonzero hhash
        sourceBlockParentHash := (canonicalBytes32_ok hparent).1
        nextPos := hnextOk.2.1
        nextBound := hnextBound
        activated := rfl
        root := ⟨(isBytes32_nonzero hroot).1, (isBytes32_nonzero hroot).2, Nat.not_le.mp hfield⟩
        chunks := fun chunk hchunk => (hall chunk hchunk).1
        sorted := hsorted
        empty := ?_ }
    · intro hzero
      rw [hchainText, bigInt_repr] at hchainZero
      exact hchainZero hzero
    · intro hone
      by_contra hne
      exact hempty ⟨hone, fun hlength => hne (List.length_eq_zero_iff.mp hlength)⟩
  · cases h

-- A snapshot that the parser gave is given again for its document.
theorem parse_document {viem : Viem} {w : SnapshotWire} (h : Accepted w) :
    parseZkIdentityPackedStatusSnapshot viem w.document = .ok w := by
  have hsafe := lastChunk_safe h.nextBound
  have hbound := h.nextBound
  have hpos := h.nextPos
  obtain ⟨chain, hchainZero, hchain, hchainText⟩ := h.chainId
  obtain ⟨registry, hregistry, hregistryText⟩ := h.issuanceRegistry
  obtain ⟨number, hnumber, hnumberText⟩ := h.sourceBlockNumber
  have hnext : positiveSafeInteger (.integer w.nextStatusId) "packed-status next status id" =
      .ok w.nextStatusId := by
    rw [ZK_IDENTITY_MAX_NEXT_STATUS_ID] at hbound
    refine positiveSafeInteger_ok.mpr ⟨rfl, hpos, ?_⟩
    rw [MAX_SAFE_INTEGER]
    omega
  have hactivated : (JsValue.integer w.activatedThroughStatusId).safeInteger =
      some ((w.nextStatusId - 1 : Nat) : Int) := by
    rw [ZK_IDENTITY_MAX_NEXT_STATUS_ID] at hbound
    rw [h.activated, safeInteger_eq_some, MAX_SAFE_INTEGER]
    exact ⟨rfl, by omega, by omega⟩
  have hchunks : parseChunks viem ((w.nextStatusId - 1) >>> 8) ((w.nextStatusId - 1) &&& 0xff) (-1)
      (w.chunks.map SnapshotChunkWire.document) = .ok w.chunks :=
    parseChunks_document hsafe (fun c hc => ⟨h.chunks c hc, by omega⟩) h.sorted
  simp only [parseZkIdentityPackedStatusSnapshot, bind_eq_ok]
  refine ⟨_, rfl, (), exactKeys_self _ rfl, ?_⟩
  show (if w.schema ≠ ZK_IDENTITY_STATUS_SNAPSHOT_SCHEMA then _ else _) = _
  simp only [check_eq_ok, bind_eq_ok]
  refine ⟨not_not.mpr h.schema, w.chainId, ?_, ?_, w.issuanceRegistry, ?_, w.issuerKeyId,
    canonicalBytes32_str h.issuerKeyId.1 (fun _ => h.issuerKeyId.2), w.sourceBlockNumber, ?_,
    w.sourceBlockHash, canonicalBytes32_str h.sourceBlockHash.1 (fun _ => h.sourceBlockHash.2),
    w.sourceBlockParentHash, canonicalBytes32_str h.sourceBlockParentHash nofun, w.nextStatusId,
    hnext, Nat.not_lt.mpr hbound, not_not.mpr hactivated, w.root,
    canonicalBytes32_str h.root.1 (fun _ => h.root.2.1), Nat.not_le.mpr h.root.2.2, _, rfl, w.chunks,
    hchunks, ?_, ?_⟩
  · show canonicalDecimal (.str w.chainId) _ = _
    rw [hchainText]
    exact canonicalDecimal_str _ hchain
  · rw [hchainText, bigInt_repr]
    exact hchainZero
  · show canonicalAddress viem (.str w.issuanceRegistry) _ = _
    rw [hregistryText]
    exact canonicalAddress_str viem _ hregistry
  · show canonicalDecimal (.str w.sourceBlockNumber) _ = _
    rw [hnumberText]
    exact canonicalDecimal_str _ hnumber
  · rintro ⟨hone, hlength⟩
    rw [h.empty hone] at hlength
    exact hlength rfl
  · rw [← h.schema, ← h.activated]

end Ubi2.StatusSnapshot
