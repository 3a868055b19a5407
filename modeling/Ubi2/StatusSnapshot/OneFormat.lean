import Ubi2.StatusSnapshot.Attestation
import Ubi2.StatusSnapshot.Advance

namespace Ubi2.StatusSnapshot

open Ubi2.Runtime Ubi2.Lib Ubi2.Lib.Except Sdk PackedStatusSnapshotBuilder

variable {viem : Viem} {json : JSON} {poseidon : Poseidon} {fromStr : FromStr}

-- The number that a chunk is written as, whose bits are those of the chunk.
def PackedStatusChunk.word (chunk : PackedStatusChunk) : Hash := chunk.high ++ chunk.low

theorem testBit_word (chunk : PackedStatusChunk) (bit : Nat) :
    chunk.word.toNat.testBit bit = chunk.isRevokedOrUnallocated bit := by
  rw [BitVec.testBit_toNat, PackedStatusChunk.word, PackedStatusChunk.isRevokedOrUnallocated_eq,
    BitVec.getLsbD_append]

theorem chunkToHex_word (chunk : PackedStatusChunk) : chunkToHex chunk = bytesToHex chunk.word :=
  chunkToHex_eq chunk

theorem word_FAIL_CLOSED : PackedStatusChunk.FAIL_CLOSED.word = BitVec.allOnes 256 := by
  decide +kernel

theorem bytesToHex_allOnes : bytesToHex (BitVec.allOnes 256) = FAIL_CLOSED_CHUNK := by
  decide +kernel

theorem word_injective {c d : PackedStatusChunk} (h : c.word = d.word) : c = d := by
  refine PackedStatusChunk.ext_bits fun bit _ => ?_
  rw [← testBit_word c bit, h, testBit_word d bit]

theorem chunkToHex_FAIL_CLOSED {chunk : PackedStatusChunk} :
    chunkToHex chunk = FAIL_CLOSED_CHUNK ↔ chunk = PackedStatusChunk.FAIL_CLOSED := by
  rw [chunkToHex_word, ← bytesToHex_allOnes, ← word_FAIL_CLOSED]
  constructor
  · exact fun h => word_injective (bytesToHex_injective (by decide) h)
  · rintro rfl
    rfl

-- A number has all bits of a mask when they are set in it.
theorem and_eq_right_iff {n mask : Nat} :
    n &&& mask = mask ↔ ∀ i, mask.testBit i = true → n.testBit i = true := by
  constructor
  · intro h i hi
    have hbit := congrArg (fun m => m.testBit i) h
    simp only [Nat.testBit_and, hi, Bool.and_true] at hbit
    exact hbit
  · intro h
    refine Nat.eq_of_testBit_eq fun i => ?_
    rw [Nat.testBit_and]
    cases hi : mask.testBit i with
    | false => rw [Bool.and_false]
    | true => rw [h i hi, Bool.and_true]

theorem bigInt_FAIL_CLOSED : bigIntOfHex FAIL_CLOSED_CHUNK = 2 ^ 256 - 1 := by
  rw [← bytesToHex_allOnes, bigInt_bytesToHex (by decide), BitVec.toNat_allOnes]

theorem testBit_requiredFailClosed {lastBit : Nat} (hlast : lastBit < 256) (i : Nat) :
    (requiredFailClosed lastBit).testBit i = decide (lastBit < i ∧ i < 256) := by
  rw [requiredFailClosed, bigInt_FAIL_CLOSED, Nat.testBit_xor, Nat.testBit_two_pow_sub_one,
    Nat.shiftLeft_eq, Nat.one_mul, Nat.testBit_two_pow_sub_one]
  by_cases hle : i < lastBit + 1
  · have hi : i < 256 := by omega
    have hno : ¬(lastBit < i ∧ i < 256) := by omega
    rw [decide_eq_true hle, decide_eq_true hi, decide_eq_false hno]
    rfl
  · have hiff : (lastBit < i ∧ i < 256) ↔ i < 256 := by omega
    rw [decide_eq_false hle, Bool.xor_false]
    exact decide_eq_decide.mpr hiff.symm

-- Both parsers make the same checks of a chunk.
theorem chunkAccepted_iff {chunk : PackedStatusSnapshotChunk} {lastChunk lastBit : Nat}
    (hlast : lastBit < 256) :
    ChunkAccepted lastChunk lastBit (PackedStatusSnapshot.chunkToWire chunk) ↔
      ChunkOk lastChunk lastBit chunk := by
  have hvalue : bigIntOfHex (chunkToHex chunk.value) = chunk.value.word.toNat := by
    rw [chunkToHex_word, bigInt_bytesToHex (by decide)]
  have hzero : chunk.value.word.toNat &&& 1 ≠ 0 ↔
      chunk.value.isRevokedOrUnallocated 0 = true := by
    rw [← testBit_word, Nat.and_one_is_mod, Nat.testBit_zero, decide_eq_true_iff]
    omega
  have htail : chunk.value.word.toNat &&& requiredFailClosed lastBit = requiredFailClosed lastBit ↔
      unallocatedTailIsFailClosed chunk.value lastBit = true := by
    rw [and_eq_right_iff, unallocatedTailIsFailClosed_iff hlast]
    constructor
    · intro h bit hbit hafter
      rw [← testBit_word]
      refine h bit ?_
      rw [testBit_requiredFailClosed hlast]
      exact decide_eq_true ⟨hafter, hbit⟩
    · intro h i hi
      rw [testBit_requiredFailClosed hlast, decide_eq_true_iff] at hi
      rw [testBit_word]
      exact h i hi.2 hi.1
  constructor
  · intro h
    have hz := h.zero
    have ht := h.tail
    simp only [PackedStatusSnapshot.chunkToWire, hvalue, hzero, htail] at hz ht
    exact ⟨h.max, fun heq => h.stored (chunkToHex_FAIL_CLOSED.mpr heq), h.last, hz, ht⟩
  · intro h
    refine ⟨h.bound, h.last, ?_, fun heq => h.stored (chunkToHex_FAIL_CLOSED.mp heq), ?_, ?_⟩
    · simp only [PackedStatusSnapshot.chunkToWire, chunkToHex_word]
      exact isBytes32_bytesToHex _
    · simp only [PackedStatusSnapshot.chunkToWire, hvalue, hzero]
      exact h.zero
    · simp only [PackedStatusSnapshot.chunkToWire, hvalue, htail]
      exact h.tail

-- All its words are written with their 64 digits.
structure SnapshotWire.FullWidth (w : SnapshotWire) : Prop where
  issuerKeyId : Padded w.issuerKeyId
  sourceBlockHash : Padded w.sourceBlockHash
  sourceBlockParentHash : Padded w.sourceBlockParentHash
  root : Padded w.root
  chunks : ∀ chunk ∈ w.chunks, Padded chunk.value

theorem fieldToHex_word (value : StatusField) :
    bigIntOfHex (fieldToHex value) = value.val := by
  have hlt : value.val < 2 ^ 256 := value.isLt.trans (by decide)
  rw [fieldToHex, bigInt_bytesToHex (by decide), BitVec.toNat_ofNat, Nat.mod_eq_of_lt hlt]

-- What the Rust parser accepts, the TypeScript one accepts.
theorem accepted_toWire {snapshot : PackedStatusSnapshot} {w : SnapshotWire}
    (hok : SnapshotOk snapshot) (hchain : snapshot.chainId ≤ U64_MAX)
    (hnumber : snapshot.source.number ≤ U64_MAX) (hw : snapshot.toWire = some w) :
    Accepted w ∧ w.FullWidth := by
  obtain ⟨activated, hactivated, rfl⟩ := Option.map_eq_some_iff.mp hw
  have hpos := hok.nextPos
  have hlast : (snapshot.nextStatusId - 1) &&& 0xff < 256 := bit_lt _
  have heq : activated = snapshot.nextStatusId - 1 := by
    rw [PackedStatusSnapshot.activatedThroughStatusId] at hactivated
    simp only [Option.ite_none_left_eq_some, Option.some.injEq] at hactivated
    exact hactivated.2.symm
  refine ⟨?_, ?_⟩
  · refine
      { schema := hok.schema
        chainId := ⟨snapshot.chainId, hok.chainId, hchain, rfl⟩
        issuanceRegistry := ⟨_, hok.issuanceRegistry, rfl⟩
        issuerKeyId := ⟨isBytes32_bytesToHex _, bytesToHex_ne_zero.mpr hok.issuerKeyId⟩
        sourceBlockNumber := ⟨_, hnumber, rfl⟩
        sourceBlockHash := ⟨isBytes32_bytesToHex _, bytesToHex_ne_zero.mpr hok.source⟩
        sourceBlockParentHash := isBytes32_bytesToHex _
        nextPos := Nat.pos_of_ne_zero hpos
        nextBound := hok.nextBound
        activated := heq
        root := ⟨isBytes32_bytesToHex _, ?_, ?_⟩
        chunks := ?_
        sorted := List.pairwise_map.mpr hok.sorted
        empty := ?_ }
    · rw [fieldToHex_word]
      exact fun hzero => hok.root (Fin.ext hzero)
    · rw [fieldToHex_word]
      exact snapshot.root.isLt
    · intro chunk hchunk
      obtain ⟨c, hc, rfl⟩ := List.mem_map.mp hchunk
      exact (chunkAccepted_iff hlast).mpr (hok.chunks c hc)
    · intro hone
      rw [hok.empty hone]
      rfl
  · refine ⟨padded_bytesToHex _, padded_bytesToHex _, padded_bytesToHex _, padded_bytesToHex _, ?_⟩
    intro chunk hchunk
    obtain ⟨c, hc, rfl⟩ := List.mem_map.mp hchunk
    rw [PackedStatusSnapshot.chunkToWire, chunkToHex_word]
    exact padded_bytesToHex _

-- A record whose words have all their digits is one that Rust writes.
def chunkOfWire (chunk : SnapshotChunkWire) : PackedStatusSnapshotChunk :=
  let bytes := wordOf chunk.value
  ⟨chunk.index, ⟨bytes.setWidth 128, bytes.extractLsb' 128 128⟩⟩

def snapshotOfWire (w : SnapshotWire) : PackedStatusSnapshot where
  schema := PACKED_STATUS_SNAPSHOT_SCHEMA
  chainId := bigIntOfDecimal w.chainId
  issuanceRegistry := BitVec.ofNat 160 (bigIntOfHex w.issuanceRegistry)
  issuerKeyId := wordOf w.issuerKeyId
  source := ⟨bigIntOfDecimal w.sourceBlockNumber, wordOf w.sourceBlockHash,
    wordOf w.sourceBlockParentHash⟩
  nextStatusId := w.nextStatusId
  root := Fin.ofNat BN254_FR (bigIntOfHex w.root)
  chunks := w.chunks.map chunkOfWire

theorem chunkToWire_chunkOfWire {chunk : SnapshotChunkWire} (hbytes : IsBytes32 chunk.value)
    (hpadded : Padded chunk.value) :
    PackedStatusSnapshot.chunkToWire (chunkOfWire chunk) = chunk := by
  have hvalue : chunkToHex (chunkOfWire chunk).value = chunk.value := by
    refine (chunkFromHex_iff.mp ?_).symm
    rw [chunkFromHex, asSnapshot_eq_ok.mpr ((bytesFromHex_iff (by decide)).mpr
      (hbytes.eq_bytesToHex hpadded))]
    rfl
  rw [PackedStatusSnapshot.chunkToWire, hvalue]
  rfl

theorem toWire_snapshotOfWire {w : SnapshotWire} (h : Accepted w) (hfull : w.FullWidth) :
    (snapshotOfWire w).toWire = some w := by
  obtain ⟨chain, -, -, hchain⟩ := h.chainId
  obtain ⟨number, -, hnumber⟩ := h.sourceBlockNumber
  obtain ⟨registry, -, hregistry⟩ := h.issuanceRegistry
  have hbound := h.nextBound
  have hpos := h.nextPos
  have hchunks : (snapshotOfWire w).chunks.map PackedStatusSnapshot.chunkToWire = w.chunks := by
    rw [snapshotOfWire, List.map_map]
    conv_rhs => rw [← List.map_id w.chunks]
    refine List.map_congr_left fun chunk hchunk => ?_
    exact chunkToWire_chunkOfWire (h.chunks chunk hchunk).bytes (hfull.chunks chunk hchunk)
  have hroot : fieldToHex (snapshotOfWire w).root = w.root := by
    have hlt := h.root.2.2
    have hval : (Fin.ofNat BN254_FR (bigIntOfHex w.root)).val = bigIntOfHex w.root :=
      Nat.mod_eq_of_lt hlt
    rw [fieldToHex, snapshotOfWire, hval, ← wordOf]
    exact (h.root.1.eq_bytesToHex hfull.root).symm
  have hactivated : (snapshotOfWire w).activatedThroughStatusId = some (w.nextStatusId - 1) := by
    have hnext : (snapshotOfWire w).nextStatusId = w.nextStatusId := rfl
    rw [ZK_IDENTITY_MAX_NEXT_STATUS_ID] at hbound
    rw [PackedStatusSnapshot.activatedThroughStatusId, hnext, U32_MAX, if_neg (by omega)]
  have hchainText : (snapshotOfWire w).chainId.repr = w.chainId := by
    rw [snapshotOfWire, hchain, bigInt_repr]
  have hnumberText : (snapshotOfWire w).source.number.repr = w.sourceBlockNumber := by
    rw [snapshotOfWire, hnumber, bigInt_repr]
  have hregistryText : bytesToHex (snapshotOfWire w).issuanceRegistry = w.issuanceRegistry := by
    rw [snapshotOfWire, hregistry, bigInt_bytesToHex (by decide), BitVec.ofNat_toNat,
      BitVec.setWidth_eq]
  have hissuer : bytesToHex (snapshotOfWire w).issuerKeyId = w.issuerKeyId :=
    (h.issuerKeyId.1.eq_bytesToHex hfull.issuerKeyId).symm
  have hhash : bytesToHex (snapshotOfWire w).source.hash = w.sourceBlockHash :=
    (h.sourceBlockHash.1.eq_bytesToHex hfull.sourceBlockHash).symm
  have hparent : bytesToHex (snapshotOfWire w).source.parentHash = w.sourceBlockParentHash :=
    (h.sourceBlockParentHash.eq_bytesToHex hfull.sourceBlockParentHash).symm
  rw [PackedStatusSnapshot.toWire, hactivated, Option.map_some, Option.some.injEq, hchunks, hroot,
    hchainText, hnumberText, hregistryText, hissuer, hhash, hparent, ← h.activated]
  show (⟨PACKED_STATUS_SNAPSHOT_SCHEMA, _, _, _, _, _, _, _, _, _, _⟩ : SnapshotWire) = w
  rw [show PACKED_STATUS_SNAPSHOT_SCHEMA = w.schema from h.schema.symm]
  rfl

-- The Rust parser accepts what the TypeScript one does when no word lacks a digit.
theorem fromWire_accepted_iff {w : SnapshotWire} (h : Accepted w) :
    (∃ snapshot, PackedStatusSnapshot.fromWire w = .ok snapshot) ↔ w.FullWidth := by
  constructor
  · rintro ⟨snapshot, hsnapshot⟩
    obtain ⟨hok, hchain, hnumber, hw⟩ := PackedStatusSnapshot.fromWire_iff.mp hsnapshot
    exact (accepted_toWire hok hchain hnumber hw).2
  · intro hfull
    obtain ⟨chain, hchainZero, hchainBound, hchain⟩ := h.chainId
    obtain ⟨number, hnumberBound, hnumber⟩ := h.sourceBlockNumber
    obtain ⟨registry, hregistryZero, hregistry⟩ := h.issuanceRegistry
    have hw := toWire_snapshotOfWire h hfull
    have hregistryWord : (snapshotOfWire w).issuanceRegistry = registry := by
      rw [snapshotOfWire, hregistry, bigInt_bytesToHex (by decide), BitVec.ofNat_toNat,
        BitVec.setWidth_eq]
    have hword : ∀ {t : String}, IsBytes32 t → Padded t → bigIntOfHex t ≠ 0 →
        wordOf t ≠ ZERO_HASH := by
      intro t hbytes hpadded hvalue
      rw [hbytes.eq_bytesToHex hpadded] at hvalue
      exact bytesToHex_ne_zero.mp hvalue
    refine ⟨snapshotOfWire w, PackedStatusSnapshot.fromWire_iff.mpr ⟨?_, ?_, ?_, hw⟩⟩
    · refine
        { schema := rfl
          chainId := ?_
          issuanceRegistry := hregistryWord ▸ hregistryZero
          issuerKeyId := hword h.issuerKeyId.1 hfull.issuerKeyId h.issuerKeyId.2
          source := hword h.sourceBlockHash.1 hfull.sourceBlockHash h.sourceBlockHash.2
          nextPos := Nat.pos_iff_ne_zero.mp h.nextPos
          nextBound := h.nextBound
          root := ?_
          empty := ?_
          chunks := ?_
          sorted := List.pairwise_map.mpr h.sorted }
      · rw [snapshotOfWire, hchain, bigInt_repr]
        exact hchainZero
      · intro hzero
        have hval : (Fin.ofNat BN254_FR (bigIntOfHex w.root)).val = bigIntOfHex w.root :=
          Nat.mod_eq_of_lt h.root.2.2
        have hroot : Fin.ofNat BN254_FR (bigIntOfHex w.root) = 0 := hzero
        rw [hroot] at hval
        exact h.root.2.1 hval.symm
      · intro hone
        rw [snapshotOfWire, h.empty hone]
        rfl
      · intro chunk hchunk
        obtain ⟨c, hc, rfl⟩ := List.mem_map.mp hchunk
        refine (chunkAccepted_iff (bit_lt _)).mp ?_
        rw [chunkToWire_chunkOfWire (h.chunks c hc).bytes (hfull.chunks c hc)]
        exact h.chunks c hc
    · rw [snapshotOfWire, hchain, bigInt_repr]
      exact hchainBound
    · rw [snapshotOfWire, hnumber, bigInt_repr]
      exact hnumberBound

-- The lengths of the words of a record, and of those of a document.
def SnapshotWire.widths (w : SnapshotWire) : List Nat :=
  [w.issuerKeyId, w.sourceBlockHash, w.sourceBlockParentHash, w.root].map
      (fun word => word.toList.length) ++
    w.chunks.map fun chunk => chunk.value.toList.length

def textLength : JsValue → Nat
  | .str s => s.toList.length
  | _ => 0

def chunkWidth : JsValue → Nat
  | .obj chunk => textLength (field chunk "value")
  | _ => 0

def chunkWidths : JsValue → List Nat
  | .arr items => items.map chunkWidth
  | _ => []

def widthsOf : JsValue → List Nat
  | .obj fields =>
    ["issuerKeyId", "sourceBlockHash", "sourceBlockParentHash", "root"].map
        (fun key => textLength (field fields key)) ++
      chunkWidths (field fields "chunks")
  | _ => []

theorem fullWidth_iff {w : SnapshotWire} : w.FullWidth ↔ ∀ n ∈ w.widths, n = 66 := by
  rw [SnapshotWire.widths, List.forall_mem_append, List.forall_mem_map, List.forall_mem_map]
  simp only [List.forall_mem_cons, List.not_mem_nil, false_imp_iff, implies_true, and_true]
  constructor
  · intro h
    exact ⟨⟨h.issuerKeyId, h.sourceBlockHash, h.sourceBlockParentHash, h.root⟩, h.chunks⟩
  · rintro ⟨⟨hissuer, hhash, hparent, hroot⟩, hchunks⟩
    exact ⟨hissuer, hhash, hparent, hroot, hchunks⟩

theorem textLength_bytes32 {v : JsValue} {label t : String} {nonZero : Bool}
    (h : canonicalBytes32 viem v label nonZero = .ok t) : textLength v = t.toList.length := by
  rw [canonicalBytes32.eq_def] at h
  split at h
  · simp only [check_eq_ok, Except.ok.injEq] at h
    rw [← h.2.2, toLowerCase, String.toList_ofList, List.length_map, textLength]
  · cases h

theorem parseChunk_width {v : JsValue} {previous : Int} {lastChunk lastBit : Nat}
    {chunk : SnapshotChunkWire} (h : parseChunk viem previous lastChunk lastBit v = .ok chunk) :
    chunkWidth v = chunk.value.toList.length := by
  simp only [parseChunk, bind_eq_ok, check_eq_ok] at h
  obtain ⟨fields, hobject, _, -, index, -, value, hvalue, -, -, -, hchunk⟩ := h
  cases hchunk
  rw [object_ok.mp hobject, chunkWidth]
  exact textLength_bytes32 hvalue

theorem parseChunks_widths {vs : List JsValue} {previous : Int} {lastChunk lastBit : Nat}
    {chunks : List SnapshotChunkWire}
    (h : parseChunks viem lastChunk lastBit previous vs = .ok chunks) :
    vs.map chunkWidth = chunks.map fun chunk => chunk.value.toList.length := by
  induction vs generalizing previous chunks with
  | nil =>
    cases h
    rfl
  | cons v vs ih =>
    simp only [parseChunks, bind_eq_ok] at h
    obtain ⟨chunk, hchunk, rest, hrest, heq⟩ := h
    cases heq
    rw [List.map_cons, List.map_cons, parseChunk_width hchunk, ih hrest]

theorem widthsOf_parse {v : JsValue} {w : SnapshotWire}
    (h : parseZkIdentityPackedStatusSnapshot viem v = .ok w) : widthsOf v = w.widths := by
  simp only [parseZkIdentityPackedStatusSnapshot, bind_eq_ok] at h
  obtain ⟨fields, hobject, _, -, h⟩ := h
  split at h
  · simp only [check_eq_ok, bind_eq_ok] at h
    obtain ⟨-, chainId, -, -, registry, -, issuer, hissuer, number, -, hash, hhash, parent, hparent,
      next, -, -, -, root, hroot, -, untrusted, huntrusted, chunks, hchunks, -, hw⟩ := h
    cases hw
    have hitems : field fields "chunks" = .arr untrusted := by
      cases hfield : field fields "chunks" <;> rw [hfield] at huntrusted <;> cases huntrusted
      rfl
    rw [object_ok.mp hobject, widthsOf, SnapshotWire.widths, hitems, chunkWidths,
      parseChunks_widths hchunks]
    simp only [List.map_cons, List.map_nil, textLength_bytes32 hissuer, textLength_bytes32 hhash,
      textLength_bytes32 hparent, textLength_bytes32 hroot]
  · cases h

-- The state that a record denotes: its numbers, whatever they are written with.
structure SnapshotState where
  chainId : Nat
  issuanceRegistry : Nat
  issuerKeyId : Nat
  sourceBlockNumber : Nat
  sourceBlockHash : Nat
  sourceBlockParentHash : Nat
  nextStatusId : Nat
  root : Nat
  chunks : List (Nat × Nat)
deriving DecidableEq, Repr

def SnapshotWire.state (w : SnapshotWire) : SnapshotState where
  chainId := bigIntOfDecimal w.chainId
  issuanceRegistry := bigIntOfHex w.issuanceRegistry
  issuerKeyId := bigIntOfHex w.issuerKeyId
  sourceBlockNumber := bigIntOfDecimal w.sourceBlockNumber
  sourceBlockHash := bigIntOfHex w.sourceBlockHash
  sourceBlockParentHash := bigIntOfHex w.sourceBlockParentHash
  nextStatusId := w.nextStatusId
  root := bigIntOfHex w.root
  chunks := w.chunks.map fun chunk => (chunk.index, bigIntOfHex chunk.value)

theorem IsBytes32.eq_of_width {s t : String} (hs : IsBytes32 s) (ht : IsBytes32 t)
    (hlength : s.toList.length = t.toList.length) (hvalue : bigIntOfHex s = bigIntOfHex t) :
    s = t := by
  obtain ⟨ds, hds, -⟩ := hs
  obtain ⟨dt, hdt, -⟩ := ht
  exact hds.eq_of_bigInt hdt hlength hvalue

theorem chunks_eq_of_width {cs ds : List SnapshotChunkWire} (hcs : ∀ c ∈ cs, IsBytes32 c.value)
    (hds : ∀ d ∈ ds, IsBytes32 d.value)
    (hvalue : (cs.map fun c => (c.index, bigIntOfHex c.value)) =
      ds.map fun d => (d.index, bigIntOfHex d.value))
    (hwidth : (cs.map fun c => c.value.toList.length) = ds.map fun d => d.value.toList.length) :
    cs = ds := by
  induction cs generalizing ds with
  | nil =>
    cases ds with
    | nil => rfl
    | cons d ds => cases hvalue
  | cons c cs ih =>
    cases ds with
    | nil => cases hvalue
    | cons d ds =>
      rw [List.map_cons, List.map_cons, List.cons.injEq] at hvalue hwidth
      have hindex : c.index = d.index := congrArg Prod.fst hvalue.1
      have hsame : c.value = d.value :=
        (hcs c List.mem_cons_self).eq_of_width (hds d List.mem_cons_self) hwidth.1
          (congrArg Prod.snd hvalue.1)
      have hhead : c = d := by
        obtain ⟨index, value⟩ := c
        obtain ⟨index', value'⟩ := d
        exact congr (congrArg SnapshotChunkWire.mk hindex) hsame
      rw [hhead, ih (fun c hc => hcs c (List.mem_cons_of_mem _ hc))
        (fun d hd => hds d (List.mem_cons_of_mem _ hd)) hvalue.2 hwidth.2]

-- Two accepted records of one state are the same when their words have the same lengths.
theorem Accepted.eq_iff_widths {w w' : SnapshotWire} (h : Accepted w) (h' : Accepted w')
    (hstate : w.state = w'.state) : w = w' ↔ w.widths = w'.widths := by
  constructor
  · rintro rfl
    rfl
  · intro hwidths
    have hfields : ∀ {α : Type} (f : SnapshotState → α), f w.state = f w'.state :=
      fun f => congrArg f hstate
    obtain ⟨chain, -, -, hchain⟩ := h.chainId
    obtain ⟨chain', -, -, hchain'⟩ := h'.chainId
    obtain ⟨number, -, hnumber⟩ := h.sourceBlockNumber
    obtain ⟨number', -, hnumber'⟩ := h'.sourceBlockNumber
    obtain ⟨registry, -, hregistry⟩ := h.issuanceRegistry
    obtain ⟨registry', -, hregistry'⟩ := h'.issuanceRegistry
    have hchainEq : w.chainId = w'.chainId := by
      have hvalue := hfields SnapshotState.chainId
      simp only [SnapshotWire.state, hchain, hchain', bigInt_repr] at hvalue
      rw [hchain, hchain', hvalue]
    have hnumberEq : w.sourceBlockNumber = w'.sourceBlockNumber := by
      have hvalue := hfields SnapshotState.sourceBlockNumber
      simp only [SnapshotWire.state, hnumber, hnumber', bigInt_repr] at hvalue
      rw [hnumber, hnumber', hvalue]
    have hregistryEq : w.issuanceRegistry = w'.issuanceRegistry := by
      have hvalue := hfields SnapshotState.issuanceRegistry
      have hbytes : ∀ x : Address, bigIntOfHex (bytesToHex x) = x.toNat :=
        fun x => bigInt_bytesToHex (by decide) x
      simp only [SnapshotWire.state, hregistry, hregistry', hbytes] at hvalue
      rw [hregistry, hregistry', BitVec.eq_of_toNat_eq hvalue]
    simp only [SnapshotWire.widths, List.map_cons, List.map_nil, List.cons_append, List.nil_append,
      List.cons.injEq] at hwidths
    obtain ⟨hissuer, hhash, hparent, hroot, hchunks⟩ := hwidths
    have hnext : w.nextStatusId = w'.nextStatusId := hfields SnapshotState.nextStatusId
    have hissuerEq := h.issuerKeyId.1.eq_of_width h'.issuerKeyId.1 hissuer
      (hfields SnapshotState.issuerKeyId)
    have hhashEq := h.sourceBlockHash.1.eq_of_width h'.sourceBlockHash.1 hhash
      (hfields SnapshotState.sourceBlockHash)
    have hparentEq := h.sourceBlockParentHash.eq_of_width h'.sourceBlockParentHash hparent
      (hfields SnapshotState.sourceBlockParentHash)
    have hrootEq := h.root.1.eq_of_width h'.root.1 hroot (hfields SnapshotState.root)
    have hchunksEq := chunks_eq_of_width (fun c hc => (h.chunks c hc).bytes)
      (fun c hc => (h'.chunks c hc).bytes) (hfields SnapshotState.chunks) hchunks
    have hactivated := h.activated
    have hactivated' := h'.activated
    have hschema := h.schema.trans h'.schema.symm
    obtain ⟨_, _, _, _, _, _, _, _, _, _, _⟩ := w
    obtain ⟨_, _, _, _, _, _, _, _, _, _, _⟩ := w'
    simp only [SnapshotWire.mk.injEq]
    simp only at hnext hactivated hactivated'
    exact ⟨hschema, hchainEq, hregistryEq, hissuerEq, hnumberEq, hhashEq, hparentEq, hnext,
      by omega, hrootEq, hchunksEq⟩

theorem chunkJson_injective : Function.Injective SnapshotChunkWire.json := by
  rintro ⟨index, value⟩ ⟨index', value'⟩ h
  simp only [SnapshotChunkWire.json, Json.obj.injEq, List.cons.injEq, Prod.mk.injEq, Json.num.injEq,
    Json.str.injEq, true_and, and_true] at h
  rw [h.1, h.2]

-- A text tells its record.
theorem compact_snapshot_inj {w w' : SnapshotWire} :
    w.json.compact = w'.json.compact ↔ w = w' := by
  rw [Json.compact_inj]
  constructor
  · intro h
    obtain ⟨_, _, _, _, _, _, _, _, _, _, chunks⟩ := w
    obtain ⟨_, _, _, _, _, _, _, _, _, _, chunks'⟩ := w'
    simp only [SnapshotWire.json, Json.obj.injEq, List.cons.injEq, Prod.mk.injEq, Json.num.injEq,
      Json.str.injEq, Json.arr.injEq, true_and, and_true] at h
    obtain ⟨h1, h2, h3, h4, h5, h6, h7, h8, h9, h10, h11⟩ := h
    have hchunks := List.map_injective_iff.mpr chunkJson_injective h11
    simp only [SnapshotWire.mk.injEq]
    exact ⟨h1, h2, h3, h4, h5, h6, h7, h8, h9, h10, hchunks⟩
  · rintro rfl
    rfl

theorem Accepted.fits {w : SnapshotWire} (h : Accepted w) : w.Fits := by
  have hbound := h.nextBound
  have hactivated := h.activated
  rw [ZK_IDENTITY_MAX_NEXT_STATUS_ID] at hbound
  refine ⟨?_, ?_, ?_⟩
  · rw [U64_MAX]
    omega
  · rw [U32_MAX]
    omega
  · intro chunk hchunk
    have hmax := (h.chunks chunk hchunk).max
    rw [Sdk.MAX_CHUNK_INDEX] at hmax
    rw [U32_MAX]
    omega

-- The checkpoint of a sound builder is one that the SDK's parser gives.
theorem Sound.accepted {b : PackedStatusSnapshotBuilder} (h : Sound poseidon b)
    (hnonzero : ∀ left right, registryNode poseidon left right ≠ 0) {w : SnapshotWire}
    (hw : (b.snapshot poseidon).toWire = some w) : Accepted w ∧ w.FullWidth :=
  accepted_toWire (h.snapshotOk hnonzero) h.chainBound h.tipBound hw

theorem parse_compact {w : SnapshotWire} (hjson : json.ReadsBack) (h : Accepted w) :
    json.parse w.json.compact = .ok w.document := by
  rw [hjson _ h.exact, ofJson_snapshot]

-- Both languages write one text for a checkpoint, as long as its words have all their digits. A
-- word that lacks its first digit, which viem's `size` takes for 32 bytes, is kept as it is.
theorem one_checkpoint_format {viem : Viem} {json : JSON} {poseidon : Poseidon} {fromStr : FromStr}
    (hnonzero : ∀ left right, registryNode poseidon left right ≠ 0) (hread : fromStr.ReadsBack)
    (hjson : json.ReadsBack) :
    (∀ s text, Reachable poseidon s → s.now.builder.chainId ≤ U64_MAX →
      s.now.builder.tip.number ≤ U64_MAX →
      (s.now.builder.snapshot poseidon).toJson = some text →
      ∃ v, json.parse text = .ok v ∧ serializeZkIdentityPackedStatusSnapshot viem v = .ok text) ∧
    (∀ v text, serializeZkIdentityPackedStatusSnapshot viem v = .ok text →
      ((∃ snapshot, PackedStatusSnapshot.fromJson fromStr text = .ok snapshot ∧
        snapshot.toJson = some text) ↔ ∀ n ∈ widthsOf v, n = 66)) ∧
    (∀ v v' w w', parseZkIdentityPackedStatusSnapshot viem v = .ok w →
      parseZkIdentityPackedStatusSnapshot viem v' = .ok w' → w.state = w'.state →
      (serializeZkIdentityPackedStatusSnapshot viem v =
          serializeZkIdentityPackedStatusSnapshot viem v' ↔ widthsOf v = widthsOf v')) := by
  refine ⟨?_, ?_, ?_⟩
  · intro s text hs hchain htip htext
    obtain ⟨w, hw, rfl⟩ := Option.map_eq_some_iff.mp htext
    obtain ⟨haccepted, -⟩ := (hs.sound hchain htip).accepted hnonzero hw
    exact ⟨w.document, parse_compact hjson haccepted, serialize_document haccepted⟩
  · intro v text htext
    obtain ⟨w, hw, rfl⟩ := map_eq_ok.mp htext
    have haccepted := parse_ok hw
    rw [widthsOf_parse hw, ← fullWidth_iff, ← fromWire_accepted_iff haccepted,
      PackedStatusSnapshot.fromJson, hread w haccepted.fits]
    constructor
    · rintro ⟨snapshot, hsnapshot, -⟩
      exact ⟨snapshot, hsnapshot⟩
    · rintro ⟨snapshot, hsnapshot⟩
      refine ⟨snapshot, hsnapshot, ?_⟩
      rw [PackedStatusSnapshot.toJson, (PackedStatusSnapshot.fromWire_iff.mp hsnapshot).2.2.2]
      rfl
  · intro v v' w w' hw hw' hstate
    rw [widthsOf_parse hw, widthsOf_parse hw',
      ← (parse_ok hw).eq_iff_widths (parse_ok hw') hstate, ← compact_snapshot_inj,
      serializeZkIdentityPackedStatusSnapshot, serializeZkIdentityPackedStatusSnapshot, hw, hw']
    show Except.ok w.json.compact = Except.ok w'.json.compact ↔ _
    rw [Except.ok.injEq]

theorem exists_sampleWire : ∃ w, (sampleBuilder.snapshot samplePoseidon).toWire = some w ∧
    w.sourceBlockParentHash = bytesToHex 0#256 := by
  have hsound := reachable_sampleBuilder.sound (by decide) (by decide)
  obtain ⟨text, htext⟩ := hsound.exists_toJson
  obtain ⟨w, hw, -⟩ := Option.map_eq_some_iff.mp htext
  obtain ⟨_, -, rfl⟩ := Option.map_eq_some_iff.mp hw
  exact ⟨_, hw, rfl⟩

theorem one_checkpoint_format_sample :
    ∃ text v, (sampleBuilder.snapshot samplePoseidon).toJson = some text ∧
      compactJSON.parse text = .ok v ∧
      serializeZkIdentityPackedStatusSnapshot sampleViem v = .ok text := by
  have hsound := reachable_sampleBuilder.sound (by decide) (by decide)
  obtain ⟨text, htext⟩ := hsound.exists_toJson
  obtain ⟨v, hv, hserialize⟩ := (@one_checkpoint_format sampleViem _ _ _ registryNode_sample
    compactFromStr_readsBack compactJSON_readsBack).1 _ text reachable_sampleBuilder (by decide)
    (by decide) htext
  exact ⟨text, v, htext, hv, hserialize⟩

-- The hash of a block before the first, with 63 zeros.
def shortZero : String := String.ofList ('0' :: 'x' :: Hex.fixed 63 0)

theorem hexText_shortZero : HexText shortZero (Hex.fixed 63 0) :=
  ⟨rfl, fun _ hc => Hex.mem_fixed hc⟩

-- Two spellings of one checkpoint are accepted, and Rust refuses one of them.
theorem one_checkpoint_format_fails :
    ∃ w w' : SnapshotWire,
      parseZkIdentityPackedStatusSnapshot sampleViem w.document = .ok w ∧
      parseZkIdentityPackedStatusSnapshot sampleViem w'.document = .ok w' ∧
      w.state = w'.state ∧ w.json.compact ≠ w'.json.compact ∧
      ∀ snapshot, PackedStatusSnapshot.fromJson compactFromStr w'.json.compact ≠ .ok snapshot := by
  have hsound := reachable_sampleBuilder.sound (by decide) (by decide)
  obtain ⟨w, hw, hparent⟩ := exists_sampleWire
  obtain ⟨haccepted, hfull⟩ := hsound.accepted registryNode_sample hw
  have hlength : shortZero.toList.length = 65 := by
    rw [hexText_shortZero.length, Hex.length_fixed]
  have hbytes : IsBytes32 shortZero := ⟨_, hexText_shortZero, .inl (Hex.length_fixed _ _)⟩
  have haccepted' : Accepted { w with sourceBlockParentHash := shortZero } :=
    { haccepted with sourceBlockParentHash := hbytes }
  have hvalue : bigIntOfHex w.sourceBlockParentHash = bigIntOfHex shortZero := by
    rw [hparent, bigInt_bytesToHex (by decide), hexText_shortZero.bigInt,
      Hex.value_fixed (by decide)]
    rfl
  refine ⟨w, { w with sourceBlockParentHash := shortZero }, parse_document haccepted,
    parse_document haccepted', ?_, ?_, ?_⟩
  · rw [SnapshotWire.state, SnapshotWire.state, hvalue]
  · rw [Ne, compact_snapshot_inj]
    intro heq
    have hpadded := hfull.sourceBlockParentHash
    rw [congrArg SnapshotWire.sourceBlockParentHash heq] at hpadded
    exact absurd (hlength.symm.trans hpadded) (by decide)
  · intro snapshot hsnapshot
    rw [PackedStatusSnapshot.fromJson, compactFromStr_readsBack _ haccepted'.fits] at hsnapshot
    have hpadded := ((fromWire_accepted_iff haccepted').mp ⟨snapshot, hsnapshot⟩).sourceBlockParentHash
    exact absurd (hlength.symm.trans hpadded) (by decide)

end Ubi2.StatusSnapshot
