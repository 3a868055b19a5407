import Ubi2.StatusSnapshot.Allocations
import Ubi2.StatusSnapshot.Feeding

namespace Ubi2.StatusSnapshot

open Ubi2.Runtime Ubi2.Lib Ubi2.Lib.Except Sdk PackedStatusSnapshotBuilder

variable {viem : Viem}

-- All 64 digits are written.
def Padded (s : String) : Prop := s.toList.length = 66

instance (s : String) : Decidable (Padded s) := inferInstanceAs (Decidable (_ = _))

theorem padded_bytesToHex (x : Hash) : Padded (bytesToHex x) := by
  rw [Padded, (hexText_bytesToHex x).length, Hex.length_fixed]

def wordOf (s : String) : Hash := BitVec.ofNat 256 (bigIntOfHex s)

theorem IsBytes32.eq_bytesToHex {s : String} (h : IsBytes32 s) (hpadded : Padded s) :
    s = bytesToHex (wordOf s) := by
  obtain ⟨digits, htext, -⟩ := h
  rw [Padded, htext.length] at hpadded
  exact htext.eq_bytesToHex (by decide) (by omega)

theorem wordOf_bytesToHex (x : Hash) : wordOf (bytesToHex x) = x := by
  rw [wordOf, bigInt_bytesToHex (by decide), BitVec.ofNat_toNat, BitVec.setWidth_eq]

theorem canonicalBytes32_text {s label t : String} {nonZero : Bool}
    (h : canonicalBytes32 viem (.str s) label nonZero = .ok t) : t = toLowerCase s := by
  simp only [canonicalBytes32, check_eq_ok, Except.ok.injEq] at h
  exact h.2.2.symm

theorem padded_toLowerCase (s : String) : Padded (toLowerCase s) ↔ Padded s := by
  rw [Padded, Padded, toLowerCase, String.toList_ofList, List.length_map]

-- What a header that has passed its checks is.
structure HeaderOk (value : ZkIdentityFinalizedBlockHeader) (header : CanonicalHeader) : Prop where
  number : value.number = header.number
  hash : header.hash = toLowerCase value.hash
  parentHash : header.parentHash = toLowerCase value.parentHash
  bytes : IsBytes32 header.hash
  parentBytes : IsBytes32 header.parentHash
  nonzero : bigIntOfHex header.hash ≠ 0

theorem canonicalHeader_ok {value : ZkIdentityFinalizedBlockHeader} {label : String}
    {header : CanonicalHeader} (h : canonicalHeader viem value label = .ok header) :
    HeaderOk value header := by
  simp only [canonicalHeader, check_eq_ok, bind_eq_ok] at h
  obtain ⟨hnumber, hash, hhash, hzero, parent, hparent, h⟩ := h
  cases h
  refine ⟨?_, canonicalBytes32_text hhash, canonicalBytes32_text hparent,
    (canonicalBytes32_ok hhash).1, (canonicalBytes32_ok hparent).1, hzero⟩
  show value.number = (value.number.toNat : Int)
  omega

theorem canonicalHeader_text {n : Nat} {hash parentHash : String} (hbytes : IsBytes32 hash)
    (hzero : bigIntOfHex hash ≠ 0) (hparent : IsBytes32 parentHash) (label : String) :
    canonicalHeader viem ⟨n, hash, parentHash⟩ label = .ok ⟨n, hash, parentHash⟩ := by
  have hnumber : ¬(n : Int) < 0 := by omega
  simp only [canonicalHeader, check_eq_ok, bind_eq_ok]
  exact ⟨hnumber, _, canonicalBytes32_str hbytes nofun, hzero, _,
    canonicalBytes32_str hparent nofun, rfl⟩

-- A header as the builder reads it.
def Sdk.CanonicalHeader.ref (header : CanonicalHeader) : SourceBlockRef :=
  ⟨header.number, wordOf header.hash, wordOf header.parentHash⟩

theorem parseBlockRef_wire {header : CanonicalHeader} (hnumber : header.number ≤ U64_MAX)
    (hhash : header.hash = bytesToHex (wordOf header.hash))
    (hparent : header.parentHash = bytesToHex (wordOf header.parentHash)) :
    parseBlockRef header.wire = .ok header.ref := by
  simp only [parseBlockRef, bind_eq_ok, pure_eq_ok, parseCanonicalU64_iff,
    bytesFromHex_iff (w := 256) (by decide), CanonicalHeader.wire]
  exact ⟨_, ⟨hnumber, rfl⟩, _, hhash, _, hparent, rfl⟩

-- The events of a block as the builder reads them.
def idsOf (events : List EventWire) : List (Nat × Nat) :=
  events.map fun e => (e.logIndex, e.statusId)

theorem parseEvents {issuerKeyId : Hash} {events : List EventWire}
    (h : ∀ e ∈ events, e = ⟨"credential-allocated", e.logIndex, bytesToHex issuerKeyId,
      e.statusId, none⟩) :
    events.mapM parseEvent = .ok (allocations issuerKeyId (idsOf events)) := by
  rw [mapM_eq_ok, allocations, idsOf, List.map_map, List.forall₂_map_right_iff,
    List.forall₂_same]
  intro e he
  rw [h e he, parseEvent]
  simp only [bind_eq_ok, bytesFromHex_iff (w := 256) (by decide)]
  exact ⟨issuerKeyId, rfl, rfl⟩

theorem exists_of_forall₂_right {α β : Type} {R : α → β → Prop} {as : List α} {bs : List β}
    (h : List.Forall₂ R as bs) {b : β} (hb : b ∈ bs) : ∃ a ∈ as, R a b := by
  induction h with
  | nil => cases hb
  | cons hab _ ih =>
    rcases List.mem_cons.mp hb with rfl | hb
    · exact ⟨_, List.mem_cons_self, hab⟩
    · obtain ⟨a, ha, hR⟩ := ih hb
      exact ⟨a, List.mem_cons_of_mem _ ha, hR⟩

-- What the entries of a branch put under its headers.
structure Filed (headers : List CanonicalHeader) (issuerKeyId : String) (next : Nat)
    (bb : Nat → List EventWire) (entries : List (Nat × EventWire)) : Prop where
  all : (headers.flatMap fun header => (bb header.number).map fun e => (header.number, e)) = entries
  shape : ∀ entry ∈ entries,
    entry.2 = ⟨"credential-allocated", entry.2.logIndex, issuerKeyId, entry.2.statusId, none⟩
  order : ∀ header ∈ headers, (bb header.number).Pairwise fun a b => a.logIndex < b.logIndex
  dense : Numbered next EventWire.statusId (headers.flatMap fun header => bb header.number)
  bound : ∀ entry ∈ entries, entry.2.statusId ≤ U32_MAX

theorem Branch.numbers {n : Nat} {parent : String} {headers : List CanonicalHeader}
    (h : Branch n parent headers) :
    headers.map CanonicalHeader.number = List.range' n headers.length := by
  induction headers generalizing n parent with
  | nil => rfl
  | cons header rest ih =>
    obtain ⟨hnumber, -, hrest⟩ := h
    rw [List.map_cons, ih hrest, List.length_cons, List.range'_succ, hnumber]

theorem Branched.filed {reader : ZkIdentityFinalizedRpcReader}
    {issuanceRegistry issuerKeyId : String} {next : Nat} {anchor finalized : CanonicalHeader}
    {headers : List CanonicalHeader} {logs : List ZkIdentityCredentialAllocatedLog}
    {entries : List (Nat × EventWire)} (hlt : anchor.number < finalized.number)
    (h : Branched viem reader issuanceRegistry issuerKeyId next anchor finalized headers logs
      entries) :
    Filed headers issuerKeyId next (byBlock entries) entries := by
  have hfinalized : finalized.number =
      anchor.number + 1 + (finalized.number - anchor.number - 1) := by omega
  have hlength : headers.length = finalized.number - anchor.number - 1 + 1 := by
    rw [h.length]
    omega
  have hentries := h.entries
  rw [hfinalized] at hentries
  have hfresh : LogState.Fresh ⟨fun _ => [], next, -1, -1⟩ := fun _ _ => rfl
  have hfiled := filed_foldl hfresh hentries
  rw [byBlock_eq, ← hlength, ← h.branch.numbers, StatusSnapshot.filed_nil (fun _ _ => rfl),
    List.nil_append, StatusSnapshot.filed, List.flatMap_map] at hfiled
  obtain ⟨hinOrder, -⟩ := h.entries.inOrder rfl
  generalize byBlock entries = bb at hfiled ⊢
  refine ⟨hfiled, ?_, ?_, ?_, hinOrder.bound⟩
  · intro entry hentry
    obtain ⟨log, -, hlog⟩ := exists_of_forall₂_right h.logs hentry
    exact hlog.event
  · intro header hheader
    have hsublist : ((bb header.number).map fun e => (header.number, e)).Sublist entries := by
      rw [← hfiled, List.flatMap_def]
      exact List.sublist_flatten_of_mem (List.mem_map_of_mem hheader)
    refine (List.pairwise_map.mp (hinOrder.order.sublist hsublist)).imp fun hab => ?_
    exact (hab.resolve_left (Nat.lt_irrefl _)).2
  · have hmap : entries.map Prod.snd = headers.flatMap fun header => bb header.number := by
      rw [← hfiled, List.map_flatMap]
      simp
    have hdense := hinOrder.dense
    rw [← hmap, Numbered, List.map_map, List.length_map]
    exact hdense

-- A header that the builder can read.
structure Readable (header : CanonicalHeader) : Prop where
  number : header.number ≤ U64_MAX
  hash : header.hash = bytesToHex (wordOf header.hash)
  nonzero : wordOf header.hash ≠ ZERO_HASH

theorem HeaderOk.readable {value : ZkIdentityFinalizedBlockHeader} {header : CanonicalHeader}
    (h : HeaderOk value header) (hnumber : header.number ≤ U64_MAX)
    (hpadded : Padded header.hash) : Readable header := by
  have hhash := h.bytes.eq_bytesToHex hpadded
  refine ⟨hnumber, hhash, fun hzero => h.nonzero ?_⟩
  rw [hhash, hzero, bigInt_bytesToHex (by decide)]
  rfl

def blockOf (issuerKeyId : Hash) (bb : Nat → List EventWire) (header : CanonicalHeader) :
    FinalizedStatusBlock :=
  ⟨header.ref, allocations issuerKeyId (idsOf (bb header.number))⟩

theorem parseBlocks {issuerKeyId : Hash} {bb : Nat → List EventWire} {n : Nat} {parent : Hash}
    {headers : List CanonicalHeader} (hbranch : Branch n (bytesToHex parent) headers)
    (hread : ∀ header ∈ headers, Readable header)
    (hshape : ∀ header ∈ headers, ∀ e ∈ bb header.number,
      e = ⟨"credential-allocated", e.logIndex, bytesToHex issuerKeyId, e.statusId, none⟩) :
    (headers.map (blockWire bb)).mapM parseBlock = .ok (headers.map (blockOf issuerKeyId bb)) := by
  rw [mapM_eq_ok, List.forall₂_map_left_iff, List.forall₂_map_right_iff, List.forall₂_same]
  induction headers generalizing n parent with
  | nil => exact nofun
  | cons header rest ih =>
    obtain ⟨-, hparent, hrest⟩ := hbranch
    have hfirst := hread header List.mem_cons_self
    intro other hother
    rcases List.mem_cons.mp hother with rfl | hother
    · have href : parseBlockRef (blockWire bb other).ref = .ok other.ref := by
        refine parseBlockRef_wire hfirst.number hfirst.hash ?_
        rw [hparent, wordOf_bytesToHex]
      rw [parseBlock, href]
      simp only [bind_eq_ok, pure_eq_ok, Except.ok.injEq]
      exact ⟨_, rfl, _, parseEvents (hshape other List.mem_cons_self), rfl⟩
    · rw [hfirst.hash] at hrest
      exact ih hrest (fun h hh => hread h (List.mem_cons_of_mem _ hh))
        (fun h hh => hshape h (List.mem_cons_of_mem _ hh)) other hother

theorem extends_blockOf {issuerKeyId : Hash} {bb : Nat → List EventWire} {tip : SourceBlockRef}
    {next : Nat} {headers : List CanonicalHeader}
    (hbranch : Branch (tip.number + 1) (bytesToHex tip.hash) headers)
    (hread : ∀ header ∈ headers, Readable header)
    (horder : ∀ header ∈ headers, (bb header.number).Pairwise fun a b => a.logIndex < b.logIndex)
    (hdense : Numbered next EventWire.statusId (headers.flatMap fun header => bb header.number))
    (hbound : ∀ header ∈ headers, ∀ e ∈ bb header.number, e.statusId ≤ U32_MAX) :
    Extends issuerKeyId tip next (headers.map (blockOf issuerKeyId bb)) := by
  induction headers generalizing tip next with
  | nil => trivial
  | cons header rest ih =>
    obtain ⟨hnumber, hparent, hrest⟩ := hbranch
    have hfirst := hread header List.mem_cons_self
    rw [List.flatMap_cons] at hdense
    obtain ⟨hhead, htail⟩ := Numbered.append_iff.mp hdense
    have hlength : (idsOf (bb header.number)).length = (bb header.number).length :=
      List.length_map _
    refine ⟨hnumber, hfirst.number, ?_, hfirst.nonzero, idsOf (bb header.number), rfl, ?_, ?_, ?_,
      ?_⟩
    · show wordOf header.parentHash = tip.hash
      rw [hparent, wordOf_bytesToHex]
    · exact List.pairwise_map.mpr (horder header List.mem_cons_self)
    · rw [Numbered, idsOf, List.map_map, List.length_map]
      exact hhead
    · intro id hid
      obtain ⟨e, he, rfl⟩ := List.mem_map.mp hid
      exact hbound header List.mem_cons_self e he
    · rw [hlength]
      rw [← hnumber, hfirst.hash] at hrest
      exact @ih header.ref _ hrest (fun h hh => hread h (List.mem_cons_of_mem _ hh))
        (fun h hh => horder h (List.mem_cons_of_mem _ hh)) htail
        (fun h hh => hbound h (List.mem_cons_of_mem _ hh))

-- What a collection is asked for when it starts from a checkpoint.
structure Matches (input : CollectZkIdentityFinalizedStatusInput)
    (snapshot : PackedStatusSnapshot) : Prop where
  chainId : input.chainId = .integer snapshot.chainId
  issuanceRegistry : toLowerCase input.issuanceRegistry = bytesToHex snapshot.issuanceRegistry
  issuerKeyId : toLowerCase input.issuerKeyId = bytesToHex snapshot.issuerKeyId
  anchor : input.anchor = ⟨snapshot.source.number, bytesToHex snapshot.source.hash,
    bytesToHex snapshot.source.parentHash⟩
  next : input.expectedNextStatusId = snapshot.nextStatusId

def anchorOf (source : SourceBlockRef) : CanonicalHeader :=
  ⟨source.number, bytesToHex source.hash, bytesToHex source.parentHash⟩

theorem canonicalAddress_text {s label t : String}
    (h : canonicalAddress viem (.str s) label = .ok t) : t = toLowerCase s := by
  simp only [canonicalAddress, check_eq_ok, not_or, not_not, Except.ok.injEq] at h
  obtain ⟨⟨haddress, -⟩, rfl⟩ := h
  rw [Viem.isAddress, decide_eq_true_iff] at haddress
  exact viem.lower s haddress.1

-- The transcript of a collection from a checkpoint.
structure Collected (viem : Viem) (reader : ZkIdentityFinalizedRpcReader)
    (snapshot : PackedStatusSnapshot)
    (answer : ZkIdentityFinalizedBlockHeader) (finalized : CanonicalHeader) (t : SourceWire) :
    Prop where
  answered : reader.getFinalizedBlock = .ok answer
  target : HeaderOk answer finalized
  schema : t.schema = PACKED_STATUS_SOURCE_SCHEMA
  chainId : t.chainId = snapshot.chainId.repr
  issuanceRegistry : t.issuanceRegistry = bytesToHex snapshot.issuanceRegistry
  issuerKeyId : t.issuerKeyId = bytesToHex snapshot.issuerKeyId
  anchor : t.anchor = (anchorOf snapshot.source).wire
  blocks : collectBlocks viem reader t.issuanceRegistry t.issuerKeyId snapshot.nextStatusId
    (anchorOf snapshot.source) finalized = .ok t.blocks

theorem Matches.collected {input : CollectZkIdentityFinalizedStatusInput}
    {snapshot : PackedStatusSnapshot} {t : SourceWire} (h : Matches input snapshot)
    (hcollect : collectZkIdentityFinalizedStatusTranscript viem input = .ok t) :
    ∃ answer finalized, Collected viem input.reader snapshot answer finalized t := by
  simp only [collectZkIdentityFinalizedStatusTranscript, bind_eq_ok, check_eq_ok] at hcollect
  obtain ⟨chainId, hchain, registry, hregistry, issuer, hissuer, -, -, anchor, hanchor, chain,
    -, -, answer, hanswer, finalized, hfinalized, blocks, hblocks, ht⟩ := hcollect
  cases ht
  have hchainId : chainId = snapshot.chainId := by
    rw [h.chainId, positiveChainId, positiveSafeInteger, JsValue.safeInteger] at hchain
    by_cases hsafe : -MAX_SAFE_INTEGER ≤ (snapshot.chainId : Int) ∧
        (snapshot.chainId : Int) ≤ MAX_SAFE_INTEGER
    · simp only [if_pos hsafe, check_eq_ok, Except.ok.injEq] at hchain
      omega
    · simp only [if_neg hsafe] at hchain
      cases hchain
  have hanchorOf : anchor = anchorOf snapshot.source := by
    have hok := canonicalHeader_ok hanchor
    rw [h.anchor] at hok
    obtain ⟨number, hash, parentHash⟩ := anchor
    have hnumber : (snapshot.source.number : Int) = number := hok.number
    have hhash : hash = toLowerCase (bytesToHex snapshot.source.hash) := hok.hash
    have hparent : parentHash = toLowerCase (bytesToHex snapshot.source.parentHash) :=
      hok.parentHash
    rw [(hexText_bytesToHex _).toLowerCase] at hhash hparent
    rw [anchorOf, hhash, hparent, Int.ofNat_inj.mp hnumber]
  have hregistryText := (canonicalAddress_text hregistry).trans h.issuanceRegistry
  have hissuerText := (canonicalBytes32_text hissuer).trans h.issuerKeyId
  rw [h.next, hanchorOf] at hblocks
  exact ⟨answer, finalized, hanswer, canonicalHeader_ok hfinalized, rfl,
    congrArg Nat.repr hchainId, hregistryText, hissuerText,
    congrArg CanonicalHeader.wire hanchorOf, hblocks⟩

-- A log as the event that carries it and the block that the event is in.
structure Carried (issuerKeyId : String) (log : ZkIdentityCredentialAllocatedLog)
    (entry : BlockWire × EventWire) : Prop where
  number : 0 ≤ log.blockNumber ∧ entry.1.number = log.blockNumber.toNat.repr
  hash : entry.1.hash = toLowerCase log.blockHash
  logIndex : log.logIndex = .integer entry.2.logIndex
  statusId : log.statusId = .integer entry.2.statusId
  issuer : toLowerCase log.issuerKeyId = issuerKeyId
  event : entry.2 = ⟨"credential-allocated", entry.2.logIndex, issuerKeyId, entry.2.statusId, none⟩

-- A transcript that follows the finalized branch from a checkpoint, with all its logs.
structure Follows (reader : ZkIdentityFinalizedRpcReader) (snapshot : PackedStatusSnapshot)
    (finalized : CanonicalHeader) (t : SourceWire) : Prop where
  anchor : t.anchor = (anchorOf snapshot.source).wire
  numbers : t.blocks.map BlockWire.number =
    (List.range' (snapshot.source.number + 1) t.blocks.length).map Nat.repr
  linked : (t.anchor :: t.blocks.map BlockWire.ref).IsChain
    fun parent block => block.parentHash = parent.hash
  length : snapshot.source.number + t.blocks.length = finalized.number
  tipNumber : (lastRef t.anchor t.blocks).number = finalized.number.repr
  tipHash : (lastRef t.anchor t.blocks).hash = finalized.hash
  logs : t.blocks = [] ∨ ∃ logs, reader.getCredentialAllocatedLogs t.issuanceRegistry t.issuerKeyId
      (snapshot.source.number + 1) finalized.number = .ok logs ∧
    List.Forall₂ (Carried t.issuerKeyId) logs
      (t.blocks.flatMap fun block => block.events.map fun e => (block, e))
  order : ∀ block ∈ t.blocks, block.events.Pairwise fun a b => a.logIndex < b.logIndex
  dense : Numbered snapshot.nextStatusId EventWire.statusId (t.blocks.flatMap BlockWire.events)

theorem Branch.linked {n : Nat} {anchor : CanonicalHeader} {headers : List CanonicalHeader}
    (h : Branch n anchor.hash headers) :
    (anchor.wire :: headers.map CanonicalHeader.wire).IsChain
      fun parent block => block.parentHash = parent.hash := by
  induction headers generalizing n anchor with
  | nil => exact .singleton _
  | cons header rest ih =>
    obtain ⟨-, hparent, hrest⟩ := h
    rw [List.map_cons]
    exact List.isChain_cons_cons.mpr ⟨hparent, ih hrest⟩

theorem blocks_ref (bb : Nat → List EventWire) (headers : List CanonicalHeader) :
    (headers.map (blockWire bb)).map BlockWire.ref = headers.map CanonicalHeader.wire := by
  rw [List.map_map]
  rfl

theorem Branched.header_of_entry {reader : ZkIdentityFinalizedRpcReader}
    {issuanceRegistry issuerKeyId : String} {next : Nat} {anchor finalized : CanonicalHeader}
    {headers : List CanonicalHeader} {logs : List ZkIdentityCredentialAllocatedLog}
    {entries : List (Nat × EventWire)}
    (h : Branched viem reader issuanceRegistry issuerKeyId next anchor finalized headers logs
      entries)
    {log : ZkIdentityCredentialAllocatedLog} {header : CanonicalHeader} {e : EventWire}
    (hheader : header ∈ headers)
    (hlog : LogOf viem headers (anchor.number + 1) issuerKeyId log (header.number, e)) :
    header.hash = toLowerCase log.blockHash := by
  obtain ⟨other, hother, hhash⟩ := hlog.header
  obtain ⟨k, hk, rfl⟩ := List.mem_iff_getElem.mp hheader
  have hnumbers := h.branch.numbers
  have hnumber : headers[k].number = anchor.number + 1 + k := by
    have hget := congrArg (·[k]?) hnumbers
    simpa [hk] using hget
  have hindex : headers[k].number - (anchor.number + 1) = k := by omega
  rw [hindex, List.getElem?_eq_getElem hk] at hother
  cases hother
  exact canonicalBytes32_text hhash

theorem Branched.carried {reader : ZkIdentityFinalizedRpcReader}
    {issuanceRegistry issuerKeyId : String} {next : Nat} {anchor finalized : CanonicalHeader}
    {headers : List CanonicalHeader} {logs : List ZkIdentityCredentialAllocatedLog}
    {entries : List (Nat × EventWire)} {bb : Nat → List EventWire}
    (h : Branched viem reader issuanceRegistry issuerKeyId next anchor finalized headers logs
      entries)
    (hfiled : Filed headers issuerKeyId next bb entries) :
    List.Forall₂ (Carried issuerKeyId) logs
      ((headers.map (blockWire bb)).flatMap fun block => block.events.map fun e => (block, e)) := by
  let pairs := headers.flatMap fun header => (bb header.number).map fun e => (header, e)
  have hentries : entries = pairs.map fun p => (p.1.number, p.2) := by
    rw [← hfiled.all, List.map_flatMap]
    simp only [List.map_map]
    rfl
  have hblocks : (headers.map (blockWire bb)).flatMap
      (fun block => block.events.map fun e => (block, e)) =
        pairs.map fun p => (blockWire bb p.1, p.2) := by
    rw [List.map_flatMap, List.flatMap_map]
    simp only [List.map_map]
    rfl
  have hlogs := h.logs
  rw [hentries, List.forall₂_map_right_iff, List.forall₂_iff_zip] at hlogs
  rw [hblocks, List.forall₂_map_right_iff, List.forall₂_iff_zip]
  refine ⟨hlogs.1, fun {log p} hmem => ?_⟩
  have hlog := hlogs.2 hmem
  obtain ⟨header, hheader, hp⟩ := List.mem_flatMap.mp (List.of_mem_zip hmem).2
  obtain ⟨e, he, rfl⟩ := List.mem_map.mp hp
  have hnumber : log.blockNumber = header.number := hlog.block
  refine ⟨⟨by omega, ?_⟩, h.header_of_entry hheader hlog, hlog.logIndex, hlog.statusId,
    (canonicalBytes32_text hlog.issuer).symm, hlog.event⟩
  rw [hnumber]
  rfl

theorem Collected.follows {reader : ZkIdentityFinalizedRpcReader}
    {snapshot : PackedStatusSnapshot} {answer : ZkIdentityFinalizedBlockHeader}
    {finalized : CanonicalHeader} {t : SourceWire}
    (h : Collected viem reader snapshot answer finalized t) :
    Follows reader snapshot finalized t := by
  rcases collectBlocks_ok.mp h.blocks with ⟨hnumber, hhash, hnil⟩ |
    ⟨hlt, -, headers, logs, entries, hbranched, hblocks⟩
  · have hlast : lastRef t.anchor t.blocks = (anchorOf snapshot.source).wire := by
      rw [hnil, ← h.anchor]
      rfl
    refine ⟨h.anchor, ?_, ?_, ?_, ?_, ?_, .inl hnil, ?_, ?_⟩
    · rw [hnil]
      rfl
    · rw [hnil]
      exact .singleton _
    · rw [hnil]
      exact hnumber.symm
    · rw [hlast, hnumber]
      rfl
    · rw [hlast, hhash]
      rfl
    · rw [hnil]
      exact nofun
    · rw [hnil]
      exact Numbered.nil
  · have hfiled := hbranched.filed hlt
    have hcarried := hbranched.carried hfiled
    generalize byBlock entries = bb at hblocks hfiled hcarried
    have hlength : t.blocks.length = headers.length := by rw [hblocks, List.length_map]
    have hnumbers : headers.map CanonicalHeader.number =
        List.range' (snapshot.source.number + 1) headers.length := hbranched.branch.numbers
    have hbranchLength : headers.length = finalized.number - snapshot.source.number :=
      hbranched.length
    have hbehind : snapshot.source.number < finalized.number := hlt
    obtain ⟨last, hlast, hlastNumber, hlastHash⟩ := hbranched.last
    have hlastRef : lastRef t.anchor t.blocks = last.wire := by
      rw [lastRef, hblocks, List.getLast?_map, hlast]
      rfl
    refine ⟨h.anchor, ?_, ?_, ?_, ?_, ?_, .inr ⟨logs, hbranched.answer, ?_⟩, ?_, ?_⟩
    · have hmap : t.blocks.map BlockWire.number =
          (headers.map CanonicalHeader.number).map Nat.repr := by
        rw [hblocks, List.map_map, List.map_map]
        rfl
      rw [hmap, hnumbers, hlength]
    · rw [hblocks, blocks_ref, h.anchor]
      exact hbranched.branch.linked
    · omega
    · rw [hlastRef, ← hlastNumber]
      rfl
    · rw [hlastRef, ← hlastHash]
      rfl
    · rw [hblocks]
      exact hcarried
    · intro block hblock
      rw [hblocks] at hblock
      obtain ⟨header, hheader, rfl⟩ := List.mem_map.mp hblock
      exact hfiled.order header hheader
    · rw [hblocks, List.flatMap_map]
      exact hfiled.dense

end Ubi2.StatusSnapshot
