import Mathlib.Data.List.Chain
import Ubi2.Lib.Numbered
import Ubi2.StatusSnapshot.Format
import Ubi2.StatusSnapshot.Ingestion
import Ubi2.StatusSnapshot.Transparency

namespace Ubi2.StatusSnapshot

open Ubi2.Runtime Ubi2.Lib Ubi2.Lib.Except Sdk PackedStatusSnapshotBuilder

variable {viem : Viem}

theorem flatten_slices {α : Type} (xs : List α) (c n : Nat) :
    ((List.range n).map fun k => (xs.drop (k * c)).take c).flatten = xs.take (n * c) := by
  induction n with
  | zero => simp
  | succ n ih =>
    rw [List.range_succ, List.map_append, List.flatten_append, ih, Nat.succ_mul, List.take_add]
    simp

theorem flatten_batches (numbers : List Nat) : (batches numbers).flatten = numbers := by
  rw [batches, flatten_slices]
  apply List.take_of_length_le
  rw [ZK_IDENTITY_FINALIZED_INGESTION_RPC_CONCURRENCY]
  omega

theorem mapM_flatten {ε α β : Type} {f : α → Except ε β} {xss : List (List α)}
    {ys : List β} :
    (∃ yss, (xss.mapM fun xs => xs.mapM f) = .ok yss ∧ yss.flatten = ys) ↔
      xss.flatten.mapM f = .ok ys := by
  induction xss generalizing ys with
  | nil => simp [pure_eq_ok]
  | cons xs xss ih =>
    simp only [List.mapM_cons, List.flatten_cons, List.mapM_append, bind_eq_ok, pure_eq_ok, ← ih]
    constructor
    · rintro ⟨_, ⟨zs, hzs, yss, hyss, rfl⟩, rfl⟩
      exact ⟨zs, hzs, _, ⟨yss, hyss, rfl⟩, List.flatten_cons.symm⟩
    · rintro ⟨zs, hzs, _, ⟨yss, hyss, rfl⟩, rfl⟩
      exact ⟨zs :: yss, ⟨zs, hzs, yss, hyss, rfl⟩, List.flatten_cons⟩

-- The batches together ask for every block in order.
theorem fetchHeaders_ok {reader : ZkIdentityFinalizedRpcReader} {numbers : List Nat}
    {headers : List CanonicalHeader} :
    fetchHeaders viem reader numbers = .ok headers ↔
      List.Forall₂ (fun n h => fetchHeader viem reader n = .ok h) numbers headers := by
  rw [← mapM_eq_ok, fetchHeaders]
  simp only [bind_eq_ok, Except.ok.injEq, mapM_flatten, flatten_batches]

-- Headers of consecutive blocks, each of which names the one before it as its parent.
def Branch (number : Nat) (parent : String) : List CanonicalHeader → Prop
  | [] => True
  | header :: rest =>
    header.number = number ∧ header.parentHash = parent ∧ Branch (number + 1) header.hash rest

theorem checkBranch_ok {parent : String} {n : Nat} {headers : List CanonicalHeader} :
    checkBranch parent ((List.range' n headers.length).zip headers) = .ok () ↔
      Branch n parent headers := by
  induction headers generalizing n parent with
  | nil => simp [checkBranch, Branch]
  | cons header rest ih =>
    rw [List.length_cons, List.range'_succ, List.zip_cons_cons, checkBranch, check_eq_ok, ih,
      Branch, not_or, not_not, not_not, and_assoc]

-- The block and the event that a log stands for.
structure LogOf (viem : Viem) (headers : List CanonicalHeader) (first : Nat) (issuerKeyId : String)
    (log : ZkIdentityCredentialAllocatedLog) (entry : Nat × EventWire) : Prop where
  block : log.blockNumber = entry.1
  header : ∃ header, headers[entry.1 - first]? = some header ∧
    canonicalBytes32 viem (.str log.blockHash) "packed-status allocation block hash" false =
      .ok header.hash
  logIndex : log.logIndex = .integer entry.2.logIndex
  issuer : canonicalBytes32 viem (.str log.issuerKeyId) "packed-status allocation issuer key id"
    false = .ok issuerKeyId
  statusId : log.statusId = .integer entry.2.statusId
  event : entry.2 = ⟨"credential-allocated", entry.2.logIndex, issuerKeyId, entry.2.statusId, none⟩

-- What a log has to be when the loop accepts it.
structure NextLog (first last : Nat) (s : LogState) (entry : Nat × EventWire) : Prop where
  lower : first ≤ entry.1
  upper : entry.1 ≤ last
  safe : (entry.2.logIndex : Int) ≤ MAX_SAFE_INTEGER
  order : s.previousBlock < entry.1 ∨
    (s.previousBlock = entry.1 ∧ s.previousLogIndex < entry.2.logIndex)
  statusId : (entry.2.statusId : Int) = s.nextStatusId
  positive : 0 < entry.2.statusId
  bound : entry.2.statusId ≤ U32_MAX

def Sdk.LogState.file (s : LogState) (entry : Nat × EventWire) : LogState where
  byBlock := Function.update s.byBlock entry.1 (s.byBlock entry.1 ++ [entry.2])
  nextStatusId := s.nextStatusId + 1
  previousBlock := entry.1
  previousLogIndex := entry.2.logIndex

theorem orderedLogIndex_ok {s : LogState} {first last n : Nat}
    {log : ZkIdentityCredentialAllocatedLog} :
    orderedLogIndex s first last log = .ok n ↔
      log.logIndex = .integer n ∧ (n : Int) ≤ MAX_SAFE_INTEGER ∧ (first : Int) ≤ log.blockNumber ∧
        log.blockNumber ≤ last ∧
        (s.previousBlock < log.blockNumber ∨
          (s.previousBlock = log.blockNumber ∧ s.previousLogIndex < n)) := by
  rw [orderedLogIndex, JsValue.safeInteger.eq_def]
  cases hindex : log.logIndex with
  | integer m =>
    simp only [JsValue.integer.injEq]
    by_cases hsafe : -MAX_SAFE_INTEGER ≤ m ∧ m ≤ MAX_SAFE_INTEGER
    · rw [if_pos hsafe]
      simp only [check_eq_ok, Except.ok.injEq]
      constructor
      · rintro ⟨hchecks, rfl⟩
        omega
      · rintro ⟨rfl, hbound, hlower, hupper, horder⟩
        omega
    · rw [if_neg hsafe]
      constructor
      · intro h
        cases h
      · rintro ⟨rfl, hbound, -⟩
        rw [MAX_SAFE_INTEGER] at hsafe hbound
        omega
  | _ => simp

theorem denseStatusId_ok {v : JsValue} {next : Int} {n : Nat} :
    denseStatusId v next = .ok n ↔
      v = .integer n ∧ (n : Int) = next ∧ 0 < n ∧ n ≤ U32_MAX := by
  rw [denseStatusId.eq_def, U32_MAX]
  split
  · rename_i m
    simp only [check_eq_ok, Except.ok.injEq, JsValue.integer.injEq]
    constructor
    · rintro ⟨hchecks, rfl⟩
      omega
    · rintro ⟨rfl, rfl, hpos, hbound⟩
      omega
  · rename_i hno
    constructor
    · intro h
      cases h
    · rintro ⟨rfl, -⟩
      exact absurd rfl (hno n)

theorem addLog_ok {headers : List CanonicalHeader} {issuerKeyId : String} {first last : Nat}
    {s s' : LogState} {log : ZkIdentityCredentialAllocatedLog} :
    addLog viem headers issuerKeyId first last s log = .ok s' ↔
      ∃ entry, LogOf viem headers first issuerKeyId log entry ∧ NextLog first last s entry ∧
        s' = s.file entry := by
  rw [addLog]
  simp only [bind_eq_ok, orderedLogIndex_ok]
  constructor
  · rintro ⟨blockHash, hblockHash, logIssuer, hissuer, logIndex, ⟨hindex, hsafe, hlower, hupper,
      horder⟩, h⟩
    obtain ⟨block, hblock⟩ := Int.eq_ofNat_of_zero_le (by omega : 0 ≤ log.blockNumber)
    have hoffset : (log.blockNumber - first).toNat = block - first := by omega
    rw [hoffset] at h
    cases hheader : headers[block - first]? with
    | none =>
      rw [hheader] at h
      cases h
    | some header =>
      rw [hheader] at h
      simp only [check_eq_ok, bind_eq_ok, denseStatusId_ok, not_or, not_not] at h
      obtain ⟨⟨hhash, rfl⟩, statusId, ⟨hstatus, hnext, hpos, hbound⟩, h⟩ := h
      cases h
      refine ⟨(block, ⟨"credential-allocated", logIndex, logIssuer, statusId, none⟩), ?_, ?_, ?_⟩
      · exact ⟨hblock, ⟨header, hheader, hhash ▸ hblockHash⟩, hindex, hissuer, hstatus, rfl⟩
      · rw [hblock] at hlower hupper horder
        exact ⟨by omega, by omega, hsafe, horder, hnext, hpos, hbound⟩
      · rw [LogState.file, hblock]
        rfl
  · rintro ⟨⟨block, event⟩, hlog, hnext, rfl⟩
    obtain ⟨header, hheader, hhash⟩ := hlog.header
    have hblock : log.blockNumber = (block : Int) := hlog.block
    have hlower : first ≤ block := hnext.lower
    have hupper : block ≤ last := hnext.upper
    have hoffset : (log.blockNumber - first).toNat = block - first := by omega
    refine ⟨_, hhash, _, hlog.issuer, _, ⟨hlog.logIndex, hnext.safe, ?_, ?_, ?_⟩, ?_⟩
    · omega
    · omega
    · rw [hblock]
      exact hnext.order
    · rw [hoffset, hheader]
      simp only [check_eq_ok, bind_eq_ok, denseStatusId_ok, not_or, not_not]
      refine ⟨⟨trivial, trivial⟩, _, ⟨hlog.statusId, hnext.statusId, hnext.positive, hnext.bound⟩, ?_⟩
      have hevent : event = ⟨_, _, issuerKeyId, _, none⟩ := hlog.event
      rw [← hevent, hblock]
      rfl

def NextLogs (first last : Nat) : LogState → List (Nat × EventWire) → Prop
  | _, [] => True
  | s, entry :: rest => NextLog first last s entry ∧ NextLogs first last (s.file entry) rest

theorem addLogs_ok {headers : List CanonicalHeader} {issuerKeyId : String} {first last : Nat}
    {s s' : LogState} {logs : List ZkIdentityCredentialAllocatedLog} :
    addLogs viem headers issuerKeyId first last s logs = .ok s' ↔
      ∃ entries, List.Forall₂ (LogOf viem headers first issuerKeyId) logs entries ∧
        NextLogs first last s entries ∧ s' = entries.foldl LogState.file s := by
  induction logs generalizing s with
  | nil =>
    rw [addLogs, List.foldlM_nil, pure_eq_ok]
    constructor
    · rintro rfl
      exact ⟨[], .nil, trivial, rfl⟩
    · rintro ⟨_, ⟨⟩, -, rfl⟩
      rfl
  | cons log logs ih =>
    simp only [addLogs] at ih
    rw [addLogs, List.foldlM_cons, bind_eq_ok]
    constructor
    · rintro ⟨s₁, hfirst, hrest⟩
      obtain ⟨entry, hlog, hnext, rfl⟩ := addLog_ok.mp hfirst
      obtain ⟨entries, hlogs, hnexts, rfl⟩ := ih.mp hrest
      exact ⟨entry :: entries, .cons hlog hlogs, ⟨hnext, hnexts⟩, rfl⟩
    · rintro ⟨_, _ | ⟨hlog, hlogs⟩, hnexts, rfl⟩
      exact ⟨_, addLog_ok.mpr ⟨_, hlog, hnexts.1, rfl⟩, ih.mpr ⟨_, hlogs, hnexts.2, rfl⟩⟩

-- The entries of some blocks, in the order of the blocks.
def filed (byBlock : Nat → List EventWire) (numbers : List Nat) : List (Nat × EventWire) :=
  numbers.flatMap fun block => (byBlock block).map fun event => (block, event)

theorem filed_congr {byBlock byBlock' : Nat → List EventWire} {numbers : List Nat}
    (h : ∀ block ∈ numbers, byBlock block = byBlock' block) :
    filed byBlock numbers = filed byBlock' numbers := by
  refine List.flatMap_congr fun block hblock => ?_
  rw [h block hblock]

theorem filed_nil {byBlock : Nat → List EventWire} {numbers : List Nat}
    (h : ∀ block ∈ numbers, byBlock block = []) : filed byBlock numbers = [] := by
  rw [@filed_congr _ (fun _ => []) _ h, filed]
  simp

-- An entry of the last block that has any goes behind all others.
theorem filed_update {byBlock : Nat → List EventWire} {numbers : List Nat}
    (hsorted : numbers.Pairwise (· < ·)) {block : Nat} (hmem : block ∈ numbers)
    (hlast : ∀ later ∈ numbers, block < later → byBlock later = []) (event : EventWire) :
    filed (Function.update byBlock block (byBlock block ++ [event])) numbers =
      filed byBlock numbers ++ [(block, event)] := by
  obtain ⟨before, after, rfl⟩ := List.append_of_mem hmem
  obtain ⟨-, hafter, hcross⟩ := List.pairwise_append.mp hsorted
  rw [List.pairwise_cons] at hafter
  have hother : ∀ c, c ≠ block →
      Function.update byBlock block (byBlock block ++ [event]) c = byBlock c :=
    fun c hc => Function.update_of_ne hc _ _
  have hbefore : filed (Function.update byBlock block (byBlock block ++ [event])) before =
      filed byBlock before := by
    refine filed_congr fun c hc => hother c ?_
    have hlt := hcross c hc block List.mem_cons_self
    omega
  have hempty : ∀ c ∈ after, byBlock c = [] := fun c hc =>
    hlast c (List.mem_append_right _ (List.mem_cons_of_mem _ hc)) (hafter.1 c hc)
  have hempty' : ∀ c ∈ after,
      Function.update byBlock block (byBlock block ++ [event]) c = [] := by
    intro c hc
    have hlt := hafter.1 c hc
    rw [hother c (by omega)]
    exact hempty c hc
  have hsplit : ∀ f : Nat → List EventWire, filed f (before ++ block :: after) =
      filed f before ++ ((f block).map (fun event => (block, event)) ++ filed f after) := by
    intro f
    rw [filed, List.flatMap_append, List.flatMap_cons]
    rfl
  rw [hsplit, hsplit, hbefore, filed_nil hempty, filed_nil hempty', Function.update_self]
  simp

-- Nothing is filed under the blocks that are still to come.
def Sdk.LogState.Fresh (s : LogState) : Prop :=
  ∀ block : Nat, s.previousBlock < block → s.byBlock block = []

theorem filed_foldl {first count : Nat} {s : LogState} {entries : List (Nat × EventWire)}
    (hfresh : s.Fresh) (h : NextLogs first (first + count) s entries) :
    filed (entries.foldl LogState.file s).byBlock (List.range' first (count + 1)) =
      filed s.byBlock (List.range' first (count + 1)) ++ entries := by
  induction entries generalizing s with
  | nil => exact (List.append_nil _).symm
  | cons entry entries ih =>
    obtain ⟨hnext, hrest⟩ := h
    have hlower := hnext.lower
    have hupper := hnext.upper
    have horder := hnext.order
    have hfile : (s.file entry).Fresh := by
      intro block hblock
      have hlt : (entry.1 : Int) < block := hblock
      show Function.update s.byBlock entry.1 _ block = []
      rw [Function.update_of_ne (by omega)]
      exact hfresh block (by omega)
    rw [List.foldl_cons, ih hfile hrest]
    have hupdate : filed (s.file entry).byBlock (List.range' first (count + 1)) =
        filed s.byBlock (List.range' first (count + 1)) ++ [entry] := by
      refine filed_update List.pairwise_lt_range' ?_ ?_ entry.2
      · rw [List.mem_range'_1]
        omega
      · intro later _ hlater
        exact hfresh later (by omega)
    rw [hupdate, List.append_assoc, List.singleton_append]

-- The entries are in the order of their logs, under consecutive status ids.
structure InOrder (first last : Nat) (next : Nat) (entries : List (Nat × EventWire)) : Prop where
  range : ∀ entry ∈ entries, first ≤ entry.1 ∧ entry.1 ≤ last
  order : entries.Pairwise fun a b => a.1 < b.1 ∨ (a.1 = b.1 ∧ a.2.logIndex < b.2.logIndex)
  dense : Numbered next (fun entry => entry.2.statusId) entries
  bound : ∀ entry ∈ entries, entry.2.statusId ≤ U32_MAX

theorem NextLogs.inOrder {first last next : Nat} {s : LogState}
    {entries : List (Nat × EventWire)} (hnext : s.nextStatusId = next)
    (h : NextLogs first last s entries) :
    InOrder first last next entries ∧
      ∀ entry ∈ entries, s.previousBlock < entry.1 ∨
        (s.previousBlock = entry.1 ∧ s.previousLogIndex < entry.2.logIndex) := by
  induction entries generalizing s next with
  | nil => exact ⟨⟨nofun, .nil, .nil, nofun⟩, nofun⟩
  | cons entry entries ih =>
    obtain ⟨hentry, hrest⟩ := h
    have hfile : (s.file entry).nextStatusId = (next + 1 : Nat) := by
      show s.nextStatusId + 1 = _
      omega
    obtain ⟨hinOrder, hlater⟩ := ih hfile hrest
    have hstatusId := hentry.statusId
    have horder := hentry.order
    refine ⟨⟨?_, ?_, ?_, ?_⟩, ?_⟩
    · intro e he
      rcases List.mem_cons.mp he with rfl | he
      · exact ⟨hentry.lower, hentry.upper⟩
      · exact hinOrder.range e he
    · refine List.pairwise_cons.mpr ⟨fun e he => ?_, hinOrder.order⟩
      have hafter : (entry.1 : Int) < e.1 ∨
          ((entry.1 : Int) = e.1 ∧ (entry.2.logIndex : Int) < e.2.logIndex) := hlater e he
      omega
    · exact Numbered.cons_iff.mpr ⟨by omega, hinOrder.dense⟩
    · intro e he
      rcases List.mem_cons.mp he with rfl | he
      · exact hentry.bound
      · exact hinOrder.bound e he
    · intro e he
      rcases List.mem_cons.mp he with rfl | he
      · exact horder
      · have hafter : (entry.1 : Int) < e.1 ∨
            ((entry.1 : Int) = e.1 ∧ (entry.2.logIndex : Int) < e.2.logIndex) := hlater e he
        omega

-- What the collection of a branch comes down to: its headers and the entries of its logs.
structure Branched (viem : Viem) (reader : ZkIdentityFinalizedRpcReader)
    (issuanceRegistry issuerKeyId : String) (next : Nat) (anchor finalized : CanonicalHeader)
    (headers : List CanonicalHeader) (logs : List ZkIdentityCredentialAllocatedLog)
    (entries : List (Nat × EventWire)) : Prop where
  length : headers.length = finalized.number - anchor.number
  fetched : List.Forall₂ (fun n header => fetchHeader viem reader n = .ok header)
    (List.range' (anchor.number + 1) headers.length) headers
  branch : Branch (anchor.number + 1) anchor.hash headers
  last : ∃ header, headers.getLast? = some header ∧ header.number = finalized.number ∧
    header.hash = finalized.hash
  answer : reader.getCredentialAllocatedLogs issuanceRegistry issuerKeyId (anchor.number + 1)
    finalized.number = .ok logs
  logs : List.Forall₂ (LogOf viem headers (anchor.number + 1) issuerKeyId) logs entries
  entries : NextLogs (anchor.number + 1) finalized.number ⟨fun _ => [], next, -1, -1⟩ entries

def byBlock (entries : List (Nat × EventWire)) : Nat → List EventWire :=
  (entries.foldl LogState.file ⟨fun _ => [], 0, -1, -1⟩).byBlock

theorem byBlock_foldl {s t : LogState} (h : s.byBlock = t.byBlock)
    (entries : List (Nat × EventWire)) :
    (entries.foldl LogState.file s).byBlock = (entries.foldl LogState.file t).byBlock := by
  induction entries generalizing s t with
  | nil => exact h
  | cons entry entries ih =>
    refine ih ?_
    rw [LogState.file, LogState.file, h]

theorem byBlock_eq (next : Int) (entries : List (Nat × EventWire)) :
    (entries.foldl LogState.file ⟨fun _ => [], next, -1, -1⟩).byBlock = byBlock entries :=
  byBlock_foldl (s := ⟨fun _ => [], next, -1, -1⟩) (t := ⟨fun _ => [], 0, -1, -1⟩) rfl entries

theorem range_map_add (a n : Nat) :
    (List.range n).map (fun index => a + (index + 1)) = List.range' (a + 1) n := by
  rw [List.range'_eq_map_range]
  refine List.map_congr_left fun k _ => ?_
  omega

theorem collectBranch_ok {reader : ZkIdentityFinalizedRpcReader}
    {issuanceRegistry issuerKeyId : String} {next : Nat} {anchor finalized : CanonicalHeader}
    {blocks : List BlockWire} :
    collectBranch viem reader issuanceRegistry issuerKeyId next anchor finalized = .ok blocks ↔
      ∃ headers logs entries, Branched viem reader issuanceRegistry issuerKeyId next anchor
        finalized headers logs entries ∧ blocks = headers.map (blockWire (byBlock entries)) := by
  rw [collectBranch]
  simp only [range_map_add, bind_eq_ok, fetchHeaders_ok]
  constructor
  · rintro ⟨headers, hfetched, u, hbranch, h⟩
    have hlength : headers.length = finalized.number - anchor.number := by
      rw [← hfetched.length_eq, List.length_range']
    rw [← hlength] at hfetched hbranch
    cases hlast : headers.getLast? with
    | none =>
      rw [hlast] at h
      cases h
    | some last =>
      rw [hlast] at h
      simp only [check_eq_ok, bind_eq_ok, addLogs_ok, not_or, not_not] at h
      obtain ⟨⟨hnumber, hhash⟩, logs, hanswer, s, ⟨entries, hlogs, hentries, rfl⟩, h⟩ := h
      cases h
      refine ⟨headers, logs, entries, ⟨hlength, hfetched, checkBranch_ok.mp hbranch,
        ⟨last, hlast, hnumber, hhash⟩, hanswer, hlogs, hentries⟩, ?_⟩
      rw [byBlock_eq]
  · rintro ⟨headers, logs, entries, h, rfl⟩
    obtain ⟨last, hlast, hnumber, hhash⟩ := h.last
    have hfetched := h.fetched
    have hbranch := checkBranch_ok.mpr h.branch
    rw [h.length] at hfetched hbranch
    refine ⟨headers, hfetched, (), hbranch, ?_⟩
    rw [hlast]
    simp only [check_eq_ok, bind_eq_ok, addLogs_ok, not_or, not_not]
    refine ⟨⟨hnumber, hhash⟩, logs, h.answer, _, ⟨entries, h.logs, h.entries, rfl⟩, ?_⟩
    rw [byBlock_eq]

theorem collectBlocks_ok {reader : ZkIdentityFinalizedRpcReader}
    {issuanceRegistry issuerKeyId : String} {next : Nat} {anchor finalized : CanonicalHeader}
    {blocks : List BlockWire} :
    collectBlocks viem reader issuanceRegistry issuerKeyId next anchor finalized = .ok blocks ↔
      (finalized.number = anchor.number ∧ finalized.hash = anchor.hash ∧ blocks = []) ∨
      (anchor.number < finalized.number ∧
        finalized.number - anchor.number ≤ ZK_IDENTITY_FINALIZED_INGESTION_MAX_BLOCKS ∧
        ∃ headers logs entries, Branched viem reader issuanceRegistry issuerKeyId next anchor
          finalized headers logs entries ∧ blocks = headers.map (blockWire (byBlock entries))) := by
  rw [collectBlocks, ← collectBranch_ok]
  simp only [check_eq_ok]
  by_cases hsame : finalized.number = anchor.number
  · have hmax : finalized.number - anchor.number ≤
        ZK_IDENTITY_FINALIZED_INGESTION_MAX_BLOCKS := by omega
    rw [if_pos hsame, check_eq_ok]
    constructor
    · rintro ⟨-, -, hhash, h⟩
      cases h
      exact .inl ⟨hsame, not_not.mp hhash, rfl⟩
    · rintro (⟨-, hhash, rfl⟩ | ⟨hlt, -⟩)
      · exact ⟨by omega, Nat.not_lt.mpr hmax, not_not.mpr hhash, rfl⟩
      · omega
  · rw [if_neg hsame]
    constructor
    · rintro ⟨hbehind, hmax, h⟩
      exact .inr ⟨by omega, Nat.not_lt.mp hmax, h⟩
    · rintro (⟨heq, -⟩ | ⟨hlt, hmax, h⟩)
      · exact absurd heq hsame
      · exact ⟨by omega, Nat.not_lt.mpr hmax, h⟩

end Ubi2.StatusSnapshot
