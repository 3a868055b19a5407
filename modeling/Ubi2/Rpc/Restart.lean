import Ubi2.Rpc.Persist

namespace Ubi2.Rpc

open Ubi2.Runtime Ubi2.Lib Ubi2.Lib.Encode

-- `char::from_digit` of four bits.
def fromDigit (d : Byte) : Char :=
  if d < 10#8 then Char.ofNat (48 + d.toNat) else Char.ofNat (87 + d.toNat)

def hexEncode (bytes : Bytes) : String :=
  String.ofList (bytes.flatMap fun (b : Byte) => [fromDigit (b >>> 4), fromDigit (b &&& 0x0f#8)])

def hex20 (a : Address) : String := hexEncode (beBytes a)
def hex32 (h : Hash) : String := hexEncode (beBytes h)

-- `to_string` of a number.
def decimal {w : Nat} (v : BitVec w) : String := toString v.toNat

-- The export of a state, in the order of the tables. Tags are those of the state root.
def verdictToDto (v : CanonicalVerdict) : VerdictDto where
  verdict := verdictTag v.verdict
  confidence := confidenceTag v.confidence
  reasonsHash := hex32 v.reasonsHash

def encodeOp (op : Op) : OpDto :=
  match op with
  | .Transfer to_ amount =>
    { tag := 0#8, addr := some (hex20 to_), amount := some (decimal amount) }
  | .Refund party amount =>
    { tag := 1#8, addr := some (hex20 party), amount := some (decimal amount) }
  | .OpenStream to_ rate deposit =>
    { tag := 2#8, addr := some (hex20 to_), rate := some (decimal rate)
      deposit := some (decimal deposit) }
  | .StopStream id => { tag := 3#8, id := some id }
  | .SetVar key value => { tag := 4#8, key := some (hex32 key), value := some (hex32 value) }
  | .Abort reasonHash => { tag := 5#8, key := some (hex32 reasonHash) }

def effectToDto (e : CanonicalEffect) : EffectDto where
  ops := e.ops.map encodeOp
  effectHash := hex32 e.effectHash

def exportAccount (a : Account) : AccountDto where
  address := hex20 a.address
  verified := a.verified
  verifiedAt := a.verifiedAt
  settledBalance := decimal a.settledBalance
  lastSettledAt := a.lastSettledAt
  nonce := a.nonce

def exportStream (s : Stream) : StreamDto where
  id := s.id
  from_ := hex20 s.from_
  to_ := hex20 s.to_
  rate := decimal s.rate
  deposit := decimal s.deposit
  drawn := decimal s.drawn
  startedAt := s.startedAt
  status := (streamStatusTag s.status).1
  stoppedAt := (streamStatusTag s.status).2

def exportHuman (h : Human) : HumanDto where
  address := hex20 h.address
  status := humanStatusTag h.status
  verifiedAt := h.verifiedAt
  livenessRef := hex32 h.livenessRef
  vouchesIn := h.vouchesIn.map hex20
  reputation := h.reputation
  assurance := h.assurance.tag

def exportEdge (e : Edge) : String × String := (hex20 e.1, hex20 e.2)

def exportCase (c : Case) : CaseDto where
  id := c.id
  subject := hex20 c.subject
  challenger := hex20 c.challenger
  kind := caseKindTag c.kind
  evidenceRef := hex32 c.evidenceRef
  jury := c.jury.map hex20
  votes := c.votes.map fun e => (hex20 e.1, verdictToDto e.2)
  status :=
    match c.status with
    | .Open => 0#8
    | .Committed _ => 1#8
    | .Escalated => 2#8
  committed :=
    match c.status with
    | .Committed v => some (verdictToDto v)
    | _ => none
  openedAt := c.openedAt

def exportJuror (j : Juror) : JurorDto where
  address := hex20 j.address
  stake := decimal j.stake
  active := j.active

def exportContract (c : PromptContract) : ContractDto where
  id := c.id
  escrow := decimal c.escrow
  parties := c.parties.map hex20
  text := c.text
  textRef := hex32 c.textRef
  vars := c.sortedVars.map fun e => (hex32 e.1, hex32 e.2)
  status := contractStatusTag c.status
  deployBlock := c.deployBlock
  deployTx := hex32 c.deployTx

def exportExecCase (ec : ExecCase) : ExecCaseDto where
  id := ec.id
  contract := ec.contract
  triggerRef := hex32 ec.triggerRef
  invoker := hex20 ec.invoker
  jury := ec.jury.map hex20
  effects := ec.effects.map fun e => (hex20 e.1, effectToDto e.2)
  status :=
    match ec.status with
    | .Open => 0#8
    | .Committed _ => 1#8
    | .Aborted => 2#8
  committed :=
    match ec.status with
    | .Committed e => some (effectToDto e)
    | _ => none
  openedAt := ec.openedAt
  resolvedAt := ec.resolvedAt

def exportAttributes (e : Address × Commitments) : String × String × String × String :=
  (hex20 e.1, hex32 e.2.1, hex32 e.2.2.1, hex32 e.2.2.2)

def exportCsca (e : CscaEntry) : CscaDto where
  countryCode := hexEncode (beBytes e.countryCode)
  keyId := hex32 e.keyId
  pubkey := hexEncode e.pubkey
  addedAt := e.addedAt
  status := e.status.tag

-- The inactive jurors and the scope of the Self roots are left out.
def exportState (s : MemState) : StateDto where
  accounts := s.ledger.accounts.rows.map exportAccount
  streams := s.ledger.streams.rows.map exportStream
  humans := s.humanity.humans.rows.map exportHuman
  vouchEdges := s.humanity.vouchEdges.map exportEdge
  clearedChallenges := s.humanity.clearedChallenges.rows.map exportEdge
  cases := s.cases.map exportCase
  jurors := (s.activeJurors.filterMap s.humanity.getJuror).map exportJuror
  contracts := s.prompt.contracts.rows.map exportContract
  execCases := s.prompt.execCases.rows.map exportExecCase
  nextStreamId := s.ledger.nextId
  nextCaseId := s.humanity.nextCaseId
  nextContractId := s.prompt.nextContractId
  nextExecCaseId := s.prompt.nextExecCaseId
  nullifiers := s.zk.nullifiers.rows.map hex32
  attributeStore := s.zk.attributeCommitments.rows.map exportAttributes
  csca := s.zk.csca.rows.map exportCsca
  cscaGovernance := s.zk.cscaGovernance.map hex20
  selfIdentityRoots := s.zk.selfIdentityRoots.rows.map fun e => ⟨hex32 e.root, e.pinnedAtBlock⟩
  selfOfacRoots := s.zk.selfOfacRoots.rows.map fun e => ⟨e.kind, hex32 e.root, e.pinnedAtBlock⟩
  epochValidators := s.epochValidators.map hex20

def exportLog (l : TxLog) : TxLogDto where
  address := hex20 l.address
  topics := l.topics.map hex32
  data := hexEncode l.data

def exportTx (tx : StoredTx) : StoredTxDto where
  hash := hex32 tx.hash
  from_ := hex20 tx.from_
  to_ := tx.to_.map hex20
  value := decimal tx.value
  nonce := tx.nonce
  blockNumber := tx.blockNumber
  blockHash := hex32 tx.blockHash
  txIndex := tx.txIndex
  input := hexEncode tx.input
  logs := tx.logs.map exportLog
  gasUsed := tx.gasUsed
  success := tx.success
  revertReason := tx.revertReason
  txType := tx.txType
  maxFeePerGas := tx.maxFeePerGas
  maxPriorityFeePerGas := tx.maxPriorityFeePerGas

def exportBlock (b : Block) : BlockDto where
  number := b.number
  hash := hex32 b.hash
  parentHash := hex32 b.parentHash
  timestamp := b.timestamp
  view := b.view
  txsRoot := hex32 b.txsRoot
  stateRoot := hex32 b.stateRoot
  proposer := hex20 b.proposer
  proposerSig := hexEncode b.proposerSig
  txs := b.txs.map exportTx

def SNAPSHOT_VERSION : U32 := 1#32

-- The indexes that are rebuilt from the blocks, one block after another.
structure Indexes where
  blocksByHash : HashIndex
  txs : Table StoredTx.hash
  addrIndex : AddrIndex

def Indexes.add (x : Indexes) (e : Block × Nat) : Indexes where
  blocksByHash := x.blocksByHash.put (e.1.hash, e.2)
  txs := e.1.txs.foldl Table.put x.txs
  addrIndex := e.1.txs.foldl indexTx x.addrIndex

def Indexes.ofBlocks (blocks : List Block) : Indexes :=
  blocks.zipIdx.foldl Indexes.add ⟨∅, ∅, ∅⟩

theorem mem_foldl_add {l : List (Block × Nat)} {x : Indexes} {e : Hash × Nat}
    (h : e ∈ (l.foldl Indexes.add x).blocksByHash.rows) :
    e ∈ x.blocksByHash.rows ∨ ∃ b, (b, e.2) ∈ l ∧ b.hash = e.1 := by
  induction l generalizing x with
  | nil => exact Or.inl h
  | cons f l ih =>
    rcases ih h with hmem | ⟨b, hb, hhash⟩
    · rcases Table.mem_put.mp hmem with rfl | ⟨hmem, -⟩
      · exact Or.inr ⟨f.1, List.mem_cons_self, rfl⟩
      · exact Or.inl hmem
    · exact Or.inr ⟨b, List.mem_cons_of_mem _ hb, hhash⟩

theorem indexed_ofBlocks {blocks : List Block} {e : Hash × Nat}
    (he : e ∈ (Indexes.ofBlocks blocks).blocksByHash.rows) :
    ∃ h : e.2 < blocks.length, (blocks.get ⟨e.2, h⟩).hash = e.1 := by
  rcases mem_foldl_add he with hmem | ⟨b, hb, hhash⟩
  · cases hmem
  · obtain ⟨hlt, hget⟩ := List.getElem?_eq_some_iff.mp (List.mem_zipIdx_iff_getElem?.mp hb)
    exact ⟨hlt, by rw [← hhash, List.get_eq_getElem, hget]⟩

namespace Chain

def exportSnapshot (chainId genesisTime : U64) (chain : Chain) : ChainSnapshot where
  version := SNAPSHOT_VERSION
  chainId := chainId
  genesisTime := genesisTime
  blocks := chain.inner.blocks.map exportBlock
  state := exportState chain.inner.state

-- Neither the raw transactions nor the mempool are part of what is loaded.
def loadInto (chain : Chain) (state : MemState) (blocks : List Block) (h : blocks ≠ []) :
    Chain :=
  { chain with
    inner :=
      { chain.inner with
        state := state
        blocks := blocks
        blocksByHash := (Indexes.ofBlocks blocks).blocksByHash
        txs := (Indexes.ofBlocks blocks).txs
        addrIndex := (Indexes.ofBlocks blocks).addrIndex
        genesisPresent := h
        indexed := fun _ he => indexed_ofBlocks he } }

-- The key of the node is attached again. `none` is a panic, which without a block is that
-- of the first look at the head.
def fromSnapshot (host : NodeHost) (parseU256 : String → Option U256)
    (proposerKey : Option ProposerKey) (snap : ChainSnapshot) : Option Chain :=
  match importState snap.state, snap.blocks.mapM (importBlock parseU256) with
  | some state, some blocks =>
    if h : blocks ≠ [] then
      some ((Chain.new host proposerKey snap.genesisTime).loadInto state blocks h)
    else none
  | _, _ => none

end Chain

section
variable {parseU256 : String → Option U256} {chain : Chain}

-- The digits of a byte, in UTF-8.
def hexDigits (b : Byte) : Bytes :=
  ([fromDigit (b >>> 4), fromDigit (b &&& 0x0f#8)].flatMap String.utf8EncodeChar).map
    UInt8.toBitVec

theorem strBytes_ofList (cs : List Char) :
    strBytes (String.ofList cs) = (cs.flatMap String.utf8EncodeChar).map UInt8.toBitVec := by
  simp [strBytes, List.utf8Encode]

theorem strBytes_hexEncode (bytes : Bytes) : strBytes (hexEncode bytes) = bytes.flatMap hexDigits := by
  rw [hexEncode, strBytes_ofList, List.flatMap_assoc, List.map_flatMap]
  rfl

-- A byte is written as two digits.
theorem hexDigits_spec : ∀ b : BitVec 8, (hexDigits b).length = 2 ∧ hexPairs (hexDigits b) = [b] := by
  decide +kernel

theorem hexDigits_eq (b : Byte) : ∃ hi lo, hexDigits b = [hi, lo] ∧ hexByte hi lo = b := by
  obtain ⟨hlen, hpairs⟩ := hexDigits_spec b
  obtain ⟨hi, lo, hdigits⟩ := List.length_eq_two.mp hlen
  rw [hdigits] at hpairs
  exact ⟨hi, lo, hdigits, List.singleton_inj.mp hpairs⟩

theorem hexDecodeVec_hexEncode (bytes : Bytes) : hexDecodeVec (hexEncode bytes) = bytes := by
  rw [hexDecodeVec, strBytes_hexEncode]
  induction bytes with
  | nil => rfl
  | cons b bytes ih =>
    obtain ⟨hi, lo, hdigits, hb⟩ := hexDigits_eq b
    rw [List.flatMap_cons, hdigits]
    show hexByte hi lo :: hexPairs (bytes.flatMap hexDigits) = b :: bytes
    rw [hb, ih]

-- What was written reads back.
theorem hexDecodeInto_hexEncode (bytes : Bytes) :
    hexDecodeInto (hexEncode bytes) bytes.length = some bytes := by
  rw [hexDecodeInto, strBytes_hexEncode]
  induction bytes with
  | nil => rfl
  | cons b bytes ih =>
    obtain ⟨hi, lo, hdigits, hb⟩ := hexDigits_eq b
    have hnext : ∀ i, (hi :: lo :: bytes.flatMap hexDigits)[(i + 1) * 2]? =
          (bytes.flatMap hexDigits)[i * 2]? ∧
        (hi :: lo :: bytes.flatMap hexDigits)[(i + 1) * 2 + 1]? =
          (bytes.flatMap hexDigits)[i * 2 + 1]? := by
      intro i
      have hi : (i + 1) * 2 = i * 2 + 1 + 1 := by omega
      have hi' : (i + 1) * 2 + 1 = i * 2 + 1 + 1 + 1 := by omega
      rw [hi', hi]
      simp only [List.getElem?_cons_succ, and_self]
    rw [List.length_cons, List.range_succ_eq_map, List.mapM_cons, List.mapM_map, List.flatMap_cons,
      hdigits]
    simp only [List.cons_append, List.nil_append, Function.comp_def, Nat.succ_eq_add_one, hnext, ih]
    simp [hb]

theorem unhex20_hex20 (a : Address) : unhex20 hexDecodeInto (hex20 a) = some a := by
  have hlen : (beBytes a).length = 20 := length_natBytes _ _
  have hback : Decode.ofBytes (beBytes a) = a.toNat := Decode.ofBytes_natBytes a.isLt
  rw [unhex20, hex20, ← hlen, hexDecodeInto_hexEncode, Option.map_some, hback, BitVec.ofNat_toNat,
    BitVec.setWidth_eq]

theorem unhex32_hex32 (h : Hash) : unhex32 hexDecodeInto (hex32 h) = some h := by
  have hlen : (beBytes h).length = 32 := length_natBytes _ _
  have hback : Decode.ofBytes (beBytes h) = h.toNat := Decode.ofBytes_natBytes h.isLt
  rw [unhex32, hex32, ← hlen, hexDecodeInto_hexEncode, Option.map_some, hback, BitVec.ofNat_toNat,
    BitVec.setWidth_eq]

theorem importLog_exportLog (l : TxLog) : importLog (exportLog l) = some l := by
  rw [importLog, exportLog]
  simp only [unhex20_hex20, mapM_map_of_inverse unhex32_hex32, hexDecodeVec_hexEncode]
  rfl

theorem importTx_exportTx (hparse : ∀ v : U256, parseU256 (decimal v) = some v) (tx : StoredTx) :
    importTx parseU256 (exportTx tx) = some tx := by
  have hto : (tx.to_.map hex20).mapM (unhex20 hexDecodeInto) = some tx.to_ := by
    cases tx.to_ with
    | none => rfl
    | some a => simp [unhex20_hex20]
  rw [importTx, exportTx]
  simp only [unhex32_hex32, unhex20_hex20, hto, mapM_map_of_inverse importLog_exportLog, hparse,
    hexDecodeVec_hexEncode]
  rfl

theorem importBlock_exportBlock (hparse : ∀ v : U256, parseU256 (decimal v) = some v) (b : Block) :
    importBlock parseU256 (exportBlock b) = some b := by
  rw [importBlock, exportBlock]
  simp only [unhex32_hex32, unhex20_hex20, mapM_map_of_inverse (importTx_exportTx hparse),
    hexDecodeVec_hexEncode]
  rfl

theorem length_strBytes_hexEncode (bytes : Bytes) :
    (strBytes (hexEncode bytes)).length = 2 * bytes.length := by
  rw [strBytes_hexEncode]
  induction bytes with
  | nil => rfl
  | cons b bytes ih =>
    rw [List.flatMap_cons, List.length_append, ih, (hexDigits_spec b).1, List.length_cons]
    omega

theorem fits_hex20 (a : Address) : Fits (hex20 a) 20 := by
  rw [Fits, hex20, length_strBytes_hexEncode, beBytes, length_natBytes]

theorem fits_hex32 (h : Hash) : Fits (hex32 h) 32 := by
  rw [Fits, hex32, length_strBytes_hexEncode, beBytes, length_natBytes]

theorem fits_map_hex20 (l : List Address) : ∀ a ∈ l.map hex20, Fits a 20 :=
  List.forall_mem_map.mpr fun a _ => fits_hex20 a

theorem readable_encodeOp (op : Op) : (encodeOp op).Readable Fits := by
  cases op <;> simp [OpDto.Readable, encodeOp, fits_hex20, fits_hex32]

theorem readable_effectToDto (e : CanonicalEffect) : (effectToDto e).Readable Fits :=
  List.forall_mem_map.mpr fun op _ => readable_encodeOp op

theorem readable_exportCase (c : Case) : (exportCase c).Readable Fits := by
  refine ⟨fits_hex20 _, fits_hex20 _, fits_hex32 _, fits_map_hex20 _,
    List.forall_mem_map.mpr fun _ _ => ⟨fits_hex20 _, fits_hex32 _⟩, ?_⟩
  cases hs : c.status with
  | Open => simp [exportCase, hs]
  | Committed v =>
    intro _
    refine ⟨verdictToDto v, ?_, fits_hex32 _⟩
    simp [exportCase, hs]
  | Escalated => simp [exportCase, hs]

theorem readable_exportExecCase (ec : ExecCase) : (exportExecCase ec).Readable Fits := by
  refine ⟨fits_hex32 _, fits_hex20 _, fits_map_hex20 _,
    List.forall_mem_map.mpr fun _ _ => ⟨fits_hex20 _, readable_effectToDto _⟩, ?_⟩
  cases hs : ec.status with
  | Open => simp [exportExecCase, hs]
  | Committed e =>
    intro _
    refine ⟨effectToDto e, ?_, readable_effectToDto e⟩
    simp [exportExecCase, hs]
  | Aborted => simp [exportExecCase, hs]

theorem readable_exportContract (c : PromptContract) : (exportContract c).Readable Fits :=
  ⟨fits_hex32 _, fits_map_hex20 _, fits_hex32 _,
    List.forall_mem_map.mpr fun _ _ => ⟨fits_hex32 _, fits_hex32 _⟩⟩

-- What is exported of a state can be imported.
theorem readable_exportState (s : MemState) : (exportState s).Readable Fits where
  accounts := List.forall_mem_map.mpr fun _ _ => fits_hex20 _
  streams := List.forall_mem_map.mpr fun _ _ => ⟨fits_hex20 _, fits_hex20 _⟩
  humans := List.forall_mem_map.mpr fun _ _ => ⟨fits_hex20 _, fits_hex32 _, fits_map_hex20 _⟩
  vouchEdges := List.forall_mem_map.mpr fun _ _ => ⟨fits_hex20 _, fits_hex20 _⟩
  clearedChallenges := List.forall_mem_map.mpr fun _ _ => ⟨fits_hex20 _, fits_hex20 _⟩
  cases := List.forall_mem_map.mpr fun c _ => readable_exportCase c
  jurors := List.forall_mem_map.mpr fun _ _ => fits_hex20 _
  contracts := List.forall_mem_map.mpr fun c _ => readable_exportContract c
  execCases := List.forall_mem_map.mpr fun ec _ => readable_exportExecCase ec
  nullifiers := List.forall_mem_map.mpr fun _ _ => fits_hex32 _
  attributeStore := List.forall_mem_map.mpr fun _ _ =>
    ⟨fits_hex20 _, fits_hex32 _, fits_hex32 _, fits_hex32 _⟩
  csca := by
    refine List.forall_mem_map.mpr fun e _ => ⟨?_, fits_hex32 _⟩
    show 6 ≤ (strBytes (hexEncode (beBytes e.countryCode))).length
    rw [length_strBytes_hexEncode, beBytes, length_natBytes]
  cscaGovernance := by
    intro a ha
    obtain ⟨b, -, rfl⟩ := Option.map_eq_some_iff.mp ha
    exact fits_hex20 b
  selfIdentityRoots := List.forall_mem_map.mpr fun _ _ => fits_hex32 _
  selfOfacRoots := List.forall_mem_map.mpr fun _ _ => fits_hex32 _
  epochValidators := fits_map_hex20 _

theorem exists_imported (s : MemState) : ∃ s', importState (exportState s) = some s' :=
  Option.isSome_iff_exists.mp ((isSome_importState _).mpr (readable_exportState s))

-- A restart keeps the blocks and what the export keeps of the state, and nothing else.
theorem fromSnapshot_exportSnapshot (hparse : ∀ v : U256, parseU256 (decimal v) = some v)
    (host : NodeHost) (proposerKey : Option ProposerKey) (chainId genesisTime : U64)
    {s : MemState} (hstate : importState (exportState chain.inner.state) = some s) :
    Chain.fromSnapshot host parseU256 proposerKey (chain.exportSnapshot chainId genesisTime) =
      some ((Chain.new host proposerKey genesisTime).loadInto s chain.inner.blocks
        chain.inner.genesisPresent) := by
  simp only [Chain.fromSnapshot, Chain.exportSnapshot, hstate,
    mapM_map_of_inverse (importBlock_exportBlock hparse), dif_pos chain.inner.genesisPresent]

end

end Ubi2.Rpc
