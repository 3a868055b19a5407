import Ubi2.Lib.Partial
import Ubi2.Rpc.Execute
import Mathlib.Tactic.MkIffOfInductiveProp

namespace Ubi2.Rpc

open Ubi2.Runtime Ubi2.Lib Ubi2.Lib.Encode

-- The records of a snapshot, as they are read from JSON: byte strings are in hex, 128-bit
-- numbers in decimal.
structure AccountDto where
  address : String
  verified : Bool
  verifiedAt : U64
  settledBalance : String
  lastSettledAt : U64
  nonce : U64

structure StreamDto where
  id : StreamId
  from_ : String
  to_ : String
  rate : String
  deposit : String
  drawn : String
  startedAt : U64
  status : U8
  stoppedAt : U64

structure VerdictDto where
  verdict : U8
  confidence : U8
  reasonsHash : String

structure HumanDto where
  address : String
  status : U8
  verifiedAt : U64
  livenessRef : String
  vouchesIn : List String
  reputation : I64
  assurance : U8 := 0#8

structure CscaDto where
  countryCode : String
  keyId : String
  pubkey : String
  addedAt : U64
  status : U8

structure SelfIdentityRootDto where
  root : String
  pinnedAtBlock : U64

structure SelfOfacRootDto where
  kind : U8
  root : String
  pinnedAtBlock : U64

structure CaseDto where
  id : CaseId
  subject : String
  challenger : String
  kind : U8
  evidenceRef : String
  jury : List String
  votes : List (String × VerdictDto)
  status : U8
  committed : Option VerdictDto
  openedAt : U64

structure JurorDto where
  address : String
  stake : String
  active : Bool

structure OpDto where
  tag : U8
  addr : Option String := none
  amount : Option String := none
  rate : Option String := none
  deposit : Option String := none
  id : Option StreamId := none
  key : Option String := none
  value : Option String := none

structure EffectDto where
  ops : List OpDto
  effectHash : String

structure ContractDto where
  id : ContractId
  escrow : String
  parties : List String
  text : String
  textRef : String
  vars : List (String × String)
  status : U8
  deployBlock : U64
  deployTx : String

structure ExecCaseDto where
  id : ExecCaseId
  contract : ContractId
  triggerRef : String
  invoker : String
  jury : List String
  effects : List (String × EffectDto)
  status : U8
  committed : Option EffectDto
  openedAt : U64
  resolvedAt : Option U64

structure TxLogDto where
  address : String
  topics : List String
  data : String

structure StoredTxDto where
  hash : String
  from_ : String
  to_ : Option String
  value : String
  nonce : U64
  blockNumber : Nat
  blockHash : String
  txIndex : Nat
  input : String
  logs : List TxLogDto
  gasUsed : U64
  success : Bool
  revertReason : Option String
  txType : U8 := 0#8
  maxFeePerGas : Option U128 := none
  maxPriorityFeePerGas : Option U128 := none

structure BlockDto where
  number : Nat
  hash : String
  parentHash : String
  timestamp : U64
  view : U32 := 0#32
  txsRoot : String
  stateRoot : String
  proposer : String
  proposerSig : String
  txs : List StoredTxDto

-- The fields with a default may be missing from the JSON.
structure StateDto where
  accounts : List AccountDto
  streams : List StreamDto
  humans : List HumanDto
  vouchEdges : List (String × String)
  clearedChallenges : List (String × String)
  cases : List CaseDto
  jurors : List JurorDto
  contracts : List ContractDto
  execCases : List ExecCaseDto
  nextStreamId : StreamId
  nextCaseId : CaseId
  nextContractId : ContractId
  nextExecCaseId : ExecCaseId
  nullifiers : List String := []
  attributeStore : List (String × String × String × String) := []
  csca : List CscaDto := []
  cscaGovernance : Option String := none
  selfIdentityRoots : List SelfIdentityRootDto := []
  selfOfacRoots : List SelfOfacRootDto := []
  epochValidators : List String := []

structure ChainSnapshot where
  version : U32
  chainId : U64
  genesisTime : U64
  blocks : List BlockDto
  state : StateDto

-- `char::to_digit(16)` of a byte.
def toDigit (b : Byte) : Option Byte :=
  if 48#8 ≤ b ∧ b ≤ 57#8 then some (b - 48#8)
  else if 97#8 ≤ b ∧ b ≤ 102#8 then some (b - 87#8)
  else if 65#8 ≤ b ∧ b ≤ 70#8 then some (b - 55#8)
  else none

-- What is no digit counts as zero.
def hexByte (hi lo : Byte) : Byte := (toDigit hi).getD 0#8 <<< 4 ||| (toDigit lo).getD 0#8

-- Reads so many bytes from a hex string. `none` is a panic.
abbrev HexReader := String → Nat → Option Bytes

-- The digits of each byte are indexed, which panics beyond the end of the string.
def hexDecodeInto : HexReader := fun s n =>
  (List.range n).mapM fun i => do
    let hi ← (strBytes s)[i * 2]?
    let lo ← (strBytes s)[i * 2 + 1]?
    pure (hexByte hi lo)

def hexPairs : Bytes → Bytes
  | hi :: lo :: rest => hexByte hi lo :: hexPairs rest
  | _ => []

def hexDecodeVec (s : String) : Bytes := hexPairs (strBytes s)

-- `str::parse` to `u128`: decimal digits behind an optional plus sign, without overflow.
def parseDecimal (s : String) : Option U128 :=
  let digits :=
    match strBytes s with
    | 43#8 :: digits => digits
    | digits => digits
  if digits = [] then none
  else
    (digits.foldlM (fun (acc : Nat) d =>
      if 48#8 ≤ d ∧ d ≤ 57#8 ∧ acc * 10 + (d.toNat - 48) < 2 ^ 128 then
        some (acc * 10 + (d.toNat - 48))
      else none) 0).map (BitVec.ofNat 128)

def parseU128 (s : String) : U128 := (parseDecimal s).getD 0#128

-- The import of a state. The server and the light client have the same one, over their own
-- reader of hex.
section
variable (hex : HexReader)

def unhex20 (s : String) : Option Address :=
  (hex s 20).map fun b => BitVec.ofNat 160 (Decode.ofBytes b)

def unhex32 (s : String) : Option Hash :=
  (hex s 32).map fun b => BitVec.ofNat 256 (Decode.ofBytes b)

def dtoToVerdict (d : VerdictDto) : Option CanonicalVerdict :=
  let verdict :=
    if d.verdict = 0#8 then Verdict.Human
    else if d.verdict = 1#8 then Verdict.Sybil
    else Verdict.Uncertain
  let confidence :=
    if d.confidence = 0#8 then Confidence.Low
    else if d.confidence = 1#8 then Confidence.Med
    else Confidence.High
  (unhex32 hex d.reasonsHash).map fun reasonsHash =>
    { CanonicalVerdict.new verdict confidence with reasonsHash := reasonsHash }

def decodeOp (d : OpDto) : Option Op :=
  if d.tag = 0#8 then
    (unhex20 hex (d.addr.getD "")).map (.Transfer · (parseU128 (d.amount.getD "0")))
  else if d.tag = 1#8 then
    (unhex20 hex (d.addr.getD "")).map (.Refund · (parseU128 (d.amount.getD "0")))
  else if d.tag = 2#8 then
    (unhex20 hex (d.addr.getD "")).map
      (.OpenStream · (parseU128 (d.rate.getD "0")) (parseU128 (d.deposit.getD "0")))
  else if d.tag = 3#8 then some (.StopStream (d.id.getD 0))
  else if d.tag = 4#8 then do
    let key ← unhex32 hex (d.key.getD "")
    let value ← unhex32 hex (d.value.getD "")
    pure (.SetVar key value)
  else (unhex32 hex (d.key.getD "")).map .Abort

-- The recorded hash is not read: it is computed again from the operations.
def dtoToEffect (d : EffectDto) : Option CanonicalEffect :=
  (d.ops.mapM (decodeOp hex)).map CanonicalEffect.new

def importAccount (a : AccountDto) : Option Account := do
  let address ← unhex20 hex a.address
  pure
    { address := address
      verified := a.verified
      verifiedAt := a.verifiedAt
      settledBalance := parseU128 a.settledBalance
      lastSettledAt := a.lastSettledAt
      nonce := a.nonce }

def importStream (st : StreamDto) : Option Stream := do
  let from_ ← unhex20 hex st.from_
  let to_ ← unhex20 hex st.to_
  pure
    { id := st.id
      from_ := from_
      to_ := to_
      rate := parseU128 st.rate
      deposit := parseU128 st.deposit
      drawn := parseU128 st.drawn
      startedAt := st.startedAt
      status :=
        if st.status = 0#8 then .Active
        else if st.status = 1#8 then .Stopped st.stoppedAt
        else .Completed }

def importHuman (h : HumanDto) : Option Human := do
  let address ← unhex20 hex h.address
  let livenessRef ← unhex32 hex h.livenessRef
  let vouchesIn ← h.vouchesIn.mapM (unhex20 hex)
  pure
    { address := address
      status :=
        if h.status = 0#8 then .Unverified
        else if h.status = 1#8 then .Pending
        else if h.status = 2#8 then .Verified
        else if h.status = 3#8 then .Challenged
        else .Revoked
      verifiedAt := h.verifiedAt
      livenessRef := livenessRef
      vouchesIn := vouchesIn
      reputation := h.reputation
      assurance :=
        if h.assurance = 1#8 then .Enh else if h.assurance = 2#8 then .Dual else .Std }

def importPair (e : String × String) : Option (Address × Address) := do
  let a ← unhex20 hex e.1
  let b ← unhex20 hex e.2
  pure (a, b)

def importVote (e : String × VerdictDto) : Option (Address × CanonicalVerdict) := do
  let juror ← unhex20 hex e.1
  let verdict ← dtoToVerdict hex e.2
  pure (juror, verdict)

-- A verdict that is said to be committed has to be there.
def importCaseStatus (status : U8) (committed : Option VerdictDto) : Option CaseStatus :=
  if status = 1#8 then (committed.bind (dtoToVerdict hex)).map .Committed
  else if status = 2#8 then some .Escalated
  else some .Open

def importCase (c : CaseDto) : Option Case := do
  let subject ← unhex20 hex c.subject
  let challenger ← unhex20 hex c.challenger
  let evidenceRef ← unhex32 hex c.evidenceRef
  let jury ← c.jury.mapM (unhex20 hex)
  let votes ← c.votes.mapM (importVote hex)
  let status ← importCaseStatus hex c.status c.committed
  pure
    { id := c.id
      subject := subject
      challenger := challenger
      kind := if c.kind = 0#8 then .Registration else .Challenge
      evidenceRef := evidenceRef
      jury := jury
      votes := votes
      status := status
      openedAt := c.openedAt }

def importJuror (j : JurorDto) : Option Juror := do
  let address ← unhex20 hex j.address
  pure { address := address, stake := parseU128 j.stake, active := j.active }

def importVar (e : String × String) : Option (Hash × Hash) := do
  let key ← unhex32 hex e.1
  let value ← unhex32 hex e.2
  pure (key, value)

def importContract (c : ContractDto) : Option PromptContract := do
  let textRef ← unhex32 hex c.textRef
  let parties ← c.parties.mapM (unhex20 hex)
  let deployTx ← unhex32 hex c.deployTx
  let vars ← c.vars.mapM (importVar hex)
  pure
    { PromptContract.new c.id c.text textRef parties with
      escrow := parseU128 c.escrow
      status := if c.status = 1#8 then .Terminated else .Active
      deployBlock := c.deployBlock
      deployTx := deployTx
      vars := vars.foldl Table.put ∅ }

def importEffect (e : String × EffectDto) : Option (Address × CanonicalEffect) := do
  let interpreter ← unhex20 hex e.1
  let effect ← dtoToEffect hex e.2
  pure (interpreter, effect)

-- An effect that is said to be committed has to be there.
def importExecStatus (status : U8) (committed : Option EffectDto) : Option ExecStatus :=
  if status = 1#8 then (committed.bind (dtoToEffect hex)).map .Committed
  else if status = 2#8 then some .Aborted
  else some .Open

def importExecCase (ec : ExecCaseDto) : Option ExecCase := do
  let triggerRef ← unhex32 hex ec.triggerRef
  let invoker ← unhex20 hex ec.invoker
  let jury ← ec.jury.mapM (unhex20 hex)
  let effects ← ec.effects.mapM (importEffect hex)
  let status ← importExecStatus hex ec.status ec.committed
  pure
    { id := ec.id
      contract := ec.contract
      triggerRef := triggerRef
      invoker := invoker
      jury := jury
      effects := effects
      status := status
      openedAt := ec.openedAt
      resolvedAt := ec.resolvedAt }

def importAttributes (e : String × String × String × String) :
    Option (Address × Commitments) := do
  let addr ← unhex20 hex e.1
  let first ← unhex32 hex e.2.1
  let second ← unhex32 hex e.2.2.1
  let third ← unhex32 hex e.2.2.2
  pure (addr, first, second, third)

-- `copy_from_slice` panics unless both sides have one length.
def copyCountryCode (cc : Bytes) : Option (BitVec 24) :=
  let src := cc.take (min 3 cc.length)
  if src.length = 3 then some (BitVec.ofNat 24 (Decode.ofBytes src)) else none

def importCsca (e : CscaDto) : Option CscaEntry := do
  let countryCode ← copyCountryCode (hexDecodeVec e.countryCode)
  let keyId ← unhex32 hex e.keyId
  pure
    { CscaEntry.active countryCode keyId (hexDecodeVec e.pubkey) e.addedAt with
      status := if e.status = 1#8 then .Revoked else .Active }

def importSelfIdentityRoot (e : SelfIdentityRootDto) : Option SelfIdentityRoot := do
  let root ← unhex32 hex e.root
  pure { root := root, pinnedAtBlock := e.pinnedAtBlock }

def importSelfOfacRoot (e : SelfOfacRootDto) : Option SelfOfacRoot := do
  let root ← unhex32 hex e.root
  pure { kind := e.kind, root := root, pinnedAtBlock := e.pinnedAtBlock }

-- The records of one kind go into the store one after another.
def importInto {δ ρ σ : Type} (decode : δ → Option ρ) (put : σ → ρ → σ) (records : List δ)
    (s : σ) : Option σ :=
  records.foldlM (fun s d => (decode d).map (put s)) s

def importLedger (dto : StateDto) : Option Ledger := do
  let l ← importInto (importAccount hex) Ledger.put dto.accounts {}
  let l ← importInto (importStream hex) Ledger.putStream dto.streams l
  pure { l with nextId := dto.nextStreamId }

def importHumanity (dto : StateDto) : Option HumanRegistry := do
  let r ← importInto (importHuman hex) HumanRegistry.putHuman dto.humans {}
  let r ← importInto (importPair hex)
    (fun r e => r.putVouch { voucher := e.1, vouchee := e.2, at_ := 0#64 }) dto.vouchEdges r
  let r ← importInto (importPair hex) (fun r e => r.recordChallengeCleared e.1 e.2)
    dto.clearedChallenges r
  let r ← importInto (importCase hex) HumanRegistry.putCase dto.cases r
  let r ← importInto (importJuror hex) HumanRegistry.putJuror dto.jurors r
  pure { r with nextCaseId := dto.nextCaseId }

def importPrompt (dto : StateDto) : Option ContractRegistry := do
  let r ← importInto (importContract hex) ContractRegistry.putContract dto.contracts {}
  let r ← importInto (importExecCase hex) ContractRegistry.putExecCase dto.execCases r
  pure { r with nextContractId := dto.nextContractId, nextExecCaseId := dto.nextExecCaseId }

def importZk (dto : StateDto) : Option ZkRegistry := do
  let nullifiers ← importInto (unhex32 hex) Table.put dto.nullifiers ∅
  let attributes ← importInto (importAttributes hex) Table.put dto.attributeStore ∅
  let csca ← importInto (importCsca hex) Table.put dto.csca ∅
  let governance ← dto.cscaGovernance.mapM (unhex20 hex)
  let identityRoots ← importInto (importSelfIdentityRoot hex) Table.put dto.selfIdentityRoots ∅
  let ofacRoots ← importInto (importSelfOfacRoot hex) Table.put dto.selfOfacRoots ∅
  pure
    { nullifiers := nullifiers
      attributeCommitments := attributes
      csca := csca
      cscaGovernance := governance
      selfIdentityRoots := identityRoots
      selfOfacRoots := ofacRoots }

def importStateWith (dto : StateDto) : Option MemState := do
  let ledger ← importLedger hex dto
  let humanity ← importHumanity hex dto
  let prompt ← importPrompt hex dto
  let zk ← importZk hex dto
  let validators ← dto.epochValidators.mapM (unhex20 hex)
  pure
    (MemState.setEpochValidators
      { ledger := ledger, humanity := humanity, prompt := prompt, zk := zk } validators)

end

-- `none` is a panic.
def importState (dto : StateDto) : Option MemState := importStateWith hexDecodeInto dto

-- The value of a transaction is parsed by the library of 256-bit words.
section
variable (host : NodeHost) (parseU256 : String → Option U256)

def importLog (l : TxLogDto) : Option TxLog := do
  let address ← unhex20 hexDecodeInto l.address
  let topics ← l.topics.mapM (unhex32 hexDecodeInto)
  pure { address := address, topics := topics, data := hexDecodeVec l.data }

def importTx (dto : StoredTxDto) : Option StoredTx := do
  let hash ← unhex32 hexDecodeInto dto.hash
  let from_ ← unhex20 hexDecodeInto dto.from_
  let to_ ← dto.to_.mapM (unhex20 hexDecodeInto)
  let blockHash ← unhex32 hexDecodeInto dto.blockHash
  let logs ← dto.logs.mapM importLog
  pure
    { hash := hash
      from_ := from_
      to_ := to_
      value := (parseU256 dto.value).getD 0#256
      nonce := dto.nonce
      blockNumber := dto.blockNumber
      blockHash := blockHash
      txIndex := dto.txIndex
      input := hexDecodeVec dto.input
      logs := logs
      gasUsed := dto.gasUsed
      success := dto.success
      revertReason := dto.revertReason
      txType := dto.txType
      maxFeePerGas := dto.maxFeePerGas
      maxPriorityFeePerGas := dto.maxPriorityFeePerGas }

def importBlock (dto : BlockDto) : Option Block := do
  let hash ← unhex32 hexDecodeInto dto.hash
  let parentHash ← unhex32 hexDecodeInto dto.parentHash
  let txsRoot ← unhex32 hexDecodeInto dto.txsRoot
  let root ← unhex32 hexDecodeInto dto.stateRoot
  let proposer ← unhex20 hexDecodeInto dto.proposer
  let txs ← dto.txs.mapM (importTx parseU256)
  pure
    { number := dto.number
      hash := hash
      parentHash := parentHash
      timestamp := dto.timestamp
      view := dto.view
      txsRoot := txsRoot
      stateRoot := root
      proposer := proposer
      proposerSig := hexDecodeVec dto.proposerSig
      txs := txs }

inductive SnapshotError where
  | BadGenesis
  | BlockHashMismatch (number : Nat)
  | BrokenChain (number : Nat)
  | StateRootMismatch (expected got : Hash)
deriving DecidableEq

-- Each block has the hash of its header and is linked to the one before it, of which the
-- number and the hash are passed on. Numbers count up from genesis, so the next one is
-- never out of range.
def verifyBlocks : Option (Nat × Hash) → List BlockDto → Option (Except SnapshotError Unit)
  | _, [] => some (.ok ())
  | prev, dto :: dtos =>
    match importBlock parseU256 dto with
    | none => none
    | some b =>
      if computeHash host b.number b.parentHash b.timestamp b.view b.txsRoot b.stateRoot
          b.proposer ≠ b.hash then
        some (.error (.BlockHashMismatch b.number))
      else if ∃ p ∈ prev, b.number ≠ p.1 + 1 ∨ b.parentHash ≠ p.2 then
        some (.error (.BrokenChain b.number))
      else verifyBlocks (some (b.number, b.hash)) dtos

-- The state of a snapshot has the root that its last block commits to.
def verifyState (snap : ChainSnapshot) : Option (Except SnapshotError Unit) := do
  let tip ← snap.blocks.getLast?
  let tipRoot ← unhex32 hexDecodeInto tip.stateRoot
  let state ← importState snap.state
  pure (if stateRoot state ≠ tipRoot then .error (.StateRootMismatch tipRoot (stateRoot state))
    else .ok ())

def ChainSnapshot.verify (snap : ChainSnapshot) : Option (Except SnapshotError Unit) :=
  if snap.blocks.head?.map BlockDto.number ≠ some 0 then some (.error .BadGenesis)
  else
    match verifyBlocks host parseU256 none snap.blocks with
    | none => none
    | some (.error e) => some (.error e)
    | some (.ok _) => verifyState snap

-- The snapshot in the data directory.
inductive SnapshotFile where
  | Missing
  | Unreadable
  | Contents (bytes : Bytes)

inductive LoadError where
  | Io
  | Json (message : String)
  | InvalidData (e : SnapshotError)

-- `parse` reads the JSON. `none` is a panic.
def load (parse : Bytes → Except String ChainSnapshot) :
    SnapshotFile → Option (Except LoadError (Option ChainSnapshot))
  | .Missing => some (.ok none)
  | .Unreadable => some (.error .Io)
  | .Contents bytes =>
    match parse bytes with
    | .error message => some (.error (.Json message))
    | .ok snap =>
      (snap.verify host parseU256).map fun r =>
        match r with
        | .error e => .error (.InvalidData e)
        | .ok _ => .ok (some snap)

end

-- What a record must be for its import not to panic, over what a hex string must be for so
-- many bytes of it to be read.
section
variable (fits : String → Nat → Prop)

def OpDto.Readable (d : OpDto) : Prop :=
  if d.tag = 0#8 ∨ d.tag = 1#8 ∨ d.tag = 2#8 then fits (d.addr.getD "") 20
  else if d.tag = 3#8 then True
  else if d.tag = 4#8 then fits (d.key.getD "") 32 ∧ fits (d.value.getD "") 32
  else fits (d.key.getD "") 32

def EffectDto.Readable (d : EffectDto) : Prop := ∀ op ∈ d.ops, op.Readable fits

@[mk_iff] structure CaseDto.Readable (c : CaseDto) : Prop where
  subject : fits c.subject 20
  challenger : fits c.challenger 20
  evidenceRef : fits c.evidenceRef 32
  jury : ∀ a ∈ c.jury, fits a 20
  votes : ∀ e ∈ c.votes, fits e.1 20 ∧ fits e.2.reasonsHash 32
  committed : c.status = 1#8 → ∃ v ∈ c.committed, fits v.reasonsHash 32

@[mk_iff] structure ExecCaseDto.Readable (ec : ExecCaseDto) : Prop where
  triggerRef : fits ec.triggerRef 32
  invoker : fits ec.invoker 20
  jury : ∀ a ∈ ec.jury, fits a 20
  effects : ∀ e ∈ ec.effects, fits e.1 20 ∧ e.2.Readable fits
  committed : ec.status = 1#8 → ∃ e ∈ ec.committed, e.Readable fits

@[mk_iff] structure ContractDto.Readable (c : ContractDto) : Prop where
  textRef : fits c.textRef 32
  parties : ∀ a ∈ c.parties, fits a 20
  deployTx : fits c.deployTx 32
  vars : ∀ e ∈ c.vars, fits e.1 32 ∧ fits e.2 32

@[mk_iff] structure HumanDto.Readable (h : HumanDto) : Prop where
  address : fits h.address 20
  livenessRef : fits h.livenessRef 32
  vouchesIn : ∀ a ∈ h.vouchesIn, fits a 20

-- A country code is three bytes, or longer.
@[mk_iff] structure StateDto.Readable (dto : StateDto) : Prop where
  accounts : ∀ a ∈ dto.accounts, fits a.address 20
  streams : ∀ st ∈ dto.streams, fits st.from_ 20 ∧ fits st.to_ 20
  humans : ∀ h ∈ dto.humans, h.Readable fits
  vouchEdges : ∀ e ∈ dto.vouchEdges, fits e.1 20 ∧ fits e.2 20
  clearedChallenges : ∀ e ∈ dto.clearedChallenges, fits e.1 20 ∧ fits e.2 20
  cases : ∀ c ∈ dto.cases, c.Readable fits
  jurors : ∀ j ∈ dto.jurors, fits j.address 20
  contracts : ∀ c ∈ dto.contracts, c.Readable fits
  execCases : ∀ ec ∈ dto.execCases, ec.Readable fits
  nullifiers : ∀ n ∈ dto.nullifiers, fits n 32
  attributeStore : ∀ e ∈ dto.attributeStore,
    fits e.1 20 ∧ fits e.2.1 32 ∧ fits e.2.2.1 32 ∧ fits e.2.2.2 32
  csca : ∀ e ∈ dto.csca, 6 ≤ (strBytes e.countryCode).length ∧ fits e.keyId 32
  cscaGovernance : ∀ a ∈ dto.cscaGovernance, fits a 20
  selfIdentityRoots : ∀ e ∈ dto.selfIdentityRoots, fits e.root 32
  selfOfacRoots : ∀ e ∈ dto.selfOfacRoots, fits e.root 32
  epochValidators : ∀ a ∈ dto.epochValidators, fits a 20

end

-- The server reads so many bytes of a hex string only if it is long enough.
def Fits (s : String) (n : Nat) : Prop := 2 * n ≤ (strBytes s).length

@[mk_iff] structure StoredTxDto.Readable (dto : StoredTxDto) : Prop where
  hash : Fits dto.hash 32
  from_ : Fits dto.from_ 20
  to_ : ∀ a ∈ dto.to_, Fits a 20
  blockHash : Fits dto.blockHash 32
  logs : ∀ l ∈ dto.logs, Fits l.address 20 ∧ ∀ t ∈ l.topics, Fits t 32

@[mk_iff] structure BlockDto.Readable (dto : BlockDto) : Prop where
  hash : Fits dto.hash 32
  parentHash : Fits dto.parentHash 32
  txsRoot : Fits dto.txsRoot 32
  stateRoot : Fits dto.stateRoot 32
  proposer : Fits dto.proposer 20
  txs : ∀ tx ∈ dto.txs, tx.Readable

-- The blocks up to the first that is turned down, and the state if none is.
structure ChainSnapshot.Readable (host : NodeHost) (parseU256 : String → Option U256)
    (snap : ChainSnapshot) : Prop where
  blocks : ∀ before b after, snap.blocks = before ++ b :: after →
    verifyBlocks host parseU256 none before = some (.ok ()) → b.Readable
  state : verifyBlocks host parseU256 none snap.blocks = some (.ok ()) →
    snap.state.Readable Fits

-- Where the import is defined, for a reader of hex that reads what fits.
section
variable {hex : HexReader} {fits : String → Nat → Prop}

theorem isSome_unhex20 (hfits : ∀ s n, (hex s n).isSome ↔ fits s n) (s : String) :
    (unhex20 hex s).isSome ↔ fits s 20 :=
  isSome_map_iff (hfits s 20)

theorem isSome_unhex32 (hfits : ∀ s n, (hex s n).isSome ↔ fits s n) (s : String) :
    (unhex32 hex s).isSome ↔ fits s 32 :=
  isSome_map_iff (hfits s 32)

theorem isSome_dtoToVerdict (hfits : ∀ s n, (hex s n).isSome ↔ fits s n) (d : VerdictDto) :
    (dtoToVerdict hex d).isSome ↔ fits d.reasonsHash 32 :=
  isSome_map_iff (isSome_unhex32 hfits _)

theorem isSome_importInto {δ ρ σ : Type} {decode : δ → Option ρ} {put : σ → ρ → σ}
    {P : δ → Prop} {records : List δ} (s : σ) (h : ∀ d, (decode d).isSome ↔ P d) :
    (importInto decode put records s).isSome ↔ ∀ d ∈ records, P d :=
  isSome_foldlM_iff s fun _ d _ => isSome_map_iff (h d)

theorem isSome_decodeOp (hfits : ∀ s n, (hex s n).isSome ↔ fits s n) (d : OpDto) :
    (decodeOp hex d).isSome ↔ d.Readable fits := by
  have h20 : ∀ s, (unhex20 hex s).isSome ↔ fits s 20 := isSome_unhex20 hfits
  have h32 : ∀ s, (unhex32 hex s).isSome ↔ fits s 32 := isSome_unhex32 hfits
  rw [decodeOp, OpDto.Readable]
  by_cases h0 : d.tag = 0#8
  · rw [if_pos h0, if_pos (Or.inl h0)]
    exact isSome_map_iff (h20 _)
  by_cases h1 : d.tag = 1#8
  · rw [if_neg h0, if_pos h1, if_pos (Or.inr (Or.inl h1))]
    exact isSome_map_iff (h20 _)
  by_cases h2 : d.tag = 2#8
  · rw [if_neg h0, if_neg h1, if_pos h2, if_pos (Or.inr (Or.inr h2))]
    exact isSome_map_iff (h20 _)
  have hnone : ¬ (d.tag = 0#8 ∨ d.tag = 1#8 ∨ d.tag = 2#8) := by simp [h0, h1, h2]
  rw [if_neg h0, if_neg h1, if_neg h2, if_neg hnone]
  by_cases h3 : d.tag = 3#8
  · rw [if_pos h3, if_pos h3]
    simp
  by_cases h4 : d.tag = 4#8
  · rw [if_neg h3, if_neg h3, if_pos h4, if_pos h4]
    exact isSome_bind_iff (h32 _) fun _ => isSome_bind_pure_iff (h32 _)
  · rw [if_neg h3, if_neg h3, if_neg h4, if_neg h4]
    exact isSome_map_iff (h32 _)

theorem isSome_dtoToEffect (hfits : ∀ s n, (hex s n).isSome ↔ fits s n) (d : EffectDto) :
    (dtoToEffect hex d).isSome ↔ d.Readable fits :=
  isSome_map_iff (isSome_mapM_iff fun op _ => isSome_decodeOp hfits op)

theorem isSome_addresses (hfits : ∀ s n, (hex s n).isSome ↔ fits s n) (l : List String) :
    (l.mapM (unhex20 hex)).isSome ↔ ∀ a ∈ l, fits a 20 :=
  isSome_mapM_iff fun a _ => isSome_unhex20 hfits a

-- A committed outcome has to be there and to be readable.
theorem isSome_committed {δ ρ τ : Type} {decode : δ → Option ρ} {P : δ → Prop}
    {committed : Option δ} {g : ρ → τ} (h : ∀ d, (decode d).isSome ↔ P d) :
    ((committed.bind decode).map g).isSome ↔ ∃ d ∈ committed, P d := by
  rw [Option.isSome_map]
  cases committed with
  | none => simp
  | some d => simp [h d]

theorem isSome_importCase (hfits : ∀ s n, (hex s n).isSome ↔ fits s n) (c : CaseDto) :
    (importCase hex c).isSome ↔ c.Readable fits := by
  have hstatus : (importCaseStatus hex c.status c.committed).isSome ↔
      (c.status = 1#8 → ∃ v ∈ c.committed, fits v.reasonsHash 32) := by
    rw [importCaseStatus]
    by_cases h1 : c.status = 1#8
    · rw [if_pos h1, isSome_committed (isSome_dtoToVerdict hfits)]
      simp [h1]
    · rw [if_neg h1]
      split_ifs <;> simp [h1]
  have hvote : ∀ e, (importVote hex e).isSome ↔ fits e.1 20 ∧ fits e.2.reasonsHash 32 :=
    fun e => isSome_bind_iff (isSome_unhex20 hfits _) fun _ =>
      isSome_bind_pure_iff (isSome_dtoToVerdict hfits _)
  rw [CaseDto.readable_iff]
  exact isSome_bind_iff (isSome_unhex20 hfits _) fun _ =>
    isSome_bind_iff (isSome_unhex20 hfits _) fun _ =>
    isSome_bind_iff (isSome_unhex32 hfits _) fun _ =>
    isSome_bind_iff (isSome_addresses hfits _) fun _ =>
    isSome_bind_iff (isSome_mapM_iff fun e _ => hvote e) fun _ => isSome_bind_pure_iff hstatus

theorem isSome_importExecCase (hfits : ∀ s n, (hex s n).isSome ↔ fits s n) (ec : ExecCaseDto) :
    (importExecCase hex ec).isSome ↔ ec.Readable fits := by
  have hstatus : (importExecStatus hex ec.status ec.committed).isSome ↔
      (ec.status = 1#8 → ∃ e ∈ ec.committed, e.Readable fits) := by
    rw [importExecStatus]
    by_cases h1 : ec.status = 1#8
    · rw [if_pos h1, isSome_committed (isSome_dtoToEffect hfits)]
      simp [h1]
    · rw [if_neg h1]
      split_ifs <;> simp [h1]
  have heffect : ∀ e, (importEffect hex e).isSome ↔ fits e.1 20 ∧ e.2.Readable fits :=
    fun e => isSome_bind_iff (isSome_unhex20 hfits _) fun _ =>
      isSome_bind_pure_iff (isSome_dtoToEffect hfits _)
  rw [ExecCaseDto.readable_iff]
  exact isSome_bind_iff (isSome_unhex32 hfits _) fun _ =>
    isSome_bind_iff (isSome_unhex20 hfits _) fun _ =>
    isSome_bind_iff (isSome_addresses hfits _) fun _ =>
    isSome_bind_iff (isSome_mapM_iff fun e _ => heffect e) fun _ => isSome_bind_pure_iff hstatus

theorem isSome_importContract (hfits : ∀ s n, (hex s n).isSome ↔ fits s n) (c : ContractDto) :
    (importContract hex c).isSome ↔ c.Readable fits := by
  have hvar : ∀ e, (importVar hex e).isSome ↔ fits e.1 32 ∧ fits e.2 32 :=
    fun e => isSome_bind_iff (isSome_unhex32 hfits _) fun _ =>
      isSome_bind_pure_iff (isSome_unhex32 hfits _)
  rw [ContractDto.readable_iff]
  exact isSome_bind_iff (isSome_unhex32 hfits _) fun _ =>
    isSome_bind_iff (isSome_addresses hfits _) fun _ =>
    isSome_bind_iff (isSome_unhex32 hfits _) fun _ =>
    isSome_bind_pure_iff (isSome_mapM_iff fun e _ => hvar e)

theorem isSome_importHuman (hfits : ∀ s n, (hex s n).isSome ↔ fits s n) (h : HumanDto) :
    (importHuman hex h).isSome ↔ h.Readable fits := by
  rw [HumanDto.readable_iff]
  exact isSome_bind_iff (isSome_unhex20 hfits _) fun _ =>
    isSome_bind_iff (isSome_unhex32 hfits _) fun _ =>
    isSome_bind_pure_iff (isSome_addresses hfits _)

theorem isSome_importPair (hfits : ∀ s n, (hex s n).isSome ↔ fits s n) (e : String × String) :
    (importPair hex e).isSome ↔ fits e.1 20 ∧ fits e.2 20 :=
  isSome_bind_iff (isSome_unhex20 hfits _) fun _ => isSome_bind_pure_iff (isSome_unhex20 hfits _)

-- Two bytes of the string make one of the code.
theorem length_hexPairs (b : Bytes) : (hexPairs b).length = b.length / 2 := by
  fun_induction hexPairs b with
  | case1 hi lo rest ih =>
    simp only [List.length_cons, ih]
    omega
  | case2 b h =>
    match b with
    | [] => rfl
    | [_] => simp
    | hi :: lo :: rest => exact absurd rfl (h hi lo rest)

theorem isSome_importCsca (hfits : ∀ s n, (hex s n).isSome ↔ fits s n) (e : CscaDto) :
    (importCsca hex e).isSome ↔ 6 ≤ (strBytes e.countryCode).length ∧ fits e.keyId 32 := by
  have hcode : (copyCountryCode (hexDecodeVec e.countryCode)).isSome ↔
      6 ≤ (strBytes e.countryCode).length := by
    rw [copyCountryCode, List.length_take, hexDecodeVec, length_hexPairs]
    split_ifs with hlen
    · simp only [Option.isSome_some, true_iff]
      omega
    · simp only [Option.isSome_none, Bool.false_eq_true, false_iff]
      omega
  exact isSome_bind_iff hcode fun _ => isSome_bind_pure_iff (isSome_unhex32 hfits _)

theorem isSome_importAttributes (hfits : ∀ s n, (hex s n).isSome ↔ fits s n)
    (e : String × String × String × String) :
    (importAttributes hex e).isSome ↔
      fits e.1 20 ∧ fits e.2.1 32 ∧ fits e.2.2.1 32 ∧ fits e.2.2.2 32 :=
  isSome_bind_iff (isSome_unhex20 hfits _) fun _ =>
    isSome_bind_iff (isSome_unhex32 hfits _) fun _ =>
    isSome_bind_iff (isSome_unhex32 hfits _) fun _ => isSome_bind_pure_iff (isSome_unhex32 hfits _)

theorem isSome_importStateWith (hfits : ∀ s n, (hex s n).isSome ↔ fits s n) (dto : StateDto) :
    (importStateWith hex dto).isSome ↔ dto.Readable fits := by
  have h20 : ∀ s, (unhex20 hex s).isSome ↔ fits s 20 := isSome_unhex20 hfits
  have h32 : ∀ s, (unhex32 hex s).isSome ↔ fits s 32 := isSome_unhex32 hfits
  have hpair := isSome_importPair hfits
  have hgovernance : (dto.cscaGovernance.mapM (unhex20 hex)).isSome ↔
      ∀ a ∈ dto.cscaGovernance, fits a 20 := by
    cases dto.cscaGovernance with
    | none => simp
    | some a => simp [h20]
  have hledger : (importLedger hex dto).isSome ↔
      (∀ a ∈ dto.accounts, fits a.address 20) ∧
        ∀ st ∈ dto.streams, fits st.from_ 20 ∧ fits st.to_ 20 :=
    isSome_bind_iff (isSome_importInto _ fun _ => isSome_bind_pure_iff (h20 _)) fun l =>
      isSome_bind_pure_iff (isSome_importInto l fun _ =>
        isSome_bind_iff (h20 _) fun _ => isSome_bind_pure_iff (h20 _))
  have hhumanity : (importHumanity hex dto).isSome ↔
      (∀ h ∈ dto.humans, h.Readable fits) ∧
        (∀ e ∈ dto.vouchEdges, fits e.1 20 ∧ fits e.2 20) ∧
        (∀ e ∈ dto.clearedChallenges, fits e.1 20 ∧ fits e.2 20) ∧
        (∀ c ∈ dto.cases, c.Readable fits) ∧ ∀ j ∈ dto.jurors, fits j.address 20 :=
    isSome_bind_iff (isSome_importInto _ (isSome_importHuman hfits)) fun r =>
      isSome_bind_iff (isSome_importInto r hpair) fun r =>
      isSome_bind_iff (isSome_importInto r hpair) fun r =>
      isSome_bind_iff (isSome_importInto r (isSome_importCase hfits)) fun r =>
      isSome_bind_pure_iff (isSome_importInto r fun _ => isSome_bind_pure_iff (h20 _))
  have hprompt : (importPrompt hex dto).isSome ↔
      (∀ c ∈ dto.contracts, c.Readable fits) ∧ ∀ ec ∈ dto.execCases, ec.Readable fits :=
    isSome_bind_iff (isSome_importInto _ (isSome_importContract hfits)) fun r =>
      isSome_bind_pure_iff (isSome_importInto r (isSome_importExecCase hfits))
  have hzk : (importZk hex dto).isSome ↔ (∀ n ∈ dto.nullifiers, fits n 32) ∧
      (∀ e ∈ dto.attributeStore,
        fits e.1 20 ∧ fits e.2.1 32 ∧ fits e.2.2.1 32 ∧ fits e.2.2.2 32) ∧
      (∀ e ∈ dto.csca, 6 ≤ (strBytes e.countryCode).length ∧ fits e.keyId 32) ∧
      (∀ a ∈ dto.cscaGovernance, fits a 20) ∧
      (∀ e ∈ dto.selfIdentityRoots, fits e.root 32) ∧
      ∀ e ∈ dto.selfOfacRoots, fits e.root 32 :=
    isSome_bind_iff (isSome_importInto _ h32) fun _ =>
      isSome_bind_iff (isSome_importInto _ (isSome_importAttributes hfits)) fun _ =>
      isSome_bind_iff (isSome_importInto _ (isSome_importCsca hfits)) fun _ =>
      isSome_bind_iff hgovernance fun _ =>
      isSome_bind_iff (isSome_importInto _ fun _ => isSome_bind_pure_iff (h32 _)) fun _ =>
      isSome_bind_pure_iff (isSome_importInto _ fun _ => isSome_bind_pure_iff (h32 _))
  have hall : (importStateWith hex dto).isSome ↔ _ :=
    isSome_bind_iff hledger fun _ => isSome_bind_iff hhumanity fun _ =>
      isSome_bind_iff hprompt fun _ => isSome_bind_iff hzk fun _ =>
      isSome_bind_pure_iff (isSome_addresses hfits _)
  rw [hall, StateDto.readable_iff]
  simp only [and_assoc]

end

theorem isSome_hexDecodeInto (s : String) (n : Nat) : (hexDecodeInto s n).isSome ↔ Fits s n := by
  have hpair : ∀ i ∈ List.range n, (do
      let hi ← (strBytes s)[i * 2]?
      let lo ← (strBytes s)[i * 2 + 1]?
      pure (hexByte hi lo)).isSome ↔
      i * 2 < (strBytes s).length ∧ i * 2 + 1 < (strBytes s).length := by
    intro i _
    exact isSome_bind_iff (by simp) fun _ => isSome_bind_pure_iff (by simp)
  rw [hexDecodeInto, isSome_mapM_iff hpair, Fits]
  constructor
  · intro h
    cases n with
    | zero => omega
    | succ n =>
      have := (h n (List.mem_range.mpr (Nat.lt_succ_self n))).2
      omega
  · intro h i hi
    have := List.mem_range.mp hi
    omega

theorem isSome_importState (dto : StateDto) : (importState dto).isSome ↔ dto.Readable Fits :=
  isSome_importStateWith isSome_hexDecodeInto dto

section
variable (host : NodeHost) (parseU256 : String → Option U256)

theorem isSome_importTx (dto : StoredTxDto) :
    (importTx parseU256 dto).isSome ↔ dto.Readable := by
  have h20 := isSome_unhex20 isSome_hexDecodeInto
  have h32 := isSome_unhex32 isSome_hexDecodeInto
  have hto : (dto.to_.mapM (unhex20 hexDecodeInto)).isSome ↔ ∀ a ∈ dto.to_, Fits a 20 := by
    cases dto.to_ with
    | none => simp
    | some a => simp [h20]
  have hlog : ∀ l, (importLog l).isSome ↔ Fits l.address 20 ∧ ∀ t ∈ l.topics, Fits t 32 :=
    fun l => isSome_bind_iff (h20 _) fun _ =>
      isSome_bind_pure_iff (isSome_mapM_iff fun t _ => h32 t)
  rw [StoredTxDto.readable_iff]
  exact isSome_bind_iff (h32 _) fun _ => isSome_bind_iff (h20 _) fun _ =>
    isSome_bind_iff hto fun _ => isSome_bind_iff (h32 _) fun _ =>
    isSome_bind_pure_iff (isSome_mapM_iff fun l _ => hlog l)

theorem isSome_importBlock (dto : BlockDto) :
    (importBlock parseU256 dto).isSome ↔ dto.Readable := by
  have h20 := isSome_unhex20 isSome_hexDecodeInto
  have h32 := isSome_unhex32 isSome_hexDecodeInto
  rw [BlockDto.readable_iff]
  exact isSome_bind_iff (h32 _) fun _ => isSome_bind_iff (h32 _) fun _ =>
    isSome_bind_iff (h32 _) fun _ => isSome_bind_iff (h32 _) fun _ =>
    isSome_bind_iff (h20 _) fun _ =>
    isSome_bind_pure_iff (isSome_mapM_iff fun tx _ => isSome_importTx parseU256 tx)

-- What the walk over the blocks does at the first: it panics, or stops there, or goes on.
theorem verifyBlocks_cons (prev : Option (Nat × Hash)) (dto : BlockDto) :
    ¬ dto.Readable ∧ (∀ dtos, verifyBlocks host parseU256 prev (dto :: dtos) = none) ∨
    dto.Readable ∧ (∃ e, ∀ dtos, verifyBlocks host parseU256 prev (dto :: dtos) =
      some (.error e)) ∨
    dto.Readable ∧ ∃ next, ∀ dtos, verifyBlocks host parseU256 prev (dto :: dtos) =
      verifyBlocks host parseU256 next dtos := by
  cases hb : importBlock parseU256 dto with
  | none =>
    have hunreadable : ¬ dto.Readable := by
      rw [← isSome_importBlock parseU256, hb]
      simp
    exact Or.inl ⟨hunreadable, fun dtos => by rw [verifyBlocks, hb]⟩
  | some b =>
    have hreadable : dto.Readable := by
      rw [← isSome_importBlock parseU256, hb]
      rfl
    by_cases hhash : computeHash host b.number b.parentHash b.timestamp b.view b.txsRoot
        b.stateRoot b.proposer ≠ b.hash
    · refine Or.inr (Or.inl ⟨hreadable, .BlockHashMismatch b.number, fun dtos => ?_⟩)
      rw [verifyBlocks, hb]
      exact if_pos hhash
    by_cases hlink : ∃ p ∈ prev, b.number ≠ p.1 + 1 ∨ b.parentHash ≠ p.2
    · refine Or.inr (Or.inl ⟨hreadable, .BrokenChain b.number, fun dtos => ?_⟩)
      rw [verifyBlocks, hb]
      exact (if_neg hhash).trans (if_pos hlink)
    · refine Or.inr (Or.inr ⟨hreadable, some (b.number, b.hash), fun dtos => ?_⟩)
      rw [verifyBlocks, hb]
      exact (if_neg hhash).trans (if_neg hlink)

theorem isSome_verifyBlocks (prev : Option (Nat × Hash)) (dtos : List BlockDto) :
    (verifyBlocks host parseU256 prev dtos).isSome ↔
      ∀ before b after, dtos = before ++ b :: after →
        verifyBlocks host parseU256 prev before = some (.ok ()) → b.Readable := by
  induction dtos generalizing prev with
  | nil => simp [verifyBlocks]
  | cons dto dtos ih =>
    have hfirst : (∀ before b after, dto :: dtos = before ++ b :: after →
        verifyBlocks host parseU256 prev before = some (.ok ()) → b.Readable) ↔
        dto.Readable ∧ ∀ before b after, dtos = before ++ b :: after →
          verifyBlocks host parseU256 prev (dto :: before) = some (.ok ()) → b.Readable := by
      constructor
      · intro h
        exact ⟨h [] dto dtos rfl rfl, fun before b after heq =>
          h (dto :: before) b after (by rw [heq, List.cons_append])⟩
      · rintro ⟨hdto, hrest⟩ before b after heq hbefore
        cases before with
        | nil =>
          cases heq
          exact hdto
        | cons dto' before =>
          cases heq
          exact hrest before b after rfl hbefore
    rw [hfirst]
    rcases verifyBlocks_cons host parseU256 prev dto with
      ⟨hunreadable, hnone⟩ | ⟨hreadable, e, herror⟩ | ⟨hreadable, next, hnext⟩
    · simp [hnone, hunreadable]
    · simp [herror, hreadable]
    · simp only [hnext, hreadable, true_and]
      exact ih next

theorem readable_of_verifyBlocks {prev : Option (Nat × Hash)} {dtos : List BlockDto}
    (h : verifyBlocks host parseU256 prev dtos = some (.ok ())) : ∀ b ∈ dtos, b.Readable := by
  induction dtos generalizing prev with
  | nil => simp
  | cons dto dtos ih =>
    rcases verifyBlocks_cons host parseU256 prev dto with
      ⟨-, hnone⟩ | ⟨-, e, herror⟩ | ⟨hreadable, next, hnext⟩
    · rw [hnone] at h
      cases h
    · rw [herror] at h
      cases h
    · rw [hnext] at h
      exact List.forall_mem_cons.mpr ⟨hreadable, ih h⟩

theorem isSome_verifyState (snap : ChainSnapshot) {tip : BlockDto}
    (htip : snap.blocks.getLast? = some tip) (hreadable : tip.Readable) :
    (verifyState snap).isSome ↔ snap.state.Readable Fits := by
  have hroot : (unhex32 hexDecodeInto tip.stateRoot).isSome ↔ True := by
    rw [isSome_unhex32 isSome_hexDecodeInto]
    simp [hreadable.stateRoot]
  have h : (verifyState snap).isSome ↔ True ∧ snap.state.Readable Fits := by
    rw [verifyState, htip, Option.bind_eq_bind, Option.bind_some]
    exact isSome_bind_iff hroot fun _ => isSome_bind_pure_iff (isSome_importState _)
  rw [h, true_and]

theorem isSome_verify (snap : ChainSnapshot) : (snap.verify host parseU256).isSome ↔
    (snap.blocks.head?.map BlockDto.number = some 0 → snap.Readable host parseU256) := by
  rw [ChainSnapshot.verify]
  by_cases hgenesis : snap.blocks.head?.map BlockDto.number = some 0
  · rw [if_neg (not_not.mpr hgenesis)]
    simp only [hgenesis, forall_const]
    have hblocks := isSome_verifyBlocks host parseU256 none snap.blocks
    cases hwalk : verifyBlocks host parseU256 none snap.blocks with
    | none =>
      rw [hwalk] at hblocks
      refine ⟨fun h => by simp at h, fun h => ?_⟩
      exact hblocks.mpr h.blocks
    | some r =>
      rw [hwalk] at hblocks
      cases r with
      | error e =>
        refine ⟨fun _ => ⟨hblocks.mp rfl, fun hok => ?_⟩, fun _ => rfl⟩
        rw [hwalk] at hok
        cases hok
      | ok _ =>
        obtain ⟨tip, htip⟩ : ∃ tip, snap.blocks.getLast? = some tip := by
          cases hlast : snap.blocks.getLast? with
          | none =>
            rw [List.getLast?_eq_none_iff.mp hlast] at hgenesis
            cases hgenesis
          | some tip => exact ⟨tip, rfl⟩
        have htipReadable :=
          readable_of_verifyBlocks host parseU256 hwalk tip (List.mem_of_getLast? htip)
        rw [isSome_verifyState snap htip htipReadable]
        exact ⟨fun h => ⟨hblocks.mp rfl, fun _ => h⟩, fun h => h.state hwalk⟩
  · rw [if_pos hgenesis]
    simp [hgenesis]

theorem isSome_load (parse : Bytes → Except String ChainSnapshot) (file : SnapshotFile) :
    (load host parseU256 parse file).isSome ↔ ∀ bytes snap, file = .Contents bytes →
      parse bytes = .ok snap → snap.blocks.head?.map BlockDto.number = some 0 →
      snap.Readable host parseU256 := by
  cases file with
  | Missing => simp [load]
  | Unreadable => simp [load]
  | Contents bytes =>
    rw [load]
    cases hparse : parse bytes with
    | error message =>
      refine ⟨fun _ bytes' snap heq hok => ?_, fun _ => rfl⟩
      cases heq
      rw [hparse] at hok
      cases hok
    | ok snap =>
      rw [isSome_map_iff (isSome_verify host parseU256 snap)]
      constructor
      · intro h bytes' snap' heq hok
        cases heq
        rw [hparse] at hok
        cases hok
        exact h
      · intro h
        exact h bytes snap rfl hparse

end

end Ubi2.Rpc
