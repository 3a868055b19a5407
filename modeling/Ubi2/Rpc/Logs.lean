import Ubi2.Rpc.Block

namespace Ubi2.Rpc

open Ubi2.Runtime Ubi2.Lib Ubi2.Lib.Encode Ubi2.Exec

def topicOf (host : NodeHost) (signature : String) : Hash :=
  host.keccak256 (strBytes signature)

def streamOpenedTopic (host : NodeHost) : Hash :=
  topicOf host "StreamOpened(uint256,address,address)"
def streamStoppedTopic (host : NodeHost) : Hash :=
  topicOf host "StreamStopped(uint256,address)"
def transferTopic (host : NodeHost) : Hash :=
  topicOf host "Transfer(address,address,uint256)"
def caseOpenedTopic (host : NodeHost) : Hash :=
  topicOf host "CaseOpened(uint256,address,uint8)"
def verdictSubmittedTopic (host : NodeHost) : Hash :=
  topicOf host "VerdictSubmitted(uint256,address,uint8)"
def statusChangedTopic (host : NodeHost) : Hash :=
  topicOf host "StatusChanged(address,uint8)"
def zkVerifiedTopic (host : NodeHost) : Hash :=
  topicOf host "ZkPassportVerified(address,uint8)"
def cscaRegisteredTopic (host : NodeHost) : Hash :=
  topicOf host "CscaRegistered(bytes32,bytes3)"
def cscaRevokedTopic (host : NodeHost) : Hash :=
  topicOf host "CscaRevoked(bytes32)"
def selfIdentityRootPinnedTopic (host : NodeHost) : Hash :=
  topicOf host "SelfIdentityRootPinned(bytes32)"
def selfOfacRootPinnedTopic (host : NodeHost) : Hash :=
  topicOf host "SelfOfacRootPinned(bytes32)"
def selfRootRetiredTopic (host : NodeHost) : Hash :=
  topicOf host "SelfRootRetired(bytes32)"
def contractDeployedTopic (host : NodeHost) : Hash :=
  topicOf host "ContractDeployed(uint256,address,bytes32)"
def contractCaseOpenedTopic (host : NodeHost) : Hash :=
  topicOf host "CaseOpened(uint256,uint256,address)"
def effectCommittedTopic (host : NodeHost) : Hash :=
  topicOf host "EffectCommitted(uint256,uint256,bytes32)"
def effectAbortedTopic (host : NodeHost) : Hash :=
  topicOf host "EffectAborted(uint256,uint256)"

-- Numbers and addresses are padded on the left to a word.
def u64Topic (v : Nat) : Hash := (BitVec.ofNat 64 v).setWidth 256
def addrTopic (a : Address) : Hash := a.setWidth 256
def tokenIdOf (human : Address) : U256 := human.setWidth 256

def u8Data (v : U8) : Bytes := beBytes (v.setWidth 256)
def hashData (h : Hash) : Bytes := beBytes h

def caseKindU8 : CaseKind → U8
  | .Registration => 0#8
  | .Challenge => 1#8

def verdictU8 : Verdict → U8
  | .Human => 0#8
  | .Sybil => 1#8
  | .Uncertain => 2#8

def humanStatusU8 : HumanStatus → U8
  | .Unverified => 0#8
  | .Pending => 1#8
  | .Verified => 2#8
  | .Challenged => 3#8
  | .Revoked => 4#8

-- The opening, then the mints of the recipient's token and of the sender's receipt,
-- which is told apart by its top bit.
def streamOpenLogs (host : NodeHost) (id : StreamId) (from_ to_ : Address) : List TxLog :=
  [{ address := STREAM_HUB
     topics := [streamOpenedTopic host, u64Topic id, addrTopic from_, addrTopic to_]
     data := [] },
   { address := STREAM_HUB
     topics := [transferTopic host, addrTopic 0#160, addrTopic to_, u64Topic id]
     data := [] },
   { address := STREAM_HUB
     topics := [transferTopic host, addrTopic 0#160, addrTopic from_,
       u64Topic id ||| (1#256 <<< 255)]
     data := [] }]

def streamStopLogs (host : NodeHost) (id : StreamId) (caller : Address) : List TxLog :=
  [{ address := STREAM_HUB
     topics := [streamStoppedTopic host, u64Topic id, addrTopic caller]
     data := [] }]

def zkVerifiedLog (host : NodeHost) (subject : Address) (assurance : Assurance) : TxLog where
  address := HUMANITY_HUB
  topics := [zkVerifiedTopic host, addrTopic subject]
  data := u8Data assurance.tag

def caseOpenedLog (host : NodeHost) (c : Case) : TxLog where
  address := HUMANITY_HUB
  topics := [caseOpenedTopic host, u64Topic c.id, addrTopic c.subject]
  data := u8Data (caseKindU8 c.kind)

def verdictSubmittedLog (host : NodeHost) (caseId : CaseId) (juror : Address)
    (verdict : Verdict) : TxLog where
  address := HUMANITY_HUB
  topics := [verdictSubmittedTopic host, u64Topic caseId, addrTopic juror]
  data := u8Data (verdictU8 verdict)

def statusChangedLog (host : NodeHost) (subject : Address) (status : HumanStatus) : TxLog where
  address := HUMANITY_HUB
  topics := [statusChangedTopic host, addrTopic subject]
  data := u8Data (humanStatusU8 status)

def pohMintLog (host : NodeHost) (human : Address) : TxLog where
  address := HUMANITY_HUB
  topics := [transferTopic host, addrTopic 0#160, addrTopic human, tokenIdOf human]
  data := []

def pohBurnLog (host : NodeHost) (human : Address) : TxLog where
  address := HUMANITY_HUB
  topics := [transferTopic host, addrTopic human, addrTopic 0#160, tokenIdOf human]
  data := []

-- A token exists while its human is verified, so it is minted and burnt where the
-- transition crosses that status.
def humanityStatusLogs (host : NodeHost) (subject : Address) (prev : Option HumanStatus)
    (status : HumanStatus) : List TxLog :=
  let wasVerified := prev = some .Verified
  let isVerified := status = .Verified
  statusChangedLog host subject status ::
    (if isVerified ∧ ¬ wasVerified then [pohMintLog host subject]
     else if wasVerified ∧ ¬ isVerified then [pohBurnLog host subject]
     else [])

def contractDeployedLog (host : NodeHost) (id : ContractId) (deployer : Address)
    (textRef : Hash) : TxLog where
  address := CONTRACT_HUB
  topics := [contractDeployedTopic host, u64Topic id, addrTopic deployer]
  data := hashData textRef

def contractCaseOpenedLog (host : NodeHost) (caseId : ExecCaseId) (contractId : ContractId)
    (invoker : Address) : TxLog where
  address := CONTRACT_HUB
  topics := [contractCaseOpenedTopic host, u64Topic caseId, u64Topic contractId,
    addrTopic invoker]
  data := []

-- An open case has no outcome to log yet.
def execCaseOutcomeLog (host : NodeHost) (c : ExecCase) : Option TxLog :=
  match c.status with
  | .Committed effect =>
    some { address := CONTRACT_HUB
           topics := [effectCommittedTopic host, u64Topic c.id, u64Topic c.contract]
           data := hashData effect.effectHash }
  | .Aborted =>
    some { address := CONTRACT_HUB
           topics := [effectAbortedTopic host, u64Topic c.id, u64Topic c.contract]
           data := [] }
  | .Open => none

-- The logs of an operation that succeeded, read off the state it left. The status of
-- its subject before the operation is given where a log says how it changed.
def buildOpLogs (host : NodeHost) (s : MemState) (p : PendingTx) (result : OpResult)
    (preStatus : Option (Address × Option HumanStatus)) : List TxLog :=
  match p.kind with
  | .Transfer .. | .Vouch .. | .FundContract .. => []
  | .OpenStream to_ _ _ =>
    match result with
    | .StreamId id => streamOpenLogs host id p.from_ to_
    | _ => []
  | .StopStream id => streamStopLogs host id p.from_
  | .RequestVerification _ =>
    let opened :=
      match result with
      | .CaseId caseId => (s.getCase caseId).toList.map (caseOpenedLog host)
      | _ => []
    opened ++ [statusChangedLog host p.from_ .Pending]
  | .Challenge subject _ =>
    let opened :=
      match result with
      | .CaseId caseId => (s.getCase caseId).toList.map (caseOpenedLog host)
      | _ => []
    let flipped :=
      match s.getHuman subject with
      | some h =>
        if h.status = .Challenged then
          humanityStatusLogs host subject (some .Verified) h.status
        else []
      | none => []
    opened ++ flipped
  | .SubmitVerdict caseId verdict =>
    let changed :=
      match preStatus with
      | some (subj, pre) =>
        match s.getHuman subj with
        | some h => if some h.status ≠ pre then humanityStatusLogs host subj pre h.status else []
        | none => []
      | none => []
    verdictSubmittedLog host caseId p.from_ verdict.verdict :: changed
  | .SubmitZkPassportProof _ =>
    let proved :=
      match result with
      | .Assurance a => [zkVerifiedLog host p.from_ a]
      | _ => []
    let pre := preStatus.bind Prod.snd
    proved ++
      (if pre ≠ some .Verified then humanityStatusLogs host p.from_ pre .Verified else [])
  | .RegisterCsca countryCode keyId _ =>
    [{ address := HUMANITY_HUB
       topics := [cscaRegisteredTopic host, keyId]
       data := beBytes (countryCode.setWidth 256 <<< 232) }]
  | .RevokeCsca keyId =>
    [{ address := HUMANITY_HUB, topics := [cscaRevokedTopic host, keyId], data := [] }]
  | .PinSelfIdentityRoot root =>
    [{ address := HUMANITY_HUB
       topics := [selfIdentityRootPinnedTopic host, root]
       data := [] }]
  | .PinSelfOfacRoot kind root =>
    [{ address := HUMANITY_HUB
       topics := [selfOfacRootPinnedTopic host, root]
       data := u8Data kind }]
  | .RetireSelfRoot root =>
    [{ address := HUMANITY_HUB, topics := [selfRootRetiredTopic host, root], data := [] }]
  | .DeployContract text _ =>
    match result with
    | .CaseId id =>
      [contractDeployedLog host id p.from_ (textCommitment host.toHost text)]
    | _ => []
  | .InvokeContract id _ =>
    match result with
    | .CaseId caseId =>
      contractCaseOpenedLog host caseId id p.from_ ::
        ((s.getExecCase caseId).bind (execCaseOutcomeLog host)).toList
    | _ => []
  | .SubmitEffect caseId _ =>
    ((s.getExecCase caseId).bind (execCaseOutcomeLog host)).toList

-- The status a log of the operation needs from before it runs.
def preStatusForSubject (s : MemState) (p : PendingTx) :
    Option (Address × Option HumanStatus) :=
  let statusOf (a : Address) := (a, (s.getHuman a).map Human.status)
  match p.kind with
  | .Challenge subject _ => some (statusOf subject)
  | .SubmitVerdict caseId _ => (s.getCase caseId).map fun c => statusOf c.subject
  | .SubmitZkPassportProof _ => some (statusOf p.from_)
  | _ => none

def sweepFinalizeOne (host : NodeHost) (nowBlock verifiedAtSecs : U64)
    (acc : List TxLog × MemState) (subject : Address) : List TxLog × MemState :=
  match acc.2.finalizeRegistration subject nowBlock verifiedAtSecs with
  | (.ok _, s) =>
    (acc.1 ++ humanityStatusLogs host subject (some .Pending) .Verified, s)
  | (.error _, s) => (acc.1, s)

def sweepFinalize (host : NodeHost) (s : MemState) (nowBlock verifiedAtSecs : U64) :
    List TxLog × MemState :=
  (pendingHumans s).foldl (sweepFinalizeOne host nowBlock verifiedAtSecs) ([], s)

def sweepSybilScanOne (host : NodeHost) (blockHash : Hash) (nowBlock : U64)
    (acc : List TxLog × MemState) (subject : Address) : List TxLog × MemState :=
  let s := acc.2
  if (host.oracle.analyzeSybil s.humanity.graphView subject).verdict ≠ .Sybil then acc
  else
    match s.systemChallenge host.usizeBits HUMANITY_HUB subject
        (sybilEvidence host.toHost subject blockHash) (blockEntropy blockHash nowBlock)
        nowBlock with
    | (.ok caseId, s) => (acc.1 ++ (s.getCase caseId).toList.map (caseOpenedLog host), s)
    | (.error _, s) => (acc.1, s)

def sweepSybilScan (host : NodeHost) (s : MemState) (blockHash : Hash) (nowBlock : U64) :
    List TxLog × MemState :=
  (pendingHumans s).foldl (sweepSybilScanOne host blockHash nowBlock) ([], s)

-- The lists of transactions that touched each address, in block order.
abbrev AddrIndex := Table (Prod.fst : Address × List Hash → Address)

def AddrIndex.push (index : AddrIndex) (addr : Address) (hash : Hash) : AddrIndex :=
  let entry := ((index.get addr).map Prod.snd).getD []
  index.put (addr, if entry.getLast? ≠ some hash then entry ++ [hash] else entry)

-- The address a topic holds, when its twelve high bytes are zero. The zero address is
-- the source of a mint and no account.
def topicAddress (topic : Hash) : Option Address :=
  if topic >>> 160 = 0#256 ∧ topic.setWidth 160 ≠ 0#160 then some (topic.setWidth 160)
  else none

def affectedAddresses (tx : StoredTx) : List Address :=
  sortDedup (tx.from_ :: tx.to_.toList ++
    tx.logs.flatMap (fun log => log.topics.filterMap topicAddress))

def indexTx (index : AddrIndex) (tx : StoredTx) : AddrIndex :=
  (affectedAddresses tx).foldl (fun index a => index.push a tx.hash) index

-- The case an operation on a contract resolved: the one it names, or the newest of the
-- contract it invoked.
def resolvedCase (s : MemState) : KernelKind → Option ExecCaseId
  | .SubmitEffect caseId _ => some caseId
  | .InvokeContract id _ =>
    ((s.prompt.execCases.rows.filter (fun c => c.contract = id)).map ExecCase.id).max?
  | _ => none

def opTarget : Op → Option Address
  | .Transfer to_ _ => some to_
  | .Refund party _ => some party
  | .OpenStream to_ _ _ => some to_
  | .StopStream _ | .SetVar .. | .Abort _ => none

-- The escrow and the targets of the effect an operation committed.
def contractEffectAddresses (s : MemState) (kind : KernelKind) : List Address :=
  match (resolvedCase s kind).bind s.getExecCase with
  | none => []
  | some c =>
    match c.status with
    | .Committed effect =>
      sortDedup (contractAddress c.contract :: effect.ops.filterMap opTarget)
    | _ => []

-- Logging a sweep does not change what the sweep does to the state.
theorem sweepFinalize_state (host : NodeHost) (s : MemState) (nowBlock verifiedAtSecs : U64) :
    (sweepFinalize host s nowBlock verifiedAtSecs).2 =
      Exec.sweepFinalize s nowBlock verifiedAtSecs := by
  have hfold : ∀ (l : List Address) (acc : List TxLog × MemState),
      (l.foldl (sweepFinalizeOne host nowBlock verifiedAtSecs) acc).2 =
        l.foldl (fun s a => (s.finalizeRegistration a nowBlock verifiedAtSecs).2) acc.2 := by
    intro l
    induction l with
    | nil => exact fun _ => rfl
    | cons a l ih =>
      intro acc
      rw [List.foldl_cons, List.foldl_cons, ih]
      congr 1
      rw [sweepFinalizeOne]
      split <;> rename_i heq <;> rw [heq]
  exact hfold _ _

theorem sweepSybilScan_state (host : NodeHost) (s : MemState) (blockHash : Hash)
    (nowBlock : U64) :
    (sweepSybilScan host s blockHash nowBlock).2 =
      Exec.sweepSybilScan host.toHost s blockHash nowBlock := by
  have hfold : ∀ (l : List Address) (acc : List TxLog × MemState),
      (l.foldl (sweepSybilScanOne host blockHash nowBlock) acc).2 =
        l.foldl (sweepSybilOne host.toHost blockHash nowBlock) acc.2 := by
    intro l
    induction l with
    | nil => exact fun _ => rfl
    | cons a l ih =>
      intro acc
      rw [List.foldl_cons, List.foldl_cons, ih]
      congr 1
      rw [sweepSybilScanOne, sweepSybilOne]
      split
      · rfl
      · split <;> rename_i heq <;> rw [heq]
  exact hfold _ _

end Ubi2.Rpc
