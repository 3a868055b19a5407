import Ubi2.Runtime.State

namespace Ubi2.Runtime

open Lib Lib.Encode

-- The hasher folds bytes into its lanes, so each serializer is the byte string it feeds.
def hashU64 (v : Nat) : Bytes := natBytes 8 v

def hashBool (b : Bool) : Bytes := [if b then 1#8 else 0#8]

def hashAccount (a : Account) : Bytes :=
  beBytes a.address ++ hashBool a.verified ++ beBytes a.verifiedAt ++
    beBytes a.settledBalance ++ beBytes a.lastSettledAt ++ beBytes a.nonce

def streamStatusTag : StreamStatus → U8 × U64
  | .Active => (0#8, 0#64)
  | .Stopped at_ => (1#8, at_)
  | .Completed => (2#8, 0#64)

def hashStream (s : Stream) : Bytes :=
  hashU64 s.id ++ beBytes s.from_ ++ beBytes s.to_ ++ beBytes s.rate ++ beBytes s.deposit ++
    beBytes s.drawn ++ beBytes s.startedAt ++ [(streamStatusTag s.status).1] ++
    beBytes (streamStatusTag s.status).2

def humanStatusTag : HumanStatus → U8
  | .Unverified => 0#8
  | .Pending => 1#8
  | .Verified => 2#8
  | .Challenged => 3#8
  | .Revoked => 4#8

def verdictTag : Verdict → U8
  | .Human => 0#8
  | .Sybil => 1#8
  | .Uncertain => 2#8

def confidenceTag : Confidence → U8
  | .Low => 0#8
  | .Med => 1#8
  | .High => 2#8

def hashVerdict (v : CanonicalVerdict) : Bytes :=
  [verdictTag v.verdict] ++ [confidenceTag v.confidence] ++ beBytes v.reasonsHash

def hashEffect (e : CanonicalEffect) : Bytes :=
  lenPrefixed e.encode ++ beBytes e.effectHash

def hashHuman (hu : Human) : Bytes :=
  beBytes hu.address ++ [humanStatusTag hu.status] ++ beBytes hu.verifiedAt ++
    beBytes hu.livenessRef ++ counted beBytes hu.vouchesIn ++ beBytes hu.reputation ++
    [hu.assurance.tag]

def hashEdge (e : Edge) : Bytes := beBytes e.1 ++ beBytes e.2

def caseKindTag : CaseKind → U8
  | .Registration => 0#8
  | .Challenge => 1#8

def hashCaseStatus : CaseStatus → Bytes
  | .Open => [0#8]
  | .Committed v => [1#8] ++ hashVerdict v
  | .Escalated => [2#8]

def hashVote (e : Address × CanonicalVerdict) : Bytes := beBytes e.1 ++ hashVerdict e.2

def hashCase (c : Case) : Bytes :=
  hashU64 c.id ++ beBytes c.subject ++ beBytes c.challenger ++ [caseKindTag c.kind] ++
    beBytes c.evidenceRef ++ counted beBytes c.jury ++ counted hashVote c.votes ++
    hashCaseStatus c.status ++ beBytes c.openedAt

def hashJuror (j : Juror) : Bytes := beBytes j.address ++ beBytes j.stake ++ hashBool j.active

def hashAttributes (e : Address × Commitments) : Bytes :=
  beBytes e.1 ++ beBytes e.2.1 ++ beBytes e.2.2.1 ++ beBytes e.2.2.2

def hashCsca (e : CscaEntry) : Bytes :=
  beBytes e.countryCode ++ beBytes e.keyId ++ lenPrefixed e.pubkey ++ beBytes e.addedAt ++
    [e.status.tag]

def hashIdentityRoot (e : SelfIdentityRoot) : Bytes := beBytes e.root ++ beBytes e.pinnedAtBlock

def hashOfacRoot (e : SelfOfacRoot) : Bytes :=
  beBytes e.kind ++ beBytes e.root ++ beBytes e.pinnedAtBlock

def hashOption {α : Type} (enc : α → Bytes) : Option α → Bytes
  | none => [0#8]
  | some a => [1#8] ++ enc a

def contractStatusTag : ContractStatus → U8
  | .Active => 0#8
  | .Terminated => 1#8

def hashVar (e : Hash × Hash) : Bytes := beBytes e.1 ++ beBytes e.2

def hashContract (c : PromptContract) : Bytes :=
  hashU64 c.id ++ beBytes c.escrow ++ counted beBytes c.parties ++ lenPrefixed (strBytes c.text) ++
    beBytes c.textRef ++ counted hashVar c.sortedVars ++ [contractStatusTag c.status] ++
    beBytes c.deployBlock ++ beBytes c.deployTx

def hashSubmission (e : Address × CanonicalEffect) : Bytes := beBytes e.1 ++ hashEffect e.2

def hashExecStatus : ExecStatus → Bytes
  | .Open => [0#8]
  | .Committed e => [1#8] ++ hashEffect e
  | .Aborted => [2#8]

def hashExecCase (c : ExecCase) : Bytes :=
  hashU64 c.id ++ hashU64 c.contract ++ beBytes c.triggerRef ++ beBytes c.invoker ++
    counted beBytes c.jury ++ counted hashSubmission c.effects ++ hashExecStatus c.status ++
    beBytes c.openedAt ++ hashOption beBytes c.resolvedAt

-- The registry has no accessor for inactive jurors.
def MemState.committedJurors (s : MemState) : List Juror :=
  s.humanity.jurors.rows.filter Juror.active

def STATE_ROOT_VERSION : String := "ubi2/state-root/5"

-- Every section is its domain byte and its content, in the source's order.
def MemState.sections (s : MemState) : List Bytes :=
  [ 0x01#8 :: counted hashAccount s.ledger.accounts.rows,
    0x02#8 :: counted hashStream s.ledger.streams.rows,
    0x03#8 :: counted hashHuman s.humanity.humans.rows,
    0x04#8 :: counted hashEdge s.humanity.vouchEdges,
    0x05#8 :: counted hashEdge s.humanity.clearedChallenges.rows,
    0x06#8 :: counted hashCase s.humanity.cases.rows,
    0x07#8 :: counted hashJuror s.committedJurors,
    0x0b#8 :: counted beBytes s.zk.nullifiers.rows,
    0x0c#8 :: counted hashAttributes s.zk.attributeCommitments.rows,
    0x0d#8 :: counted hashCsca s.zk.csca.rows,
    0x10#8 :: counted hashIdentityRoot s.zk.selfIdentityRoots.rows,
    0x11#8 :: counted hashOfacRoot s.zk.selfOfacRoots.rows,
    0x12#8 :: hashOption beBytes s.zk.selfScope,
    0x08#8 :: counted hashContract s.prompt.contracts.rows,
    0x09#8 :: counted hashExecCase s.prompt.execCases.rows,
    0x0e#8 :: counted beBytes s.epochValidators,
    0x0a#8 :: hashU64 s.ledger.nextId ++ hashU64 s.humanity.nextCaseId ++
      hashU64 s.prompt.nextContractId ++ hashU64 s.prompt.nextExecCaseId ]

def stateBytes (s : MemState) : Bytes :=
  lenPrefixed (strBytes STATE_ROOT_VERSION) ++ s.sections.flatten

def stateRoot (s : MemState) : Hash := fnv1a256 (stateBytes s)

end Ubi2.Runtime
