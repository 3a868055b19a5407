import Ubi2.Exec.Op

namespace Ubi2.Exec

open Ubi2.Runtime Ubi2.Lib Ubi2.Lib.Encode

-- What the kernel is run with: the three seams its drivers inject, the hash functions
-- it calls, and the width of `usize` on the target it is compiled for.
structure Host where
  oracle : HumanityOracle
  interpreter : ContractInterpreter
  verifier : ZkPassportVerifier
  keccak256 : Bytes → Hash
  userIdentifierHash : Bytes → Hash
  usizeBits : Nat

-- The host of the tests: every input gets the scripted answer, and every proof passes.
def Host.mock (verdict : CanonicalVerdict) (effect : CanonicalEffect) : Host where
  oracle :=
    { gradeLiveness := fun _ _ => verdict
      analyzeSybil := fun _ _ => verdict
      adjudicate := fun _ => verdict }
  interpreter := { interpret := fun _ _ _ => effect }
  verifier := { verifyPassport := fun _ _ => true }
  keccak256 := fun _ => 0#256
  userIdentifierHash := fun _ => 0#256
  usizeBits := 64

-- The host whose verdicts are a confident pass and whose effects do nothing.
def mockHost : Host := Host.mock (.new .Human .High) CanonicalEffect.noop

-- The block a transaction runs in. The hash is the one fixed before execution, which
-- only feeds the jury entropy.
structure BlockCtx where
  timestamp : U64
  number : U64
  blockHash : Hash

inductive OpResult where
  | None
  | StreamId (id : Runtime.StreamId)
  | CaseId (id : Nat)
  | Assurance (a : Runtime.Assurance)
deriving DecidableEq, Repr

structure OpOutcome where
  success : Bool
  revertReason : Option String
  result : OpResult
deriving DecidableEq, Repr

-- The first eight bytes of the hash, mixed with the height.
def blockEntropy (blockHash : Hash) (number : U64) : U64 :=
  (blockHash >>> 192).setWidth 64 ^^^ number

def deriveLiveness (host : Host) (livenessRef : Hash) : Bytes × Bytes :=
  (beBytes (host.keccak256 (strBytes "ubi2-liveness-challenge" ++ beBytes livenessRef)),
    beBytes (host.keccak256 (strBytes "ubi2-liveness-response" ++ beBytes livenessRef)))

def deriveTrigger (host : Host) (triggerRef : Hash) : Bytes :=
  beBytes (host.keccak256 (strBytes "ubi2-contract-trigger" ++ beBytes triggerRef))

def textCommitment (host : Host) (text : String) : Hash :=
  host.keccak256 (strBytes text)

def consumeNonce (s : MemState) (from_ : Address) (nonce now : U64) :
    Except String Unit × MemState :=
  let acct := (s.account from_).settle now
  if nonce ≠ acct.nonce then
    (.error s!"invalid nonce: expected {acct.nonce.toNat}, got {nonce.toNat}", s)
  else (.ok (), s.put { acct with nonce := acct.nonce + 1#64 })

-- The result and the error text of an operation.
def render {ε α : Type} (display : ε → String) (result : α → OpResult)
    (r : Except ε α × MemState) : Except String OpResult × MemState :=
  match r with
  | (.ok a, s) => (.ok (result a), s)
  | (.error e, s) => (.error (display e), s)

-- Stamp the deploy height and transaction onto the stored contract.
def stampDeploy (s : MemState) (id : ContractId) (number : U64) (txHash : Hash) : MemState :=
  match s.getContract id with
  | none => s
  | some c => s.putContract { c with deployBlock := number, deployTx := txHash }

def renderDeploy (number : U64) (txHash : Hash)
    (r : Except ContractError ContractId × MemState) : Except String OpResult × MemState :=
  match r with
  | (.ok id, s) => (.ok (.CaseId id), stampDeploy s id number txHash)
  | (.error e, s) => (.error e.display, s)

-- The operation of a hub transaction, after its nonce is consumed. `none` is a panic.
def hubOp (host : Host) (ctx : BlockCtx) (tx : KernelTx) (s : MemState) :
    Option (Except String OpResult × MemState) :=
  let entropy := blockEntropy ctx.blockHash ctx.number
  match tx.kind with
  | .OpenStream to_ rate deposit =>
    let (r, l) := s.ledger.openStream tx.from_ to_ rate deposit ctx.timestamp
    some (render StreamError.display OpResult.StreamId (r, { s with ledger := l }))
  | .StopStream id =>
    (s.ledger.stopStream id tx.from_ ctx.timestamp).map fun (r, l) =>
      render StreamError.display (fun _ => .None) (r, { s with ledger := l })
  | .RequestVerification livenessRef =>
    let (challengeBytes, responseBytes) := deriveLiveness host livenessRef
    let evidence : LivenessEvidence :=
      { livenessRef := livenessRef, challenge := challengeBytes, response := responseBytes }
    (s.requestVerification host.oracle host.usizeBits tx.from_ evidence entropy ctx.number).map
      (render LifecycleError.display OpResult.CaseId)
  | .Vouch vouchee =>
    some (render LifecycleError.display (fun _ => .None) (s.vouch tx.from_ vouchee ctx.number))
  | .Challenge subject evidenceRef =>
    some (render LifecycleError.display OpResult.CaseId
      (s.challenge host.usizeBits tx.from_ subject evidenceRef entropy ctx.number))
  | .SubmitVerdict caseId verdict =>
    some (render LifecycleError.display (fun _ => .CaseId caseId)
      (s.submitVerdict caseId tx.from_ verdict ctx.number))
  | .SubmitZkPassportProof submission =>
    some (render ZkPohError.display OpResult.Assurance
      (s.submitZkPassportProof host.verifier host.userIdentifierHash tx.from_ submission
        ctx.timestamp ctx.number))
  | .RegisterCsca countryCode keyId pubkey =>
    some (render CscaGovError.display (fun _ => .None)
      (s.registerCsca tx.from_ countryCode keyId pubkey ctx.number))
  | .RevokeCsca keyId =>
    some (render CscaGovError.display (fun _ => .None) (s.revokeCsca tx.from_ keyId))
  | .PinSelfIdentityRoot root =>
    some (render CscaGovError.display (fun _ => .None)
      (s.pinSelfIdentityRoot tx.from_ root ctx.number))
  | .PinSelfOfacRoot kind root =>
    some (render CscaGovError.display (fun _ => .None)
      (s.pinSelfOfacRoot tx.from_ kind root ctx.number))
  | .RetireSelfRoot root =>
    some (render CscaGovError.display (fun _ => .None) (s.retireSelfRoot tx.from_ root))
  | .DeployContract text parties =>
    some (renderDeploy ctx.number tx.txHash
      (s.deployContract text (textCommitment host text) parties))
  | .InvokeContract id triggerRef =>
    (s.invokeContract host.interpreter host.usizeBits id triggerRef
      (deriveTrigger host triggerRef) tx.from_ entropy ctx.number ctx.timestamp).map
      (render ContractError.display OpResult.CaseId)
  | .SubmitEffect caseId effect =>
    (s.submitEffect caseId tx.from_ effect ctx.number ctx.timestamp).map
      (render ContractError.display (fun _ => .CaseId caseId))
  -- not hub operations: `applyOne` runs them itself
  | .Transfer .. | .FundContract .. => some (.ok .None, s)

-- A transfer and a funding check and consume the nonce themselves. Every other kind
-- consumes it first and then runs its operation. `none` is a panic.
def applyOne (host : Host) (ctx : BlockCtx) (tx : KernelTx) (s : MemState) :
    Option (Except String OpResult × MemState) :=
  match tx.kind with
  | .Transfer to_ value =>
    let (r, l) := s.ledger.applyTransfer tx.from_ to_ value tx.nonce ctx.timestamp
    some (render TransferError.display (fun _ => .None) (r, { s with ledger := l }))
  | .FundContract id =>
    some (render ContractError.display (fun _ => .None)
      (s.fundContract tx.from_ id tx.value tx.nonce ctx.timestamp))
  | _ =>
    match consumeNonce s tx.from_ tx.nonce ctx.timestamp with
    | (.error e, s) => some (.error e, s)
    | (.ok (), s) => hubOp host ctx tx s

-- A failed transaction keeps its fee and gets the nonce after its own.
def failTx (ctx : BlockCtx) (tx : KernelTx) (s : MemState) : MemState :=
  s.put { (s.account tx.from_).settle ctx.timestamp with nonce := tx.nonce + 1#64 }

-- What a transaction does once its fee is dealt with.
def afterFee (host : Host) (ctx : BlockCtx) (tx : KernelTx) (s : MemState) :
    Except FeeError U128 × Ledger → Option (Option OpOutcome × MemState)
  | (.error _, l) => some (none, { s with ledger := l })
  | (.ok _, l) =>
    match applyOne host ctx tx { s with ledger := l } with
    | none => none
    | some (.ok result, s) =>
      some (some { success := true, revertReason := none, result := result }, s)
    | some (.error e, s) =>
      some (some { success := false, revertReason := some e, result := .None },
        failTx ctx tx s)

-- The outcome is absent when the fee could not be charged. `none` is a panic.
def applyTx (host : Host) (ctx : BlockCtx) (tx : KernelTx) (s : MemState) :
    Option (Option OpOutcome × MemState) :=
  afterFee host ctx tx s (s.ledger.chargeFee tx.from_ tx.kind.gas ctx.timestamp)

def pendingHumans (s : MemState) : List Address :=
  (s.humanity.humans.rows.filter (fun h => h.status = .Pending)).map Human.address

def sweepFinalize (s : MemState) (nowBlock verifiedAtSecs : U64) : MemState :=
  (pendingHumans s).foldl
    (fun s subject => (s.finalizeRegistration subject nowBlock verifiedAtSecs).2) s

def sybilEvidence (host : Host) (subject : Address) (blockHash : Hash) : Hash :=
  host.keccak256 (strBytes "sybil-scan" ++ beBytes subject ++ beBytes blockHash)

def sweepSybilOne (host : Host) (blockHash : Hash) (nowBlock : U64) (s : MemState)
    (subject : Address) : MemState :=
  if (host.oracle.analyzeSybil s.humanity.graphView subject).verdict ≠ .Sybil then s
  else
    (s.systemChallenge host.usizeBits HUMANITY_HUB subject
      (sybilEvidence host subject blockHash) (blockEntropy blockHash nowBlock) nowBlock).2

def sweepSybilScan (host : Host) (s : MemState) (blockHash : Hash) (nowBlock : U64) :
    MemState :=
  (pendingHumans s).foldl (sweepSybilOne host blockHash nowBlock) s

def runSweeps (host : Host) (ctx : BlockCtx) (s : MemState) : MemState :=
  sweepFinalize (sweepSybilScan host s ctx.blockHash ctx.number) ctx.number ctx.timestamp

-- The transactions in order, with the outcomes of those whose fee was charged.
def applyTxs (host : Host) (ctx : BlockCtx) (s : MemState) :
    List KernelTx → Option (List OpOutcome × MemState)
  | [] => some ([], s)
  | tx :: txs =>
    match applyTx host ctx tx s with
    | none => none
    | some (outcome, s) =>
      match applyTxs host ctx s txs with
      | none => none
      | some (outcomes, s) => some (outcome.toList ++ outcomes, s)

def applyOps (host : Host) (ctx : BlockCtx) (s : MemState) (ops : List KernelTx) :
    Option (List OpOutcome × MemState) :=
  match applyTxs host ctx s ops with
  | none => none
  | some (outcomes, s) => some (outcomes, runSweeps host ctx s)

end Ubi2.Exec
