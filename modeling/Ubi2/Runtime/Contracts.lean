import Ubi2.Runtime.State

namespace Ubi2.Runtime

open Lib

inductive ContractError where
  | NoParties
  | TextTooLarge (len max : Nat)
  | TooManyParties (count max : Nat)
  | NoSuchContract (id : ContractId)
  | ContractTerminated (id : ContractId)
  | NoInterpreters
  | NoSuchCase (id : ExecCaseId)
  | NotOnJury
  | CaseClosed
  | AlreadySubmitted
  | Transfer (e : TransferError)
deriving DecidableEq, Repr

def ContractError.display : ContractError → String
  | .NoParties => "a contract must declare at least one party"
  | .TextTooLarge len max => s!"contract text is {len} bytes, exceeds the {max}-byte cap"
  | .TooManyParties count max => s!"contract declares {count} parties, exceeds the {max} cap"
  | .NoSuchContract id => s!"no such contract: {id}"
  | .ContractTerminated id => s!"contract {id} is terminated"
  | .NoInterpreters => "no active interpreters to interpret the contract"
  | .NoSuchCase id => s!"no such exec case: {id}"
  | .NotOnJury => "submitter is not on this case's interpreter jury"
  | .CaseClosed => "exec case is already committed or aborted"
  | .AlreadySubmitted => "interpreter already submitted on this case"
  | .Transfer e => s!"contract funding transfer failed: {e.display}"

inductive EffectError where
  | Insolvent (need escrow : U128)
  | RefundToNonParty (party : Address)
  | Stream (e : StreamError)
  | NotOwnedStream (id : StreamId)
  | AbortOp
deriving DecidableEq, Repr

namespace MemState

def deployContract (s : MemState) (text : String) (textRef : Hash)
    (parties : List Address) : Except ContractError ContractId × MemState :=
  if parties = [] then (.error .NoParties, s)
  else if MAX_CONTRACT_TEXT_BYTES < text.utf8ByteSize then
    (.error (.TextTooLarge text.utf8ByteSize MAX_CONTRACT_TEXT_BYTES), s)
  else if MAX_CONTRACT_PARTIES < parties.length then
    (.error (.TooManyParties parties.length MAX_CONTRACT_PARTIES), s)
  else
    let id := s.prompt.nextContractId
    let s := { s with prompt := { s.prompt with nextContractId := id + 1 } }
    (.ok id, s.putContract (PromptContract.new id text textRef parties))

def fundContract (s : MemState) (funder : Address) (id : ContractId) (amount : U128)
    (nonce now : U64) : Except ContractError Unit × MemState :=
  match s.getContract id with
  | none => (.error (.NoSuchContract id), s)
  | some contract =>
    if contract.status = .Terminated then (.error (.ContractTerminated id), s)
    else
      match s.ledger.applyTransfer funder (contractAddress id) amount nonce now with
      | (.error e, l) => (.error (.Transfer e), { s with ledger := l })
      | (.ok (), l) =>
        let s := { s with ledger := l }
        (.ok (), s.putContract
          { contract with escrow := Word.satAdd contract.escrow amount })

-- The checks an operation has to pass before anything is applied.
def validateOp (contract : PromptContract) (ownedStreams : List StreamId) :
    Op → Except EffectError Unit
  | .Transfer _ _ => .ok ()
  | .Refund party _ =>
    if contract.isParty party then .ok () else .error (.RefundToNonParty party)
  | .OpenStream _ rate deposit =>
    if rate = 0#128 then .error (.Stream .ZeroRate)
    else if deposit = 0#128 then .error (.Stream .ZeroDeposit)
    else if MAX_RATE < rate then .error (.Stream (.RateTooHigh rate MAX_RATE))
    else .ok ()
  | .StopStream id =>
    if id ∈ ownedStreams then .ok () else .error (.NotOwnedStream id)
  | .SetVar _ _ => .ok ()
  | .Abort _ => .error .AbortOp

-- What an operation takes out of the escrow.
def opDraw : Op → U128
  | .Transfer _ amount => amount
  | .Refund _ amount => amount
  | .OpenStream _ _ deposit => deposit
  | _ => 0#128

def validateOps (contract : PromptContract) (ownedStreams : List StreamId)
    (draw : U128) : List Op → Except EffectError U128
  | [] => .ok draw
  | op :: ops =>
    match validateOp contract ownedStreams op with
    | .error e => .error e
    | .ok () => validateOps contract ownedStreams (Word.satAdd draw (opDraw op)) ops

-- The state of the apply phase: the ledger, the owned copy of the contract record and
-- the nonce of the next escrow transfer.
structure EffectRun where
  ledger : Ledger
  contract : PromptContract
  escrowNonce : U64

-- One operation of the apply phase. `none` is the panic of an `expect`, or of the
-- `unreachable!` on an abort.
def applyOp (escrowAddr : Address) (now : U64) (r : EffectRun) : Op → Option EffectRun
  | .Transfer to_ amount | .Refund to_ amount =>
    match r.ledger.applyTransfer escrowAddr to_ amount r.escrowNonce now with
    | (.error _, _) => none
    | (.ok (), l) =>
      some
        { ledger := l
          contract := { r.contract with escrow := Word.satSub r.contract.escrow amount }
          escrowNonce := r.escrowNonce + 1#64 }
  | .OpenStream to_ rate deposit =>
    match r.ledger.openStream escrowAddr to_ rate deposit now with
    | (.error _, _) => none
    | (.ok _, l) =>
      some
        { r with
          ledger := l
          contract := { r.contract with escrow := Word.satSub r.contract.escrow deposit } }
  | .StopStream id =>
    match r.ledger.stopStream id escrowAddr now with
    | none => none
    | some (.error _, _) => none
    | some (.ok refund, l) =>
      some
        { r with
          ledger := l
          contract := { r.contract with escrow := Word.satAdd r.contract.escrow refund } }
  | .SetVar key value =>
    some { r with contract := { r.contract with vars := r.contract.vars.put (key, value) } }
  | .Abort _ => none

def applyOps (escrowAddr : Address) (now : U64) (r : EffectRun) :
    List Op → Option EffectRun
  | [] => some r
  | op :: ops =>
    match applyOp escrowAddr now r op with
    | none => none
    | some r => applyOps escrowAddr now r ops

-- The apply phase starts from the settled escrow account.
def effectStart (s : MemState) (contract : PromptContract) (escrowAddr : Address)
    (now : U64) : EffectRun :=
  let escrowAcct := (s.account escrowAddr).settle now
  { ledger := s.ledger.put escrowAcct
    contract := contract
    escrowNonce := escrowAcct.nonce }

-- Phase 1 validates every operation, phase 2 applies them all. `none` is a panic.
def applyEffect (s : MemState) (contractId : ContractId) (effect : CanonicalEffect)
    (now : U64) : Option (Except EffectError Unit × MemState) :=
  match s.getContract contractId with
  | none => some (.error (.Insolvent 0#128 0#128), s)
  | some contract =>
    let escrowAddr := contractAddress contractId
    match validateOps contract (s.ledger.outgoing escrowAddr) 0#128 effect.ops with
    | .error e => some (.error e, s)
    | .ok draw =>
      if contract.escrow < draw then some (.error (.Insolvent draw contract.escrow), s)
      else
        match applyOps escrowAddr now (s.effectStart contract escrowAddr now) effect.ops with
        | none => none
        | some r => some (.ok (), { s with ledger := r.ledger }.putContract r.contract)

-- Tally the submissions of a case and act on the outcome. `none` is a panic.
def resolveCase (s : MemState) (c : ExecCase) (block now : U64) :
    Option (ExecCase × MemState) :=
  match tallyEffects c.effects c.jury.length QUORUM with
  | none => none
  | some .Pending => some ({ c with status := .Open }, s)
  | some .NoQuorum => some ({ c with status := .Aborted, resolvedAt := some block }, s)
  | some (.Committed effect) =>
    if effect.isAbort then
      some ({ c with status := .Aborted, resolvedAt := some block }, s)
    else
      match s.applyEffect c.contract effect now with
      | none => none
      | some (.ok (), s) =>
        some ({ c with status := .Committed effect, resolvedAt := some block }, s)
      | some (.error _, s) =>
        some ({ c with status := .Aborted, resolvedAt := some block }, s)

def stateView (s : MemState) (contract : PromptContract) (now : U64) : ContractStateView :=
  { contractId := contract.id
    escrow := contract.escrow
    parties := contract.parties
    vars := contract.sortedVars
    streams := s.ledger.outgoing (contractAddress contract.id)
    now := now }

def interpreterSeed (caseId : ExecCaseId) (entropy : U64) : U64 :=
  caseSeed caseId entropy

-- The case of an invocation, as its jury has answered it. The id of the contract is the
-- one that was looked up.
def invokedCase (s : MemState) (interpreter : ContractInterpreter) (usizeBits : Nat)
    (id : ContractId) (contract : PromptContract) (triggerRef : Hash) (trigger : Bytes)
    (invoker : Address) (entropy block now : U64) : ExecCase :=
  let caseId := s.prompt.nextExecCaseId
  let jury := selectJury usizeBits s.activeJurors JURY_SIZE (interpreterSeed caseId entropy)
  let view := s.stateView contract now
  { id := caseId
    contract := id
    triggerRef := triggerRef
    invoker := invoker
    jury := jury
    effects := jury.map (fun interp =>
      (interp, interpreter.interpret (strBytes contract.text) view trigger))
    status := .Open
    openedAt := block
    resolvedAt := none }

def invokeContract (s : MemState) (interpreter : ContractInterpreter) (usizeBits : Nat)
    (id : ContractId) (triggerRef : Hash) (trigger : Bytes) (invoker : Address)
    (entropy block now : U64) : Option (Except ContractError ExecCaseId × MemState) :=
  match s.getContract id with
  | none => some (.error (.NoSuchContract id), s)
  | some contract =>
    if contract.status = .Terminated then some (.error (.ContractTerminated id), s)
    else if s.activeJurors = [] then some (.error .NoInterpreters, s)
    else
      let c := s.invokedCase interpreter usizeBits id contract triggerRef trigger invoker
        entropy block now
      let s := { s with prompt := { s.prompt with nextExecCaseId := c.id + 1 } }
      match s.resolveCase c block now with
      | none => none
      | some (c', s) => some (.ok c.id, s.putExecCase c')

def submitEffect (s : MemState) (caseId : ExecCaseId) (interpreter : Address)
    (effect : CanonicalEffect) (block now : U64) :
    Option (Except ContractError ExecStatus × MemState) :=
  match s.getExecCase caseId with
  | none => some (.error (.NoSuchCase caseId), s)
  | some c =>
    if c.status ≠ .Open then some (.error .CaseClosed, s)
    else if interpreter ∉ c.jury then some (.error .NotOnJury, s)
    else if (c.effectOf interpreter).isSome then some (.error .AlreadySubmitted, s)
    else
      match s.resolveCase { c with effects := c.effects ++ [(interpreter, effect)] }
          block now with
      | none => none
      | some (c, s) => some (.ok c.status, s.putExecCase c)

end MemState

end Ubi2.Runtime
