import Ubi2.Runtime.Effect
import Ubi2.Runtime.Ledger
import Ubi2.Runtime.Zkpoh

namespace Ubi2.Runtime

open Lib

abbrev Edge := Address × Address

-- A set of directed pairs of addresses in lexicographic order.
abbrev EdgeSet := Table (toLex : Edge → Lex Edge)

-- The proof-of-humanity registry. Both vouch indexes are only read sorted, so each is
-- the set of its pairs: `(voucher, vouchee)` forward and `(vouchee, voucher)` reverse.
structure HumanRegistry where
  humans : Table Human.address := ∅
  vouchesOutIdx : EdgeSet := ∅
  vouchersOfIdx : EdgeSet := ∅
  cases : Table Case.id := ∅
  nextCaseId : CaseId := 0
  jurors : Table Juror.address := ∅
  clearedChallenges : EdgeSet := ∅
deriving DecidableEq

structure ContractRegistry where
  contracts : Table PromptContract.id := ∅
  nextContractId : ContractId := 0
  execCases : Table ExecCase.id := ∅
  nextExecCaseId : ExecCaseId := 0
deriving DecidableEq

structure ZkRegistry where
  nullifiers : Table (id : Hash → Hash) := ∅
  attributeCommitments : Table (fun e : Address × Commitments => e.1) := ∅
  csca : Table CscaEntry.keyId := ∅
  cscaGovernance : Option Address := none
  selfIdentityRoots : Table SelfIdentityRoot.root := ∅
  selfOfacRoots : Table (fun e : SelfOfacRoot => toLex (e.kind, e.root)) := ∅
  selfScope : Option Hash := none
deriving DecidableEq

structure MemState where
  ledger : Ledger := {}
  humanity : HumanRegistry := {}
  prompt : ContractRegistry := {}
  zk : ZkRegistry := {}
  epochValidators : List Address := []
deriving DecidableEq

namespace HumanRegistry

def getHuman (r : HumanRegistry) (addr : Address) : Option Human :=
  r.humans.get addr

def putHuman (r : HumanRegistry) (human : Human) : HumanRegistry :=
  { r with humans := r.humans.put human }

def putVouch (r : HumanRegistry) (vouch : Vouch) : HumanRegistry :=
  { r with
    vouchesOutIdx := r.vouchesOutIdx.put (vouch.voucher, vouch.vouchee)
    vouchersOfIdx := r.vouchersOfIdx.put (vouch.vouchee, vouch.voucher) }

def vouchesOut (r : HumanRegistry) (addr : Address) : List Address :=
  (r.vouchesOutIdx.rows.filter (fun e => e.1 = addr)).map (fun e => e.2)

def vouchersOf (r : HumanRegistry) (addr : Address) : List Address :=
  (r.vouchersOfIdx.rows.filter (fun e => e.1 = addr)).map (fun e => e.2)

def vouchEdges (r : HumanRegistry) : List Edge := r.vouchesOutIdx.rows

-- Drop the subject's own buckets, and the subject from every other bucket.
def clearVouchEdges (r : HumanRegistry) (subject : Address) : HumanRegistry :=
  { r with
    vouchesOutIdx := r.vouchesOutIdx.filter (fun e => e.1 ≠ subject ∧ e.2 ≠ subject)
    vouchersOfIdx := r.vouchersOfIdx.filter (fun e => e.1 ≠ subject ∧ e.2 ≠ subject) }

def recordChallengeCleared (r : HumanRegistry) (challenger subject : Address) :
    HumanRegistry :=
  { r with clearedChallenges := r.clearedChallenges.put (challenger, subject) }

def challengeCleared (r : HumanRegistry) (challenger subject : Address) : Bool :=
  r.clearedChallenges.contains (toLex (challenger, subject))

def getCase (r : HumanRegistry) (id : CaseId) : Option Case := r.cases.get id

def putCase (r : HumanRegistry) (c : Case) : HumanRegistry :=
  { r with cases := r.cases.put c }

def getJuror (r : HumanRegistry) (addr : Address) : Option Juror := r.jurors.get addr

def putJuror (r : HumanRegistry) (juror : Juror) : HumanRegistry :=
  { r with jurors := r.jurors.put juror }

def activeJurors (r : HumanRegistry) : List Address :=
  (r.jurors.rows.filter (fun j => j.active)).map Juror.address

def graphView (r : HumanRegistry) : GraphView := { edges := r.vouchEdges }

end HumanRegistry

namespace ContractRegistry

def getContract (r : ContractRegistry) (id : ContractId) : Option PromptContract :=
  r.contracts.get id

def putContract (r : ContractRegistry) (c : PromptContract) : ContractRegistry :=
  { r with contracts := r.contracts.put c }

def getExecCase (r : ContractRegistry) (id : ExecCaseId) : Option ExecCase :=
  r.execCases.get id

def putExecCase (r : ContractRegistry) (c : ExecCase) : ContractRegistry :=
  { r with execCases := r.execCases.put c }

end ContractRegistry

namespace ZkRegistry

def nullifierUsed (r : ZkRegistry) (nullifier : Hash) : Bool :=
  r.nullifiers.contains nullifier

def isCscaGovernance (r : ZkRegistry) (addr : Address) : Bool :=
  r.cscaGovernance = some addr

-- The root leaves both accepted sets.
def retireSelfRoot (r : ZkRegistry) (root : Hash) : ZkRegistry :=
  { r with
    selfIdentityRoots := r.selfIdentityRoots.erase root
    selfOfacRoots := r.selfOfacRoots.filter (fun e => e.root ≠ root) }

end ZkRegistry

namespace MemState

def account (s : MemState) (addr : Address) : Account := s.ledger.account addr

def put (s : MemState) (a : Account) : MemState :=
  { s with ledger := s.ledger.put a }

def getHuman (s : MemState) (addr : Address) : Option Human := s.humanity.getHuman addr

def putHuman (s : MemState) (h : Human) : MemState :=
  { s with humanity := s.humanity.putHuman h }

def clearVouchEdges (s : MemState) (subject : Address) : MemState :=
  { s with humanity := s.humanity.clearVouchEdges subject }

def getCase (s : MemState) (id : CaseId) : Option Case := s.humanity.getCase id

def putCase (s : MemState) (c : Case) : MemState :=
  { s with humanity := s.humanity.putCase c }

def cases (s : MemState) : List Case := s.humanity.cases.rows

def getContract (s : MemState) (id : ContractId) : Option PromptContract :=
  s.prompt.getContract id

def putContract (s : MemState) (c : PromptContract) : MemState :=
  { s with prompt := s.prompt.putContract c }

def getExecCase (s : MemState) (id : ExecCaseId) : Option ExecCase :=
  s.prompt.getExecCase id

def putExecCase (s : MemState) (c : ExecCase) : MemState :=
  { s with prompt := s.prompt.putExecCase c }

def activeJurors (s : MemState) : List Address := s.humanity.activeJurors

-- Both a registered active validator and a verified human.
def computeValidatorMembership (s : MemState) : List Address :=
  sortDedup (s.activeJurors.filter
    (fun a => (s.getHuman a).map Human.status = some .Verified))

def setEpochValidators (s : MemState) (validators : List Address) : MemState :=
  { s with epochValidators := sortDedup validators }

def refreshEpochValidators (s : MemState) : MemState :=
  s.setEpochValidators s.computeValidatorMembership

end MemState

end Ubi2.Runtime
