import Ubi2.Runtime.Basic

namespace Ubi2.Runtime

def MIN_VOUCHES : Nat := 2
def VOUCH_CAPACITY : Nat := 10
def JURY_SIZE : Nat := 3
def QUORUM : Nat := 2
def CHALLENGE_WINDOW : U64 := 5#64
def SYBIL_SLASH : Int := 100
def FALSE_CHALLENGE_SLASH : Int := 50

inductive Verdict where
  | Human
  | Sybil
  | Uncertain
deriving DecidableEq, Repr

inductive Confidence where
  | Low
  | Med
  | High
deriving DecidableEq, Repr

structure CanonicalVerdict where
  verdict : Verdict
  confidence : Confidence
  reasonsHash : Hash
deriving DecidableEq, Repr

namespace CanonicalVerdict

def new (verdict : Verdict) (confidence : Confidence) : CanonicalVerdict :=
  { verdict := verdict, confidence := confidence, reasonsHash := 0#256 }

def quorumKey (v : CanonicalVerdict) : Verdict × Confidence :=
  (v.verdict, v.confidence)

def isCommittable (v : CanonicalVerdict) : Bool :=
  v.verdict ≠ .Uncertain

end CanonicalVerdict

structure GraphView where
  edges : List (Address × Address)
deriving DecidableEq, Repr

-- The AI seam of the humanity layer.
structure HumanityOracle where
  gradeLiveness : Bytes → Bytes → CanonicalVerdict
  analyzeSybil : GraphView → Address → CanonicalVerdict
  adjudicate : Bytes → CanonicalVerdict

inductive Assurance where
  | Std
  | Enh
  | Dual
deriving DecidableEq, Repr

def Assurance.tag : Assurance → U8
  | .Std => 0#8
  | .Enh => 1#8
  | .Dual => 2#8

def Assurance.asStr : Assurance → String
  | .Std => "STD"
  | .Enh => "ENH"
  | .Dual => "DUAL"

inductive HumanStatus where
  | Unverified
  | Pending
  | Verified
  | Challenged
  | Revoked
deriving DecidableEq, Repr

def HumanStatus.debug : HumanStatus → String
  | .Unverified => "Unverified"
  | .Pending => "Pending"
  | .Verified => "Verified"
  | .Challenged => "Challenged"
  | .Revoked => "Revoked"

structure Human where
  address : Address
  status : HumanStatus
  verifiedAt : U64
  livenessRef : Hash
  vouchesIn : List Address
  reputation : I64
  assurance : Assurance
deriving DecidableEq, Repr

def Human.pending (address : Address) (livenessRef : Hash) : Human :=
  { address := address, status := .Pending, verifiedAt := 0#64
    livenessRef := livenessRef, vouchesIn := [], reputation := 0#64
    assurance := .Std }

-- `i64::saturating_sub`
def satSubI64 (x : I64) (y : Int) : I64 :=
  BitVec.ofInt 64 (max (-(2 ^ 63)) (min (x.toInt - y) (2 ^ 63 - 1)))

structure Vouch where
  voucher : Address
  vouchee : Address
  at_ : U64
deriving DecidableEq, Repr

inductive CaseKind where
  | Registration
  | Challenge
deriving DecidableEq, Repr

inductive CaseStatus where
  | Open
  | Committed (v : CanonicalVerdict)
  | Escalated
deriving DecidableEq, Repr

structure Case where
  id : CaseId
  subject : Address
  challenger : Address
  kind : CaseKind
  evidenceRef : Hash
  jury : List Address
  votes : List (Address × CanonicalVerdict)
  status : CaseStatus
  openedAt : U64
deriving DecidableEq, Repr

def Case.voteOf (c : Case) (juror : Address) : Option CanonicalVerdict :=
  (c.votes.find? (fun e => e.1 = juror)).map (fun e => e.2)

structure Juror where
  address : Address
  stake : U128
  active : Bool
deriving DecidableEq, Repr

-- `sort_unstable` followed by `dedup` on addresses, which have no equal but distinct
-- values.
def sortDedup (l : List Address) : List Address :=
  (Lib.Table.ofList id l).rows

-- The finalizer of SplitMix64, shared by the generator and by the two seeds.
def splitMix (z : U64) : U64 :=
  let z := (z ^^^ (z >>> 30)) * 0xBF58476D1CE4E5B9#64
  let z := (z ^^^ (z >>> 27)) * 0x94D049BB133111EB#64
  z ^^^ (z >>> 31)

-- The generator: the next state, and the word it yields.
def nextU64 (rng : U64) : U64 × U64 :=
  let rng := rng + 0x9E3779B97F4A7C15#64
  (rng, splitMix rng)

def swapAt (l : List Address) (i j : Nat) : List Address :=
  match l[i]?, l[j]? with
  | some a, some b => (l.set i b).set j a
  | _, _ => l

-- The word a draw reduces is first cast to `usize`, whose width is the target's:
-- 64 bits on the node, 32 in the browser.
def castUsize (usizeBits : Nat) (word : U64) : Nat :=
  word.toNat % 2 ^ usizeBits

def drawJury (usizeBits : Nat) (rng : U64) (candidates : List Address) (i : Nat) :
    Nat → List Address
  | 0 => candidates
  | steps + 1 =>
    let (rng, word) := nextU64 rng
    let j := i + castUsize usizeBits word % (candidates.length - i)
    drawJury usizeBits rng (swapAt candidates i j) (i + 1) steps

def selectJury (usizeBits : Nat) (candidates : List Address) (size : Nat)
    (seed : U64) : List Address :=
  let candidates := sortDedup candidates
  if candidates.length ≤ size then candidates
  else (drawJury usizeBits seed candidates 0 size).take size

-- `jury_seed` and `interpreter_seed` are the same mix of a case id and the entropy.
def caseSeed (caseId : Nat) (entropy : U64) : U64 :=
  splitMix ((BitVec.ofNat 64 caseId * 0x9E3779B97F4A7C15#64) ^^^ entropy)

def jurySeed (caseId : CaseId) (entropy : U64) : U64 :=
  caseSeed caseId entropy

inductive QuorumOutcome (α : Type) where
  | Pending
  | Committed (item : α)
  | NoQuorum
deriving DecidableEq, Repr

section Quorum

variable {α κ : Type} [DecidableEq κ] (quorumKey : α → κ) (isCommittable : α → Bool)

-- Count one item: the first group of its key grows, or a new group starts at the end.
def countItem (item : α) : List (κ × Nat × α) → List (κ × Nat × α)
  | [] => [(quorumKey item, 1, item)]
  | (k, c, e) :: gs =>
    if k = quorumKey item then (k, c + 1, e) :: gs
    else (k, c, e) :: countItem item gs

def quorumGroups (items : List (Address × α)) : List (κ × Nat × α) :=
  items.foldl (fun gs e => countItem quorumKey e.2 gs) []

def quorumTally (items : List (Address × α)) (jurySize quorum : Nat) :
    QuorumOutcome α :=
  let groups := quorumGroups quorumKey items
  match groups.find? (fun g => quorum ≤ g.2.1) with
  | some (_, _, exemplar) =>
    if isCommittable exemplar then .Committed exemplar else .NoQuorum
  | none =>
    let unused := jurySize - items.length
    let best := (groups.map (fun g => g.2.1)).foldl max 0
    if best + unused < quorum then .NoQuorum else .Pending

end Quorum

inductive Tally where
  | Pending
  | Committed (v : CanonicalVerdict)
  | Escalated
deriving DecidableEq, Repr

def tally (votes : List (Address × CanonicalVerdict)) (jurySize quorum : Nat) : Tally :=
  match quorumTally CanonicalVerdict.quorumKey CanonicalVerdict.isCommittable
      votes jurySize quorum with
  | .Pending => .Pending
  | .Committed v => .Committed v
  | .NoQuorum => .Escalated

end Ubi2.Runtime
