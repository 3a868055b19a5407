import Mathlib.Data.List.Sort
import Ubi2.Runtime.State

namespace Ubi2.Runtime

open Lib Lib.Encode

inductive LifecycleError where
  | AlreadyRegistered (status : HumanStatus)
  | NoJurors
  | VoucherNotVerified
  | VouchCapacityReached
  | SelfVouch
  | DuplicateVouch
  | VoucheeNotPending
  | NotChallengeable (status : HumanStatus)
  | ChallengerNotVerified
  | ChallengeAlreadyOpen
  | ChallengeOnCooldown
  | NoSuchCase (id : CaseId)
  | NotOnJury
  | CaseClosed
  | AlreadyVoted
  | NotPending
  | LivenessNotPassed
  | InsufficientVouches (have_ need : Nat)
  | ChallengeWindowOpen (since need : U64)
  | ChallengePending
deriving DecidableEq, Repr

def LifecycleError.display : LifecycleError → String
  | .AlreadyRegistered s => s!"address already registered ({s.debug})"
  | .NoJurors => "no active jurors to adjudicate"
  | .VoucherNotVerified => "voucher is not a verified human"
  | .VouchCapacityReached => "voucher has reached VOUCH_CAPACITY"
  | .SelfVouch => "cannot vouch for oneself"
  | .DuplicateVouch => "duplicate vouch"
  | .VoucheeNotPending => "vouchee has no open registration"
  | .NotChallengeable s => s!"subject is not challengeable ({s.debug})"
  | .ChallengerNotVerified => "challenger is not a verified human"
  | .ChallengeAlreadyOpen => "subject already has an open challenge"
  | .ChallengeOnCooldown => "challenger already cleared a challenge on this subject"
  | .NoSuchCase id => s!"no such case: {id}"
  | .NotOnJury => "submitter is not on this case's jury"
  | .CaseClosed => "case is already committed or escalated"
  | .AlreadyVoted => "juror already voted on this case"
  | .NotPending => "no open registration for this address"
  | .LivenessNotPassed => "liveness check has not passed"
  | .InsufficientVouches h need => s!"insufficient vouches: have {h}, need {need}"
  | .ChallengeWindowOpen since need =>
    s!"challenge window open: opened at {since.toNat}, need {need.toNat} blocks"
  | .ChallengePending => "an upheld or open challenge is pending"

namespace MemState

def syncAccountVerified (s : MemState) (addr : Address) (verified : Bool)
    (verifiedAt : U64) : MemState :=
  s.put { s.account addr with verified := verified, verifiedAt := verifiedAt }

-- The open case, with no votes yet. The counter has advanced by one.
def openCase (s : MemState) (usizeBits : Nat) (subject challenger : Address)
    (kind : CaseKind) (evidenceRef : Hash) (entropy now : U64) :
    Except LifecycleError CaseId × MemState :=
  let candidates := s.activeJurors
  if candidates = [] then (.error .NoJurors, s)
  else
    let id := s.humanity.nextCaseId
    let s := { s with humanity := { s.humanity with nextCaseId := id + 1 } }
    let jury := selectJury usizeBits candidates JURY_SIZE (jurySeed id entropy)
    let c : Case :=
      { id := id, subject := subject, challenger := challenger, kind := kind
        evidenceRef := evidenceRef, jury := jury, votes := [], status := .Open
        openedAt := now }
    (.ok id, s.putCase c)

end MemState

def applyTally (c : Case) : Case :=
  match tally c.votes c.jury.length QUORUM with
  | .Committed v => { c with status := .Committed v }
  | .Escalated => { c with status := .Escalated }
  | .Pending => { c with status := .Open }

structure LivenessEvidence where
  livenessRef : Hash
  challenge : Bytes
  response : Bytes

namespace MemState

-- `none` is the panic of the `expect` on the case just created. The vouch edges stay
-- cleared when there is no juror to open the case.
def requestVerification (s : MemState) (oracle : HumanityOracle) (usizeBits : Nat)
    (subject : Address) (evidence : LivenessEvidence) (entropy now : U64) :
    Option (Except LifecycleError CaseId × MemState) :=
  let proceed : Option (Except LifecycleError CaseId × MemState) :=
    let s := s.clearVouchEdges subject
    match s.openCase usizeBits subject subject .Registration evidence.livenessRef
        entropy now with
    | (.error e, s) => some (.error e, s)
    | (.ok caseId, s) =>
      match s.getCase caseId with
      | none => none
      | some c =>
        let votes := c.jury.map (fun juror =>
          (juror, oracle.gradeLiveness evidence.challenge evidence.response))
        let c := applyTally { c with votes := c.votes ++ votes }
        let s := s.putCase c
        some (.ok caseId, s.putHuman (Human.pending subject evidence.livenessRef))
  match s.getHuman subject with
  | some h =>
    if h.status = .Unverified ∨ h.status = .Revoked then proceed
    else some (.error (.AlreadyRegistered h.status), s)
  | none => proceed

def isVerified (s : MemState) (addr : Address) : Bool :=
  (s.getHuman addr).any (fun h => h.status = .Verified)

def vouch (s : MemState) (voucher vouchee : Address) (now : U64) :
    Except LifecycleError Unit × MemState :=
  if voucher = vouchee then (.error .SelfVouch, s)
  else if !s.isVerified voucher then (.error .VoucherNotVerified, s)
  else
    match s.getHuman vouchee with
    | none => (.error .VoucheeNotPending, s)
    | some h =>
      if h.status ≠ .Pending then (.error .VoucheeNotPending, s)
      else if vouchee ∈ s.humanity.vouchesOut voucher then (.error .DuplicateVouch, s)
      else if VOUCH_CAPACITY ≤ (s.humanity.vouchesOut voucher).length then
        (.error .VouchCapacityReached, s)
      else
        let s := { s with humanity :=
          s.humanity.putVouch { voucher := voucher, vouchee := vouchee, at_ := now } }
        let h :=
          if voucher ∈ h.vouchesIn then h
          else { h with vouchesIn := (h.vouchesIn ++ [voucher]).insertionSort (· ≤ ·) }
        (.ok (), s.putHuman h)

def hasOpenChallenge (s : MemState) (subject : Address) : Bool :=
  s.cases.any (fun c => c.subject = subject && c.kind = .Challenge && c.status = .Open)

def challengeInner (s : MemState) (usizeBits : Nat) (challenger subject : Address)
    (evidenceRef : Hash) (entropy now : U64) (requireVerifiedChallenger : Bool) :
    Except LifecycleError CaseId × MemState :=
  if requireVerifiedChallenger && !s.isVerified challenger then
    (.error .ChallengerNotVerified, s)
  else
    let status := ((s.getHuman subject).map Human.status).getD .Unverified
    if status = .Unverified ∨ status = .Revoked then (.error (.NotChallengeable status), s)
    else if s.hasOpenChallenge subject then (.error .ChallengeAlreadyOpen, s)
    else if s.humanity.challengeCleared challenger subject then
      (.error .ChallengeOnCooldown, s)
    else
      match s.openCase usizeBits subject challenger .Challenge evidenceRef entropy now with
      | (.error e, s) => (.error e, s)
      | (.ok caseId, s) =>
        if status = .Verified then
          match s.getHuman subject with
          | none => (.ok caseId, s)
          | some h => (.ok caseId, s.putHuman { h with status := .Challenged })
        else (.ok caseId, s)

def challenge (s : MemState) (usizeBits : Nat) (challenger subject : Address)
    (evidenceRef : Hash) (entropy now : U64) : Except LifecycleError CaseId × MemState :=
  s.challengeInner usizeBits challenger subject evidenceRef entropy now true

def systemChallenge (s : MemState) (usizeBits : Nat) (system subject : Address)
    (evidenceRef : Hash) (entropy now : U64) : Except LifecycleError CaseId × MemState :=
  s.challengeInner usizeBits system subject evidenceRef entropy now false

def slashReputation (s : MemState) (addr : Address) (amount : Int) : MemState :=
  match s.getHuman addr with
  | none => s
  | some h => s.putHuman { h with reputation := satSubI64 h.reputation amount }

-- The emission of the subject stops here without being settled first.
def revoke (s : MemState) (subject : Address) : MemState :=
  let s :=
    match s.getHuman subject with
    | none => s
    | some h =>
      let s := h.vouchesIn.foldl (fun s voucher => slashReputation s voucher SYBIL_SLASH) s
      s.putHuman { h with status := .Revoked, verifiedAt := 0#64, vouchesIn := [] }
  (s.clearVouchEdges subject).syncAccountVerified subject false 0#64

-- A challenge that did not stand gives the subject its status back.
def restoreChallenged (s : MemState) (subject : Address) : MemState :=
  match s.getHuman subject with
  | none => s
  | some h =>
    if h.status = .Challenged then
      (s.syncAccountVerified subject true h.verifiedAt).putHuman
        { h with status := .Verified }
    else s

-- What the new status of a case means for its subject and its challenger.
def actOnStatus (s : MemState) (c : Case) : MemState :=
  match c.status with
  | .Committed v =>
    match v.verdict with
    | .Sybil => s.revoke c.subject
    | .Human =>
      if c.kind = .Challenge then
        let s := s.restoreChallenged c.subject
        let s := s.slashReputation c.challenger FALSE_CHALLENGE_SLASH
        { s with humanity := s.humanity.recordChallengeCleared c.challenger c.subject }
      else s
    | .Uncertain => s
  | .Escalated => if c.kind = .Challenge then s.restoreChallenged c.subject else s
  | .Open => s

def submitVerdict (s : MemState) (caseId : CaseId) (juror : Address)
    (verdict : CanonicalVerdict) (_now : U64) :
    Except LifecycleError CaseStatus × MemState :=
  match s.getCase caseId with
  | none => (.error (.NoSuchCase caseId), s)
  | some c =>
    if c.status ≠ .Open then (.error .CaseClosed, s)
    else if juror ∉ c.jury then (.error .NotOnJury, s)
    else if (c.voteOf juror).isSome then (.error .AlreadyVoted, s)
    else
      let c := applyTally { c with votes := c.votes ++ [(juror, verdict)] }
      (.ok c.status, (s.putCase c).actOnStatus c)

-- The subject's registration case with the largest id.
def lastRegistration (s : MemState) (subject : Address) : Option Case :=
  s.cases.reverse.find? (fun c => c.subject = subject ∧ c.kind = .Registration)

def livenessPassed (s : MemState) (subject : Address) : Bool :=
  match s.lastRegistration subject with
  | none => false
  | some c =>
    match c.status with
    | .Committed v => v.verdict = .Human
    | _ => false

def registrationOpenedAt (s : MemState) (subject : Address) : Option U64 :=
  (s.lastRegistration subject).map Case.openedAt

def hasPendingOrUpheldChallenge (s : MemState) (subject : Address) : Bool :=
  s.cases.any (fun c => c.subject = subject && c.kind = .Challenge &&
    match c.status with
    | .Open => true
    | .Committed v => v.verdict = .Sybil
    | .Escalated => false)

def finalizeRegistration (s : MemState) (subject : Address) (nowBlock : U64)
    (verifiedAtSecs : U64) : Except LifecycleError Unit × MemState :=
  match s.getHuman subject with
  | none => (.error .NotPending, s)
  | some h =>
    if h.status ≠ .Pending then (.error .NotPending, s)
    else if !s.livenessPassed subject then (.error .LivenessNotPassed, s)
    else
      let vouches := h.vouchesIn.length
      if vouches < MIN_VOUCHES then
        (.error (.InsufficientVouches vouches MIN_VOUCHES), s)
      else
        let openedAt := (s.registrationOpenedAt subject).getD nowBlock
        if nowBlock < Word.satAdd openedAt CHALLENGE_WINDOW then
          (.error (.ChallengeWindowOpen openedAt CHALLENGE_WINDOW), s)
        else if s.hasPendingOrUpheldChallenge subject then (.error .ChallengePending, s)
        else
          let s := s.syncAccountVerified subject true verifiedAtSecs
          (.ok (), s.putHuman { h with status := .Verified, verifiedAt := verifiedAtSecs })

def registerJuror (s : MemState) (addr : Address) (stake : U128) : MemState :=
  { s with humanity :=
    s.humanity.putJuror { address := addr, stake := stake, active := true } }

def seedVerifiedHuman (s : MemState) (addr : Address) (verifiedAt : U64) : MemState :=
  let s := s.putHuman
    { address := addr, status := .Verified, verifiedAt := verifiedAt
      livenessRef := 0#256, vouchesIn := [], reputation := 0#64, assurance := .Std }
  s.syncAccountVerified addr true verifiedAt

end MemState

inductive ZkPohError where
  | UnknownScheme (tag : U8)
  | UnexpectedAttestation
  | WrongScope
  | SubmitterMismatch
  | UserContextHashMismatch
  | StaleProofDate
  | UntrustedSelfRoot
  | UntrustedOfacRoot
  | NullifierAlreadyUsed
  | InvalidProof
  | AlreadyEnhanced (a : Assurance)
  | SubjectRevoked
  | NonCanonicalNullifier
deriving DecidableEq, Repr

def ZkPohError.display : ZkPohError → String
  | .UnknownScheme t => s!"unknown passport scheme tag {t.toNat}"
  | .UnexpectedAttestation => "attestation_id is not 1 (E-Passport)"
  | .WrongScope => "scope is not the canonical UBI2_SELF_SCOPE"
  | .SubmitterMismatch => "userContextData submitter does not match the tx sender"
  | .UserContextHashMismatch => "hash160(userContextData) does not match user_identifier"
  | .StaleProofDate => "current_date is outside the freshness window"
  | .UntrustedSelfRoot => "merkle_root is not an accepted Self identity root"
  | .UntrustedOfacRoot => "an OFAC root is not in the accepted OFAC set"
  | .NullifierAlreadyUsed => "nullifier already used (one passport, one human)"
  | .InvalidProof => "ZK proof verification failed"
  | .AlreadyEnhanced a => s!"human already ZK-enhanced ({a.asStr})"
  | .SubjectRevoked => "subject is revoked"
  | .NonCanonicalNullifier => "non-canonical nullifier (>= BN254 scalar order r)"

structure ZkProofSubmission where
  proof : Bytes
  signals : Fin 21 → Hash
  schemeTag : U8
  userContextData : Bytes

namespace MemState

-- The date of the proof lies within the freshness window around `now`.
def dateFresh (pi : ZkPublicInputs) (now : U64) : Bool :=
  match currentDateToEpoch pi.currentDate with
  | none => false
  | some dateEpoch =>
    Word.satSub now SELF_DATE_WINDOW_SECS ≤ dateEpoch ∧
      dateEpoch ≤ Word.satAdd now SELF_DATE_WINDOW_SECS

def ofacRootsAccepted (s : MemState) (pi : ZkPublicInputs) (nowBlock : U64) : Bool :=
  [OFAC_KIND_PASSPORTNO, OFAC_KIND_NAMEDOB, OFAC_KIND_NAMEYOB].all (fun kind =>
    selfOfacRootAccepted s.zk.selfOfacRoots.rows (BitVec.ofNat 8 kind)
      (pi.ofacRoot kind) nowBlock)

-- The subject is revoked, or carries a zero-knowledge proof already.
def zkSubjectError (s : MemState) (subject : Address) : Option ZkPohError :=
  match s.getHuman subject with
  | none => none
  | some h =>
    if h.status = .Revoked then some .SubjectRevoked
    else if h.assurance ≠ .Std then some (.AlreadyEnhanced h.assurance)
    else none

-- The first check of a submission that fails, in the order the checks are made.
def zkProofError (s : MemState) (verifier : ZkPassportVerifier)
    (userIdentifierHash : Bytes → Hash) (subject : Address)
    (submission : ZkProofSubmission) (now nowBlock : U64) : Option ZkPohError :=
  let pi : ZkPublicInputs := { signals := submission.signals }
  let ucd := submission.userContextData
  let nullifier := pi.nullifier
  if submission.schemeTag ≠ SCHEME_TAG_PASSPORT then
    some (.UnknownScheme submission.schemeTag)
  else if pi.attestationId ≠ u64ToHash SELF_ATTESTATION_ID_EPASSPORT then
    some .UnexpectedAttestation
  else if s.zk.selfScope ≠ some pi.scope then some .WrongScope
  else if ucd.length < 64 then some .SubmitterMismatch
  else if (ucd.drop 44).take 20 ≠ beBytes subject then some .SubmitterMismatch
  else if userIdentifierHash ucd ≠ pi.userIdentifier then some .UserContextHashMismatch
  else if !dateFresh pi now then some .StaleProofDate
  else if !selfIdentityRootAccepted s.zk.selfIdentityRoots.rows pi.merkleRoot nowBlock then
    some .UntrustedSelfRoot
  else if !s.ofacRootsAccepted pi nowBlock then some .UntrustedOfacRoot
  else
    match s.zkSubjectError subject with
    | some e => some e
    | none =>
      if !isCanonicalScalar nullifier then some .NonCanonicalNullifier
      else if s.zk.nullifierUsed nullifier then some .NullifierAlreadyUsed
      else if !verifier.verifyPassport submission.proof pi then some .InvalidProof
      else none

-- A human that was not verified by vouches becomes so at `now`.
def enhance (s : MemState) (subject : Address) (h : Human) (now : U64) :
    Assurance × MemState :=
  let s := s.syncAccountVerified subject true now
  (.Enh, s.putHuman { h with status := .Verified, verifiedAt := now, assurance := .Enh })

-- The writes of an accepted proof.
def acceptZkProof (s : MemState) (subject : Address) (pi : ZkPublicInputs) (now : U64) :
    Assurance × MemState :=
  let s := { s with zk := { s.zk with
    nullifiers := s.zk.nullifiers.put pi.nullifier
    attributeCommitments :=
      s.zk.attributeCommitments.put (subject, pi.attributeCommitments) } }
  match s.getHuman subject with
  | some h =>
    if h.status = .Verified then (.Dual, s.putHuman { h with assurance := .Dual })
    else s.enhance subject h now
  | none => s.enhance subject (Human.pending subject 0#256) now

def submitZkPassportProof (s : MemState) (verifier : ZkPassportVerifier)
    (userIdentifierHash : Bytes → Hash) (subject : Address)
    (submission : ZkProofSubmission) (now nowBlock : U64) :
    Except ZkPohError Assurance × MemState :=
  match s.zkProofError verifier userIdentifierHash subject submission now nowBlock with
  | some e => (.error e, s)
  | none =>
    let (resulting, s) := s.acceptZkProof subject { signals := submission.signals } now
    (.ok resulting, s)

end MemState

inductive CscaGovError where
  | NotGovernance
  | UnknownCsca
deriving DecidableEq, Repr

def CscaGovError.display : CscaGovError → String
  | .NotGovernance => "caller is not the CSCA governance authority"
  | .UnknownCsca => "no such CSCA key id"

namespace MemState

-- The gate that every governance operation passes before it changes the registry.
def governed (s : MemState) (caller : Address)
    (change : ZkRegistry → Except CscaGovError ZkRegistry) :
    Except CscaGovError Unit × MemState :=
  if !s.zk.isCscaGovernance caller then (.error .NotGovernance, s)
  else
    match change s.zk with
    | .error e => (.error e, s)
    | .ok zk => (.ok (), { s with zk := zk })

def registerCsca (s : MemState) (caller : Address) (countryCode : BitVec 24)
    (keyId : Hash) (pubkey : Bytes) (nowBlock : U64) : Except CscaGovError Unit × MemState :=
  s.governed caller fun zk =>
    .ok { zk with csca := zk.csca.put (CscaEntry.active countryCode keyId pubkey nowBlock) }

def revokeCsca (s : MemState) (caller : Address) (keyId : Hash) :
    Except CscaGovError Unit × MemState :=
  s.governed caller fun zk =>
    match zk.csca.get keyId with
    | none => .error .UnknownCsca
    | some entry => .ok { zk with csca := zk.csca.put { entry with status := .Revoked } }

def pinSelfIdentityRoot (s : MemState) (caller : Address) (root : Hash) (nowBlock : U64) :
    Except CscaGovError Unit × MemState :=
  s.governed caller fun zk =>
    let entry : SelfIdentityRoot := { root := root, pinnedAtBlock := nowBlock }
    .ok { zk with selfIdentityRoots := zk.selfIdentityRoots.put entry }

def pinSelfOfacRoot (s : MemState) (caller : Address) (kind : U8) (root : Hash)
    (nowBlock : U64) : Except CscaGovError Unit × MemState :=
  s.governed caller fun zk =>
    let entry : SelfOfacRoot := { kind := kind, root := root, pinnedAtBlock := nowBlock }
    .ok { zk with selfOfacRoots := zk.selfOfacRoots.put entry }

def retireSelfRoot (s : MemState) (caller : Address) (root : Hash) :
    Except CscaGovError Unit × MemState :=
  s.governed caller fun zk => .ok (zk.retireSelfRoot root)

def seedSelfIdentityRoot (s : MemState) (root : Hash) : MemState :=
  let entry : SelfIdentityRoot := { root := root, pinnedAtBlock := 0#64 }
  { s with zk := { s.zk with selfIdentityRoots := s.zk.selfIdentityRoots.put entry } }

def seedSelfOfacRoot (s : MemState) (kind : U8) (root : Hash) : MemState :=
  let entry : SelfOfacRoot := { kind := kind, root := root, pinnedAtBlock := 0#64 }
  { s with zk := { s.zk with selfOfacRoots := s.zk.selfOfacRoots.put entry } }

def seedSelfScope (s : MemState) (scope : Hash) : MemState :=
  { s with zk := { s.zk with selfScope := some scope } }

def seedCsca (s : MemState) (countryCode : BitVec 24) (keyId : Hash) (pubkey : Bytes) :
    MemState :=
  let entry := CscaEntry.active countryCode keyId pubkey 0#64
  { s with zk := { s.zk with csca := s.zk.csca.put entry } }

end MemState

end Ubi2.Runtime
