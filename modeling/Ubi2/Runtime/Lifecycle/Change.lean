import Ubi2.Runtime.Contracts.Frame
import Ubi2.Runtime.Lifecycle.Cases

namespace Ubi2.Runtime

open Lib Ledger

-- When the emission of an account starts, while it is on.
def Account.gate (a : Account) : Option U64 :=
  if a.verified then some a.verifiedAt else none

-- When the emission of a human starts: only the two verified statuses accrue.
def Human.gate (h : Human) : Option U64 :=
  if h.status = .Verified ∨ h.status = .Challenged then some h.verifiedAt else none

-- The case is decided against its subject.
def Case.upholds (c : Case) : Prop := ∃ v, c.status = .Committed v ∧ v.verdict = .Sybil

instance (c : Case) : Decidable c.upholds :=
  match h : c.status with
  | .Committed v => decidable_of_iff (v.verdict = .Sybil)
      ⟨fun hv => ⟨v, h, hv⟩, fun ⟨w, hw, hv⟩ => by rw [h] at hw; cases hw; exact hv⟩
  | .Open => .isFalse fun ⟨w, hw, _⟩ => by rw [h] at hw; cases hw
  | .Escalated => .isFalse fun ⟨w, hw, _⟩ => by rw [h] at hw; cases hw

namespace MemState

def accountGate (s : MemState) (a : Address) : Option U64 := (s.account a).gate

def humanGate (s : MemState) (a : Address) : Option U64 := (s.getHuman a).bind Human.gate

-- Everything that an operation can do to the registry of humans and to the emission
-- gates of the accounts, where `ok` says whom a registry may see revoked.
inductive Change (ok : HumanRegistry → Address → Prop) : MemState → MemState → Prop where
  | frame {s s' : MemState} (humanity : s'.humanity = s.humanity)
      (gates : s'.accountGate = s.accountGate) : Change ok s s'
  | clear (s : MemState) (subject : Address) (hreg : s.Registrable subject) :
      Change ok s (s.clearVouchEdges subject)
  | request (s : MemState) (subject : Address) (livenessRef : Hash) (c : Case) (block : U64)
      (hreg : s.Registrable subject) (hc : s.Opens c subject subject .Registration block)
      (hdecided : c.status ≠ .Open) :
      Change ok s (((s.clearVouchEdges subject).addCase c).putHuman
        (Human.pending subject livenessRef))
  | vouch (s : MemState) (v : Vouch) (h : Human) (hself : v.voucher ≠ v.vouchee)
      (hverified : s.isVerified v.voucher) (hget : s.getHuman v.vouchee = some h)
      (hpending : h.status = .Pending) (hnew : v.vouchee ∉ s.humanity.vouchesOut v.voucher) :
      Change ok s ((s.putVouch v).putHuman (addVoucher h v.voucher))
  | challenge (s : MemState) (challenger subject : Address) (h : Human) (c : Case)
      (block : U64) (hget : s.getHuman subject = some h) (hknown : h.status ≠ .Unverified)
      (hstanding : h.status ≠ .Revoked) (hnone : s.hasOpenChallenge subject = false)
      (hc : s.Opens c subject challenger .Challenge block) (hopen : c.status = .Open)
      (hawaits : c.Awaits) :
      Change ok s ((s.addCase c).putHuman (challenged h))
  | verdict (s : MemState) (caseId : CaseId) (juror : Address) (v : CanonicalVerdict)
      (c c' : Case) (hvotes : s.Votes caseId juror v c c')
      (hok : c'.upholds → ok s.humanity c'.subject) :
      Change ok s ((s.putCase c').actOnStatus c')
  | finalize (s : MemState) (subject : Address) (h : Human) (block now : U64)
      (hf : s.Finalizable subject h block) :
      Change ok s ((s.syncAccountVerified subject true now).putHuman
        { h with status := .Verified, verifiedAt := now })
  | prove (s : MemState) (subject : Address) (pi : ZkPublicInputs) (now : U64)
      (hsubject : s.zkSubjectError subject = none) :
      Change ok s (s.acceptZkProof subject pi now).2

def Changes (ok : HumanRegistry → Address → Prop) : MemState → MemState → Prop :=
  Relation.ReflTransGen (Change ok)

namespace Changes

variable {ok : HumanRegistry → Address → Prop} {s s' s'' : MemState}

theorem refl : Changes ok s s := Relation.ReflTransGen.refl

theorem trans (h : Changes ok s s') (h' : Changes ok s' s'') : Changes ok s s'' :=
  Relation.ReflTransGen.trans h h'

theorem single (h : Change ok s s') : Changes ok s s' := Relation.ReflTransGen.single h

end Changes

end MemState

namespace Ledger

variable {now : U64} {w : Authority} {l l' : Ledger}

private theorem gate_eq_of {a b : Account} (hv : b.verified = a.verified)
    (ht : b.verifiedAt = a.verifiedAt) : b.gate = a.gate := by
  simp only [Account.gate, hv, ht]

-- A move that sets no gate leaves the gate of every account alone.
theorem gate_of_move (h : Move now w l l') (hw : ∀ x v t, ¬ w.gates x v t) (a : Address) :
    (l'.account a).gate = (l.account a).gate := by
  have hput : ∀ (l : Ledger) (x : Account), x.verified = (l.account x.address).verified →
      x.verifiedAt = (l.account x.address).verifiedAt →
      ((l.put x).account a).gate = (l.account a).gate := by
    intro l x hv ht
    rw [account_put]
    split_ifs with hx
    · exact gate_eq_of (by rw [hv, hx]) (by rw [ht, hx])
    · rfl
  cases h with
  | settle b => exact hput l _ (by simp) (by simp)
  | pay b c v hb hne hv =>
    rw [hput _ _ ?_ ?_, hput l _ (by simp [Account.debit]) (by simp [Account.debit])]
    · simp [account_put_ne l (x := (l.account b).debit v) (a := c) (by simpa using hne),
        Account.credit]
    · simp [account_put_ne l (x := (l.account b).debit v) (a := c) (by simpa using hne),
        Account.credit]
  | mint v hb => exact hput l _ (by simp [Account.credit]) (by simp [Account.credit])
  | renonce b n hb => exact hput l _ (by simp) (by simp)
  | lock b c rate deposit hb hne hv =>
    rw [account_putStream]
    have hsame : ∀ c, ({ l with nextId := l.nextId + 1 } : Ledger).account c = l.account c :=
      fun _ => rfl
    rw [← hsame a]
    exact hput { l with nextId := l.nextId + 1 } _ (by rw [hsame]; simp [Account.debit])
      (by rw [hsame]; simp [Account.debit])
  | draw s hs =>
    rw [account_putStream]
    exact hput l _ (by simp [Account.credit]) (by simp [Account.credit])
  | close s hs hb hdone hopen =>
    rw [account_putStream]
    exact hput l _ (by simp [Account.credit]) (by simp [Account.credit])
  | gate b v t hb => exact absurd hb (hw _ _ _)

theorem gate_of_moves (h : Moves now w l l') (hw : ∀ x v t, ¬ w.gates x v t) (a : Address) :
    (l'.account a).gate = (l.account a).gate :=
  Run.invariant (P := fun l' => (l'.account a).gate = (l.account a).gate)
    (fun _ _ hmove hl => (gate_of_move hmove hw a).trans hl) h rfl

end Ledger

namespace MemState

variable (s : MemState) {s' : MemState} {now : U64} {w : Authority}
variable {ok : HumanRegistry → Address → Prop}

-- A run of moves on the accounts, whatever it does to the contracts, is one change.
theorem changes_of_moves (hhum : s'.humanity = s.humanity)
    (hmoves : Moves now w s.ledger s'.ledger) (hw : ∀ x v t, ¬ w.gates x v t) : Changes ok s s' :=
  .single (.frame hhum (funext fun a => gate_of_moves hmoves hw a))

theorem changes_requestVerification {oracle : HumanityOracle} {usizeBits : Nat}
    {subject : Address} {evidence : LivenessEvidence} {entropy block : U64}
    {r : Except LifecycleError CaseId}
    (h : s.requestVerification oracle usizeBits subject evidence entropy block = some (r, s')) :
    Changes ok s s' := by
  obtain ⟨e, -, rfl⟩ | ⟨-, hreg, rfl⟩ | ⟨c, hreg, hc, hdecided, -, rfl⟩ :=
    requestVerification_cases s h
  · exact .refl
  · exact .single (.clear s subject hreg)
  · exact .single (.request s subject _ c block hreg hc hdecided)

theorem changes_vouch {voucher vouchee : Address} {block : U64}
    {r : Except LifecycleError Unit} (h : s.vouch voucher vouchee block = (r, s')) :
    Changes ok s s' := by
  obtain ⟨e, -, rfl⟩ | ⟨h₀, hself, hver, hget, hpending, hnew, rfl⟩ := vouch_cases s h
  · exact .refl
  · exact .single (.vouch s ⟨voucher, vouchee, block⟩ h₀ hself hver hget hpending hnew)

theorem changes_challengeInner {usizeBits : Nat} {challenger subject : Address}
    {evidenceRef : Hash} {entropy block : U64} {requireVerified : Bool}
    {r : Except LifecycleError CaseId}
    (h : s.challengeInner usizeBits challenger subject evidenceRef entropy block
      requireVerified = (r, s')) : Changes ok s s' := by
  obtain ⟨e, -, rfl⟩ | ⟨h₀, c, hget, hknown, hstanding, hnone, hc, hopen, hawaits, -, rfl⟩ :=
    challengeInner_cases s h
  · exact .refl
  · exact .single (.challenge s challenger subject h₀ c block hget hknown hstanding hnone hc hopen
      hawaits)

theorem changes_submitVerdict {caseId : CaseId} {juror : Address} {v : CanonicalVerdict}
    {block : U64} {r : Except LifecycleError CaseStatus}
    (hok : ∀ c c', s.Votes caseId juror v c c' → c'.upholds → ok s.humanity c'.subject)
    (h : s.submitVerdict caseId juror v block = (r, s')) : Changes ok s s' := by
  obtain ⟨e, -, rfl⟩ | ⟨c, c', hvotes, -, rfl⟩ := submitVerdict_cases s h
  · exact .refl
  · exact .single (.verdict s caseId juror v c c' hvotes (hok c c' hvotes))

theorem changes_finalizeRegistration {subject : Address} {block verifiedAtSecs : U64}
    {r : Except LifecycleError Unit}
    (h : s.finalizeRegistration subject block verifiedAtSecs = (r, s')) : Changes ok s s' := by
  obtain ⟨e, -, rfl, -⟩ | ⟨h₀, hf, -, rfl⟩ := finalizeRegistration_cases s h
  · exact .refl
  · exact .single (.finalize s subject h₀ block verifiedAtSecs hf)

-- A submission is refused at its first failing check and changes nothing, or accepted.
theorem submitZkPassportProof_cases {verifier : ZkPassportVerifier}
    {userIdentifierHash : Bytes → Hash} {subject : Address} {submission : ZkProofSubmission}
    {t block : U64} {r : Except ZkPohError Assurance}
    (h : s.submitZkPassportProof verifier userIdentifierHash subject submission t block =
      (r, s')) :
    (∃ e, s.zkProofError verifier userIdentifierHash subject submission t block = some e ∧
      r = .error e ∧ s' = s) ∨
    (s.zkProofError verifier userIdentifierHash subject submission t block = none ∧
      r = .ok (s.acceptZkProof subject { signals := submission.signals } t).1 ∧
      s' = (s.acceptZkProof subject { signals := submission.signals } t).2) := by
  unfold submitZkPassportProof at h
  cases herr : s.zkProofError verifier userIdentifierHash subject submission t block with
  | some e =>
    rw [herr] at h
    cases h
    exact Or.inl ⟨e, rfl, rfl, rfl⟩
  | none =>
    rw [herr] at h
    cases h
    exact Or.inr ⟨rfl, rfl, rfl⟩

-- What the checks of an accepted submission establish.
structure ZkAccepted (verifier : ZkPassportVerifier) (subject : Address)
    (submission : ZkProofSubmission) : Prop where
  subject : s.zkSubjectError subject = none
  canonical : isCanonicalScalar (ZkPublicInputs.mk submission.signals).nullifier
  fresh : s.zk.nullifierUsed (ZkPublicInputs.mk submission.signals).nullifier = false
  verified : verifier.verifyPassport submission.proof ⟨submission.signals⟩

private theorem of_ite_eq_none {p : Prop} [Decidable p] {e : ZkPohError}
    {x : Option ZkPohError} (h : (if p then some e else x) = none) : ¬ p ∧ x = none := by
  split_ifs at h with hp
  exact ⟨hp, h⟩

theorem zkAccepted_of_error_none {verifier : ZkPassportVerifier}
    {userIdentifierHash : Bytes → Hash} {subject : Address} {submission : ZkProofSubmission}
    {t block : U64}
    (h : s.zkProofError verifier userIdentifierHash subject submission t block = none) :
    s.ZkAccepted verifier subject submission := by
  unfold zkProofError at h
  obtain ⟨-, h⟩ := of_ite_eq_none h
  obtain ⟨-, h⟩ := of_ite_eq_none h
  obtain ⟨-, h⟩ := of_ite_eq_none h
  obtain ⟨-, h⟩ := of_ite_eq_none h
  obtain ⟨-, h⟩ := of_ite_eq_none h
  obtain ⟨-, h⟩ := of_ite_eq_none h
  obtain ⟨-, h⟩ := of_ite_eq_none h
  obtain ⟨-, h⟩ := of_ite_eq_none h
  obtain ⟨-, h⟩ := of_ite_eq_none h
  cases hsubject : s.zkSubjectError subject with
  | some e =>
    rw [hsubject] at h
    cases h
  | none =>
    rw [hsubject] at h
    obtain ⟨hcanonical, h⟩ := of_ite_eq_none h
    obtain ⟨hused, h⟩ := of_ite_eq_none h
    obtain ⟨hverified, -⟩ := of_ite_eq_none h
    exact ⟨hsubject, by simpa using hcanonical, by simpa using hused, by simpa using hverified⟩

theorem changes_submitZkPassportProof {verifier : ZkPassportVerifier}
    {userIdentifierHash : Bytes → Hash} {subject : Address} {submission : ZkProofSubmission}
    {t block : U64} {r : Except ZkPohError Assurance}
    (h : s.submitZkPassportProof verifier userIdentifierHash subject submission t block =
      (r, s')) : Changes ok s s' := by
  obtain ⟨e, -, -, rfl⟩ | ⟨herr, -, rfl⟩ := submitZkPassportProof_cases s h
  · exact .refl
  · exact .single (.prove s subject _ t (zkAccepted_of_error_none s herr).subject)

-- A verdict sets a gate only by the ruling of the case that it is counted in.
theorem frame_submitVerdict {caseId : CaseId} {juror : Address} {verdict : CanonicalVerdict}
    {t : U64}
    (hrevoke : ∀ c c', s.Votes caseId juror verdict c c' → c'.upholds →
      w.gates (s.account c'.subject) false 0#64)
    (hrestore : ∀ c c' h, s.Votes caseId juror verdict c c' →
      s.getHuman c'.subject = some h → h.status = .Challenged →
      w.gates (s.account c'.subject) true h.verifiedAt) :
    Frame now w s (s.submitVerdict caseId juror verdict t).2 := by
  have hres : s.submitVerdict caseId juror verdict t =
      ((s.submitVerdict caseId juror verdict t).1, (s.submitVerdict caseId juror verdict t).2) :=
    rfl
  obtain ⟨e, -, heq⟩ | ⟨c, c', hvotes, -, heq⟩ := submitVerdict_cases s hres
  · rw [heq]
    exact .refl
  · rw [heq]
    refine (frame_putCase s c').trans (frame_actOnStatus _ c' ?_ ?_)
    · exact fun v hstatus hverdict => hrevoke c c' hvotes ⟨v, hstatus, hverdict⟩
    · exact fun h hget hchallenged => hrestore c c' h hvotes hget hchallenged

theorem changes_governed (caller : Address)
    (change : ZkRegistry → Except CscaGovError ZkRegistry) :
    Changes ok s (s.governed caller change).2 := by
  have hframe : Frame 0#64 (signer 0#160) s (s.governed caller change).2 :=
    frame_governed s caller change
  refine changes_of_moves s ?_ hframe.moves (by simp [signer])
  simp only [governed]
  split_ifs
  · rfl
  · cases change s.zk <;> rfl

end MemState

end Ubi2.Runtime
