import Ubi2.Runtime.Lifecycle.Records

namespace Ubi2.Runtime

open Lib

-- The scalar of the field that a nullifier encodes.
def fieldElement (n : Hash) : Nat := n.toNat % BN254_FR_MODULUS_BE.toNat

theorem eq_of_canonical {n n' : Hash} (h : isCanonicalScalar n) (h' : isCanonicalScalar n')
    (hsame : fieldElement n = fieldElement n') : n = n' := by
  simp only [isCanonicalScalar, decide_eq_true_eq, BitVec.lt_def] at h h'
  simp only [fieldElement, Nat.mod_eq_of_lt h, Nat.mod_eq_of_lt h'] at hsame
  exact BitVec.eq_of_toNat_eq hsame

theorem ZkRegistry.nullifierUsed_iff {r : ZkRegistry} {n : Hash} :
    r.nullifierUsed n = true ↔ n ∈ r.nullifiers.rows := by
  simp only [nullifierUsed, Table.contains_eq_true, Table.get_eq_some_iff]
  constructor
  · rintro ⟨a, ha, rfl⟩
    exact ha
  · intro h
    exact ⟨n, h, rfl⟩

namespace MemState

variable (s : MemState) {s' : MemState}

theorem zk_slashReputation (v : Address) (n : Int) : (s.slashReputation v n).zk = s.zk := by
  simp only [slashReputation]
  cases s.getHuman v <;> rfl

theorem zk_restoreChallenged (a : Address) : (s.restoreChallenged a).zk = s.zk := by
  simp only [restoreChallenged]
  cases s.getHuman a with
  | none => rfl
  | some h =>
    dsimp only
    split_ifs <;> rfl

theorem zk_revoke (a : Address) : (s.revoke a).zk = s.zk := by
  have hfold : ∀ (vouchers : List Address) (s : MemState),
      (vouchers.foldl (fun s v => slashReputation s v SYBIL_SLASH) s).zk = s.zk := by
    intro vouchers
    induction vouchers with
    | nil => exact fun _ => rfl
    | cons v vouchers ih => exact fun s => (ih _).trans (zk_slashReputation s v _)
  unfold revoke
  cases s.getHuman a with
  | none => rfl
  | some h => exact hfold h.vouchesIn s

-- No jury case touches the passports.
theorem zk_actOnStatus (c : Case) : (s.actOnStatus c).zk = s.zk := by
  unfold actOnStatus
  cases c.status with
  | Open => rfl
  | Escalated =>
    dsimp only
    split_ifs
    · exact zk_restoreChallenged s c.subject
    · rfl
  | Committed v =>
    dsimp only
    cases v.verdict with
    | Sybil => exact zk_revoke s c.subject
    | Uncertain => rfl
    | Human =>
      dsimp only
      split_ifs
      · exact (zk_slashReputation _ _ _).trans (zk_restoreChallenged s c.subject)
      · rfl

theorem zk_requestVerification {oracle : HumanityOracle} {usizeBits : Nat} {subject : Address}
    {evidence : LivenessEvidence} {entropy block : U64} {r : Except LifecycleError CaseId}
    (h : s.requestVerification oracle usizeBits subject evidence entropy block = some (r, s')) :
    s'.zk = s.zk := by
  obtain ⟨e, -, rfl⟩ | ⟨-, -, rfl⟩ | ⟨c, -, -, -, -, rfl⟩ := requestVerification_cases s h <;> rfl

theorem zk_vouch (voucher vouchee : Address) (block : U64) :
    (s.vouch voucher vouchee block).2.zk = s.zk := by
  cases h : s.vouch voucher vouchee block with
  | mk r s' =>
    obtain ⟨e, -, rfl⟩ | ⟨h₀, -, -, -, -, -, rfl⟩ := vouch_cases s h <;> rfl

theorem zk_challengeInner (usizeBits : Nat) (challenger subject : Address) (evidenceRef : Hash)
    (entropy block : U64) (requireVerified : Bool) :
    (s.challengeInner usizeBits challenger subject evidenceRef entropy block
      requireVerified).2.zk = s.zk := by
  cases h : s.challengeInner usizeBits challenger subject evidenceRef entropy block
      requireVerified with
  | mk r s' =>
    obtain ⟨e, -, rfl⟩ | ⟨h₀, c, -, -, -, -, -, -, -, -, rfl⟩ := challengeInner_cases s h <;> rfl

theorem zk_submitVerdict (caseId : CaseId) (juror : Address) (v : CanonicalVerdict)
    (block : U64) : (s.submitVerdict caseId juror v block).2.zk = s.zk := by
  cases h : s.submitVerdict caseId juror v block with
  | mk r s' =>
    obtain ⟨e, -, rfl⟩ | ⟨c, c', -, -, rfl⟩ := submitVerdict_cases s h
    · rfl
    · exact zk_actOnStatus _ c'

theorem zk_finalizeRegistration (subject : Address) (block now : U64) :
    (s.finalizeRegistration subject block now).2.zk = s.zk := by
  cases h : s.finalizeRegistration subject block now with
  | mk r s' =>
    obtain ⟨e, -, rfl, -⟩ | ⟨h₀, -, -, rfl⟩ := finalizeRegistration_cases s h <;> rfl

-- Governance changes the trust roots and spends no passport.
theorem nullifiers_governed (caller : Address) {change : ZkRegistry → Except CscaGovError ZkRegistry}
    (hchange : ∀ zk zk', change zk = .ok zk' → zk'.nullifiers = zk.nullifiers) :
    (s.governed caller change).2.zk.nullifiers = s.zk.nullifiers := by
  unfold governed
  split_ifs
  · rfl
  · cases hzk : change s.zk with
    | error e => rfl
    | ok zk => exact hchange _ _ hzk

theorem nullifiers_revokeCsca (caller : Address) (keyId : Hash) :
    (s.revokeCsca caller keyId).2.zk.nullifiers = s.zk.nullifiers := by
  refine nullifiers_governed s caller (fun zk zk' h => ?_)
  cases hget : zk.csca.get keyId with
  | none => simp [hget] at h
  | some entry =>
    simp only [hget] at h
    cases h
    rfl

-- An accepted passport adds its nullifier and no other.
theorem nullifiers_acceptZkProof (subject : Address) (pi : ZkPublicInputs) (now : U64) :
    (s.acceptZkProof subject pi now).2.zk.nullifiers = s.zk.nullifiers.put pi.nullifier := by
  have hget : ({ s with zk := { s.zk with
      nullifiers := s.zk.nullifiers.put pi.nullifier
      attributeCommitments :=
        s.zk.attributeCommitments.put (subject, pi.attributeCommitments) } } : MemState).getHuman
          subject = s.getHuman subject := rfl
  unfold acceptZkProof
  dsimp only
  rw [hget]
  cases s.getHuman subject with
  | none => rfl
  | some h =>
    dsimp only
    split_ifs <;> rfl

-- The passport of the nullifier has been taken by the human.
structure Binds (s s' : MemState) (nullifier : Hash) (subject : Address) : Prop where
  canonical : isCanonicalScalar nullifier
  fresh : s.zk.nullifierUsed nullifier = false
  spent : s'.zk.nullifiers = s.zk.nullifiers.put nullifier
  unproved : ∀ h, s.getHuman subject = some h → h.status ≠ .Revoked ∧ h.assurance = .Std
  proved : ∃ h, s'.getHuman subject = some h ∧ h.status = .Verified ∧ h.assurance ≠ .Std
  others : ∀ a, a ≠ subject → s'.getHuman a = s.getHuman a

private theorem others_acceptZkProof (subject : Address) (pi : ZkPublicInputs) (now : U64) :
    (∃ h, (s.acceptZkProof subject pi now).2.getHuman subject = some h ∧ h.status = .Verified ∧
      h.assurance ≠ .Std) ∧
    ∀ a, a ≠ subject → (s.acceptZkProof subject pi now).2.getHuman a = s.getHuman a := by
  have hwrite : ∀ (s₁ : MemState) (h : Human), s₁.humanity = s.humanity → h.address = subject →
      h.status = .Verified → h.assurance ≠ .Std →
      (∃ h', (s₁.putHuman h).getHuman subject = some h' ∧ h'.status = .Verified ∧
        h'.assurance ≠ .Std) ∧
      ∀ a, a ≠ subject → (s₁.putHuman h).getHuman a = s.getHuman a := by
    intro s₁ h hhum haddress hstatus hassurance
    have hget : s₁.getHuman = s.getHuman := by
      funext a
      simp only [getHuman, hhum]
    refine ⟨⟨h, ?_, hstatus, hassurance⟩, fun a ha => ?_⟩
    · rw [getHuman_putHuman, if_pos haddress]
    · rw [getHuman_putHuman, if_neg (fun heq => ha (heq.symm.trans haddress)), hget]
  have hget : ({ s with zk := { s.zk with
      nullifiers := s.zk.nullifiers.put pi.nullifier
      attributeCommitments :=
        s.zk.attributeCommitments.put (subject, pi.attributeCommitments) } } : MemState).getHuman
          subject = s.getHuman subject := rfl
  unfold acceptZkProof
  dsimp only
  rw [hget]
  cases hs : s.getHuman subject with
  | none => exact hwrite _ _ rfl rfl rfl (by simp)
  | some h =>
    have haddress : h.address = subject := Table.key_of_get hs
    dsimp only
    split_ifs with hverified
    · exact hwrite _ _ rfl haddress hverified (by simp)
    · exact hwrite _ _ rfl haddress rfl (by simp)

-- A submission is refused and changes nothing, or takes a passport that was free.
theorem submitZkPassportProof_binds {verifier : ZkPassportVerifier}
    {userIdentifierHash : Bytes → Hash} {subject : Address} {submission : ZkProofSubmission}
    {now block : U64} {r : Except ZkPohError Assurance}
    (h : s.submitZkPassportProof verifier userIdentifierHash subject submission now block =
      (r, s')) :
    (∃ e, r = .error e ∧ s' = s) ∨
    ∃ a, r = .ok a ∧ Binds s s' (submission.signals SELF_IDX_NULLIFIER) subject := by
  obtain ⟨e, -, rfl, rfl⟩ | ⟨herr, rfl, rfl⟩ := submitZkPassportProof_cases s h
  · exact Or.inl ⟨e, rfl, rfl⟩
  · have haccepted := zkAccepted_of_error_none s herr
    obtain ⟨hproved, hothers⟩ :=
      others_acceptZkProof s subject { signals := submission.signals } now
    refine Or.inr ⟨_, rfl, haccepted.canonical, haccepted.fresh,
      nullifiers_acceptZkProof s subject _ now, fun h hget => ?_, hproved, hothers⟩
    have hsubject := haccepted.subject
    simp only [zkSubjectError, hget] at hsubject
    split_ifs at hsubject with hrevoked hassurance
    exact ⟨hrevoked, not_not.mp hassurance⟩

end MemState

end Ubi2.Runtime
