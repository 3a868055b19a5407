import Ubi2.Runtime.Ledger.Simulation
import Ubi2.Runtime.Lifecycle

namespace Ubi2.Runtime.MemState

open Lib Ledger

-- What an operation outside the contract layer may do: moves on the ledger, with the
-- contract registry and the validator snapshot as they were.
structure Frame (now : U64) (w : Authority) (s s' : MemState) : Prop where
  moves : Moves now w s.ledger s'.ledger
  prompt : s'.prompt = s.prompt
  validators : s'.epochValidators = s.epochValidators

namespace Frame

variable {now : U64} {w : Authority} {s s' s'' : MemState}

theorem refl : Frame now w s s := ⟨Moves.refl, rfl, rfl⟩

theorem trans (h : Frame now w s s') (h' : Frame now w s' s'') : Frame now w s s'' :=
  ⟨h.moves.trans h'.moves, h'.prompt.trans h.prompt, h'.validators.trans h.validators⟩

-- A change of the humanity and proof registries only.
theorem of_eq (hl : s'.ledger = s.ledger) (hp : s'.prompt = s.prompt)
    (hv : s'.epochValidators = s.epochValidators) : Frame now w s s' :=
  ⟨hl ▸ Moves.refl, hp, hv⟩

end Frame

@[simp] theorem account_putHuman (s : MemState) (h : Human) :
    (s.putHuman h).account = s.account := rfl

@[simp] theorem account_putCase (s : MemState) (c : Case) :
    (s.putCase c).account = s.account := rfl

@[simp] theorem getHuman_putCase (s : MemState) (c : Case) :
    (s.putCase c).getHuman = s.getHuman := rfl

@[simp] theorem getHuman_clearVouchEdges (s : MemState) (a : Address) :
    (s.clearVouchEdges a).getHuman = s.getHuman := rfl

theorem getHuman_putHuman (s : MemState) (h : Human) (a : Address) :
    (s.putHuman h).getHuman a = if h.address = a then some h else s.getHuman a :=
  Table.get_put _ _ _

variable (s : MemState) {now : U64} {w : Authority}

theorem frame_putHuman (h : Human) : Frame now w s (s.putHuman h) :=
  .of_eq rfl rfl rfl

theorem frame_clearVouchEdges (a : Address) : Frame now w s (s.clearVouchEdges a) :=
  .of_eq rfl rfl rfl

theorem frame_putCase (c : Case) : Frame now w s (s.putCase c) :=
  .of_eq rfl rfl rfl

theorem frame_syncAccountVerified (a : Address) (verified : Bool) (verifiedAt : U64)
    (hg : w.gates (s.account a) verified verifiedAt) :
    Frame now w s (s.syncAccountVerified a verified verifiedAt) :=
  ⟨Moves.single (Move.gate s.ledger a verified verifiedAt hg), rfl, rfl⟩

theorem frame_openCase (usizeBits : Nat) (subject challenger : Address) (kind : CaseKind)
    (evidenceRef : Hash) (entropy t : U64) :
    Frame now w s
      (s.openCase usizeBits subject challenger kind evidenceRef entropy t).2 := by
  simp only [openCase]
  split_ifs
  · exact .refl
  · exact .of_eq rfl rfl rfl

-- The case an opening returns is in the registry it leaves.
theorem getCase_openCase {usizeBits : Nat} {subject challenger : Address} {kind : CaseKind}
    {evidenceRef : Hash} {entropy t : U64} {id : CaseId} {s' : MemState}
    (h : s.openCase usizeBits subject challenger kind evidenceRef entropy t = (.ok id, s')) :
    ∃ c, s'.getCase id = some c := by
  simp only [openCase] at h
  split_ifs at h
  · cases h
  · obtain ⟨hid, rfl⟩ := Prod.mk.inj h
    cases hid
    simp [getCase, putCase, HumanRegistry.getCase, HumanRegistry.putCase]

-- A registration that may proceed.
private theorem frame_proceed {oracle : HumanityOracle} {usizeBits : Nat} {subject : Address}
    {evidence : LivenessEvidence} {entropy t : U64}
    {p : Option (Except LifecycleError CaseId × MemState)}
    (hp : p = match (s.clearVouchEdges subject).openCase usizeBits subject subject .Registration
        evidence.livenessRef entropy t with
      | (.error e, s) => some (.error e, s)
      | (.ok caseId, s) =>
        match s.getCase caseId with
        | none => none
        | some c =>
          let votes := c.jury.map (fun juror =>
            (juror, oracle.gradeLiveness evidence.challenge evidence.response))
          let c := applyTally { c with votes := c.votes ++ votes }
          let s := s.putCase c
          some (.ok caseId, s.putHuman (Human.pending subject evidence.livenessRef))) :
    ∃ r s', p = some (r, s') ∧ Frame now w s s' := by
  have hclear : Frame now w s _ := frame_clearVouchEdges s subject
  have hopen : Frame now w _ _ := frame_openCase (s.clearVouchEdges subject) usizeBits subject
    subject .Registration evidence.livenessRef entropy t
  subst hp
  cases hres : (s.clearVouchEdges subject).openCase usizeBits subject subject .Registration
      evidence.livenessRef entropy t with
  | mk r s₁ =>
    rw [hres] at hopen
    cases r with
    | error e => exact ⟨.error e, s₁, rfl, hclear.trans hopen⟩
    | ok caseId =>
      obtain ⟨c, hc⟩ := getCase_openCase (s.clearVouchEdges subject) hres
      refine ⟨.ok caseId, _, by simp only [hc]; rfl, ?_⟩
      exact (hclear.trans hopen).trans (.of_eq rfl rfl rfl)

-- A request never panics, and leaves the ledger and the contracts alone.
theorem frame_requestVerification (oracle : HumanityOracle) (usizeBits : Nat)
    (subject : Address) (evidence : LivenessEvidence) (entropy t : U64) :
    ∃ r s', s.requestVerification oracle usizeBits subject evidence entropy t = some (r, s') ∧
      Frame now w s s' := by
  unfold requestVerification
  cases hget : s.getHuman subject with
  | none => exact frame_proceed s rfl
  | some h =>
    dsimp only
    split_ifs with hstatus
    · exact frame_proceed s rfl
    · exact ⟨_, s, rfl, .refl⟩

theorem frame_vouch (voucher vouchee : Address) (t : U64) :
    Frame now w s (s.vouch voucher vouchee t).2 := by
  simp only [vouch]
  cases s.getHuman vouchee with
  | none => split_ifs <;> exact .refl
  | some h =>
    dsimp only
    split_ifs
    all_goals first | exact .refl | exact .of_eq rfl rfl rfl

theorem frame_challengeInner (usizeBits : Nat) (challenger subject : Address)
    (evidenceRef : Hash) (entropy t : U64) (requireVerified : Bool) :
    Frame now w s
      (s.challengeInner usizeBits challenger subject evidenceRef entropy t
        requireVerified).2 := by
  have hopen : Frame now w s _ := frame_openCase s usizeBits subject challenger
    .Challenge evidenceRef entropy t
  unfold challengeInner
  dsimp only
  generalize ((s.getHuman subject).map Human.status).getD .Unverified = status
  generalize s.openCase usizeBits subject challenger .Challenge evidenceRef entropy t = r
    at hopen
  obtain ⟨r, s₁⟩ := r
  cases r with
  | error e =>
    dsimp only
    split_ifs
    all_goals first | exact .refl | exact hopen
  | ok caseId =>
    dsimp only at hopen ⊢
    cases hget : s₁.getHuman subject with
    | none =>
      split_ifs
      all_goals first | exact .refl | exact hopen
    | some h =>
      have hmarked := hopen.trans (frame_putHuman s₁ { h with status := .Challenged })
      split_ifs
      all_goals first | exact .refl | exact hopen | exact hmarked

theorem frame_slashReputation (a : Address) (amount : Int) :
    Frame now w s (s.slashReputation a amount) := by
  simp only [slashReputation]
  cases s.getHuman a with
  | none => exact .refl
  | some h => exact frame_putHuman s _

@[simp] theorem account_slashReputation (a : Address) (amount : Int) :
    (s.slashReputation a amount).account = s.account := by
  simp only [slashReputation]
  cases s.getHuman a <;> rfl

theorem frame_foldl_slashReputation (vouchers : List Address) (amount : Int) :
    Frame now w s (vouchers.foldl (fun s v => slashReputation s v amount) s) := by
  induction vouchers generalizing s with
  | nil => exact .refl
  | cons v vouchers ih => exact (frame_slashReputation s v amount).trans (ih _)

theorem account_foldl_slashReputation (vouchers : List Address) (amount : Int) :
    (vouchers.foldl (fun s v => slashReputation s v amount) s).account = s.account := by
  induction vouchers generalizing s with
  | nil => rfl
  | cons v vouchers ih => rw [List.foldl_cons, ih, account_slashReputation]

theorem frame_revoke (subject : Address) (hg : w.gates (s.account subject) false 0#64) :
    Frame now w s (s.revoke subject) := by
  simp only [revoke]
  have hslashed : ∀ s₁ : MemState, Frame now w s s₁ → s₁.account = s.account →
      Frame now w s ((s₁.clearVouchEdges subject).syncAccountVerified subject false 0#64) := by
    intro s₁ h₁ haccount
    refine (h₁.trans (frame_clearVouchEdges s₁ subject)).trans
      (frame_syncAccountVerified _ subject false 0#64 ?_)
    rw [← haccount] at hg
    exact hg
  cases s.getHuman subject with
  | none => exact hslashed s .refl rfl
  | some h =>
    refine hslashed _
      ((frame_foldl_slashReputation s h.vouchesIn SYBIL_SLASH).trans (frame_putHuman _ _)) ?_
    rw [account_putHuman, account_foldl_slashReputation]

theorem frame_restoreChallenged (subject : Address)
    (hg : ∀ h, s.getHuman subject = some h → h.status = .Challenged →
      w.gates (s.account subject) true h.verifiedAt) :
    Frame now w s (s.restoreChallenged subject) := by
  simp only [restoreChallenged]
  cases hget : s.getHuman subject with
  | none => exact .refl
  | some h =>
    dsimp only
    split_ifs with hstatus
    · exact (frame_syncAccountVerified s subject true h.verifiedAt
        (hg h hget hstatus)).trans (frame_putHuman _ _)
    · exact .refl

theorem frame_actOnStatus (c : Case)
    (hrevoke : ∀ v, c.status = .Committed v → v.verdict = .Sybil →
      w.gates (s.account c.subject) false 0#64)
    (hrestore : ∀ h, s.getHuman c.subject = some h → h.status = .Challenged →
      w.gates (s.account c.subject) true h.verifiedAt) :
    Frame now w s (s.actOnStatus c) := by
  have hback : Frame now w s _ := frame_restoreChallenged s c.subject hrestore
  unfold actOnStatus
  cases hstatus : c.status with
  | Open => exact .refl
  | Escalated =>
    dsimp only
    split_ifs
    · exact hback
    · exact .refl
  | Committed v =>
    dsimp only
    cases hverdict : v.verdict with
    | Uncertain => exact .refl
    | Sybil => exact frame_revoke s c.subject (hrevoke v hstatus hverdict)
    | Human =>
      dsimp only
      split_ifs
      · exact (hback.trans (frame_slashReputation _ _ _)).trans (.of_eq rfl rfl rfl)
      · exact .refl

theorem frame_finalizeRegistration (subject : Address) (nowBlock verifiedAtSecs : U64)
    (hg : ∀ x, w.gates x true verifiedAtSecs) :
    Frame now w s (s.finalizeRegistration subject nowBlock verifiedAtSecs).2 := by
  simp only [finalizeRegistration]
  cases s.getHuman subject with
  | none => exact .refl
  | some h =>
    dsimp only
    split_ifs
    · exact .refl
    · exact .refl
    · exact .refl
    · exact .refl
    · exact .refl
    · exact (frame_syncAccountVerified s subject true verifiedAtSecs (hg _)).trans
        (frame_putHuman _ _)

theorem frame_enhance (subject : Address) (h : Human) (t : U64)
    (hg : w.gates (s.account subject) true t) : Frame now w s (s.enhance subject h t).2 :=
  (frame_syncAccountVerified s subject true t hg).trans (frame_putHuman _ _)

theorem frame_acceptZkProof (subject : Address) (pi : ZkPublicInputs) (t : U64)
    (hg : w.gates (s.account subject) true t) :
    Frame now w s (s.acceptZkProof subject pi t).2 := by
  unfold acceptZkProof
  have hwrite : ∀ zk : ZkRegistry, Frame now w s { s with zk := zk } :=
    fun zk => .of_eq rfl rfl rfl
  dsimp only
  split
  · split_ifs
    · exact (hwrite _).trans (frame_putHuman _ _)
    · exact (hwrite _).trans (frame_enhance _ _ _ t hg)
  · exact (hwrite _).trans (frame_enhance _ _ _ t hg)

theorem frame_submitZkPassportProof (verifier : ZkPassportVerifier)
    (userIdentifierHash : Bytes → Hash) (subject : Address) (submission : ZkProofSubmission)
    (t nowBlock : U64) (hg : w.gates (s.account subject) true t) :
    Frame now w s
      (s.submitZkPassportProof verifier userIdentifierHash subject submission t nowBlock).2 := by
  unfold submitZkPassportProof
  split
  · exact .refl
  · exact frame_acceptZkProof s subject _ t hg

theorem frame_governed (caller : Address)
    (change : ZkRegistry → Except CscaGovError ZkRegistry) :
    Frame now w s (s.governed caller change).2 := by
  simp only [governed]
  split_ifs
  · exact .refl
  · cases change s.zk with
    | error e => exact .refl
    | ok zk => exact .of_eq rfl rfl rfl

end Ubi2.Runtime.MemState
