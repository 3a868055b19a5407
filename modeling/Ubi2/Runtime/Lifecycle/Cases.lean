import Ubi2.Runtime.Lifecycle.Frame
import Ubi2.Runtime.Jury

namespace Ubi2.Runtime

open Lib

namespace MemState

variable (s : MemState) {s' : MemState}

-- A new case enters the registry, and the counter passes its id.
def addCase (c : Case) : MemState :=
  ({ s with humanity := { s.humanity with nextCaseId := c.id + 1 } } : MemState).putCase c

-- The address may open a registration.
def Registrable (subject : Address) : Prop :=
  ∀ h, s.getHuman subject = some h → h.status = .Unverified ∨ h.status = .Revoked

-- The case that an opening at `now` adds.
structure Opens (c : Case) (subject challenger : Address) (kind : CaseKind) (now : U64) :
    Prop where
  id : c.id = s.humanity.nextCaseId
  subject : c.subject = subject
  challenger : c.challenger = challenger
  kind : c.kind = kind
  openedAt : c.openedAt = now
  jury : c.jury.Nodup

theorem openCase_cases {usizeBits : Nat} {subject challenger : Address} {kind : CaseKind}
    {evidenceRef : Hash} {entropy now : U64} {r : Except LifecycleError CaseId}
    (h : s.openCase usizeBits subject challenger kind evidenceRef entropy now = (r, s')) :
    (r = .error .NoJurors ∧ s' = s) ∨
    ∃ c, s.Opens c subject challenger kind now ∧ c.status = .Open ∧ c.votes = [] ∧
      c.jury ≠ [] ∧ r = .ok c.id ∧ s' = s.addCase c := by
  simp only [openCase] at h
  split_ifs at h with hnone
  · obtain ⟨rfl, rfl⟩ := Prod.mk.inj h
    exact Or.inl ⟨rfl, rfl⟩
  · obtain ⟨rfl, rfl⟩ := Prod.mk.inj h
    exact Or.inr ⟨_, ⟨rfl, rfl, rfl, rfl, rfl, nodup_selectJury _ _ _ _⟩, rfl, rfl,
      selectJury_ne_nil hnone (by decide), rfl, rfl⟩

theorem getCase_addCase (c : Case) (id : CaseId) :
    (s.addCase c).getCase id = if c.id = id then some c else s.getCase id :=
  Table.get_put _ _ _

theorem putHuman_of_get {h : Human} (hget : s.getHuman h.address = some h) :
    s.putHuman h = s := by
  have hput : s.humanity.humans.put h = s.humanity.humans := Table.put_of_get hget
  simp only [putHuman, HumanRegistry.putHuman, hput]

theorem applyTally_eq (c : Case) :
    applyTally c = { c with status := (applyTally c).status } := by
  unfold applyTally
  split <;> rfl

-- A registration that may proceed.
private theorem proceed_cases {oracle : HumanityOracle} {usizeBits : Nat} {subject : Address}
    {evidence : LivenessEvidence} {entropy now : U64} {r : Except LifecycleError CaseId}
    (hreg : s.Registrable subject)
    (hres : (match (s.clearVouchEdges subject).openCase usizeBits subject subject .Registration
          evidence.livenessRef entropy now with
        | (.error e, s) => some (.error e, s)
        | (.ok caseId, s) =>
          match s.getCase caseId with
          | none => none
          | some c =>
            let votes := c.jury.map (fun juror =>
              (juror, oracle.gradeLiveness evidence.challenge evidence.response))
            let c := applyTally { c with votes := c.votes ++ votes }
            let s := s.putCase c
            some (.ok caseId, s.putHuman (Human.pending subject evidence.livenessRef))) =
        some (r, s')) :
    (r = .error .NoJurors ∧ s.Registrable subject ∧ s' = s.clearVouchEdges subject) ∨
    ∃ c, s.Registrable subject ∧ s.Opens c subject subject .Registration now ∧
      c.status ≠ .Open ∧ r = .ok c.id ∧
      s' = ((s.clearVouchEdges subject).addCase c).putHuman
        (Human.pending subject evidence.livenessRef) := by
  cases hopen : (s.clearVouchEdges subject).openCase usizeBits subject subject .Registration
      evidence.livenessRef entropy now with
  | mk r₁ s₁ =>
    obtain ⟨rfl, rfl⟩ | ⟨c, hc, -, hvotes, -, rfl, rfl⟩ := openCase_cases _ hopen
    · rw [hopen] at hres
      cases hres
      exact Or.inl ⟨rfl, hreg, rfl⟩
    · rw [hopen] at hres
      simp only [getCase_addCase, if_true] at hres
      generalize hc' : applyTally { c with votes := c.votes ++ c.jury.map (fun juror =>
        (juror, oracle.gradeLiveness evidence.challenge evidence.response)) } = c' at hres
      have heq : c' = { c with
          votes := c.votes ++ c.jury.map (fun juror =>
            (juror, oracle.gradeLiveness evidence.challenge evidence.response))
          status := c'.status } := by
        rw [← hc']
        exact applyTally_eq _
      have hid : c'.id = c.id := by rw [heq]
      have hopens : s.Opens c' subject subject .Registration now := by
        rw [heq]
        exact ⟨hc.id, hc.subject, hc.challenger, hc.kind, hc.openedAt, hc.jury⟩
      have hdecided : c'.status ≠ .Open := by
        rw [← hc']
        unfold applyTally
        split
        · simp
        · simp
        · rename_i hpending
          refine absurd hpending (tally_ne_pending ?_)
          simp
      obtain ⟨rfl, rfl⟩ := Prod.mk.inj (Option.some.inj hres)
      refine Or.inr ⟨c', hreg, hopens, hdecided, by rw [hid], ?_⟩
      have hput : ((s.clearVouchEdges subject).addCase c).putCase c' =
          (s.clearVouchEdges subject).addCase c' := by
        simp only [addCase, putCase, HumanRegistry.putCase, hid, Table.put_put _ hid.symm]
      rw [hput]

-- A request is refused to a registered address. Otherwise the vouch edges are cleared,
-- and where there are jurors a decided registration is added with a pending human.
theorem requestVerification_cases {oracle : HumanityOracle} {usizeBits : Nat}
    {subject : Address} {evidence : LivenessEvidence} {entropy now : U64}
    {r : Except LifecycleError CaseId}
    (h : s.requestVerification oracle usizeBits subject evidence entropy now = some (r, s')) :
    (∃ e, r = .error e ∧ s' = s) ∨
    (r = .error .NoJurors ∧ s.Registrable subject ∧ s' = s.clearVouchEdges subject) ∨
    ∃ c, s.Registrable subject ∧ s.Opens c subject subject .Registration now ∧
      c.status ≠ .Open ∧ r = .ok c.id ∧
      s' = ((s.clearVouchEdges subject).addCase c).putHuman
        (Human.pending subject evidence.livenessRef) := by
  unfold requestVerification at h
  cases hget : s.getHuman subject with
  | none =>
    rw [hget] at h
    exact Or.inr (proceed_cases _ (fun h' hh => by rw [hget] at hh; cases hh) h)
  | some h₀ =>
    rw [hget] at h
    dsimp only at h
    split_ifs at h with hstatus
    · refine Or.inr (proceed_cases _ ?_ h)
      intro h' hh
      rw [hget] at hh
      cases hh
      exact hstatus
    · cases h
      exact Or.inl ⟨_, rfl, rfl⟩

-- The record of a vouchee counts a voucher once.
def addVoucher (h : Human) (voucher : Address) : Human :=
  if voucher ∈ h.vouchesIn then h
  else { h with vouchesIn := (h.vouchesIn ++ [voucher]).insertionSort (· ≤ ·) }

def putVouch (v : Vouch) : MemState := { s with humanity := s.humanity.putVouch v }

theorem vouch_cases {voucher vouchee : Address} {now : U64} {r : Except LifecycleError Unit}
    (h : s.vouch voucher vouchee now = (r, s')) :
    (∃ e, r = .error e ∧ s' = s) ∨
    ∃ h₀, voucher ≠ vouchee ∧ s.isVerified voucher ∧ s.getHuman vouchee = some h₀ ∧
      h₀.status = .Pending ∧ vouchee ∉ s.humanity.vouchesOut voucher ∧
      s' = (s.putVouch { voucher := voucher, vouchee := vouchee, at_ := now }).putHuman
        (addVoucher h₀ voucher) := by
  unfold vouch at h
  by_cases hself : voucher = vouchee
  · rw [if_pos hself] at h
    cases h
    exact Or.inl ⟨_, rfl, rfl⟩
  by_cases hver : s.isVerified voucher = true
  swap
  · rw [if_neg hself, if_pos (by simpa using hver)] at h
    cases h
    exact Or.inl ⟨_, rfl, rfl⟩
  rw [if_neg hself, if_neg (by simp [hver])] at h
  cases hget : s.getHuman vouchee with
  | none =>
    rw [hget] at h
    cases h
    exact Or.inl ⟨_, rfl, rfl⟩
  | some h₀ =>
    rw [hget] at h
    dsimp only at h
    by_cases hpending : h₀.status = .Pending
    swap
    · rw [if_pos hpending] at h
      cases h
      exact Or.inl ⟨_, rfl, rfl⟩
    by_cases hdup : vouchee ∈ s.humanity.vouchesOut voucher
    · rw [if_neg (not_not.mpr hpending), if_pos hdup] at h
      cases h
      exact Or.inl ⟨_, rfl, rfl⟩
    rw [if_neg (not_not.mpr hpending), if_neg hdup] at h
    by_cases hfull : VOUCH_CAPACITY ≤ (s.humanity.vouchesOut voucher).length
    · rw [if_pos hfull] at h
      cases h
      exact Or.inl ⟨_, rfl, rfl⟩
    · rw [if_neg hfull] at h
      cases h
      exact Or.inr ⟨h₀, hself, hver, rfl, hpending, hdup, rfl⟩

-- A challenged human keeps its record, except that a verified one is marked.
def challenged (h : Human) : Human :=
  if h.status = .Verified then { h with status := .Challenged } else h

theorem challengeInner_cases {usizeBits : Nat} {challenger subject : Address}
    {evidenceRef : Hash} {entropy now : U64} {requireVerified : Bool}
    {r : Except LifecycleError CaseId}
    (h : s.challengeInner usizeBits challenger subject evidenceRef entropy now
      requireVerified = (r, s')) :
    (∃ e, r = .error e ∧ s' = s) ∨
    ∃ h₀ c, s.getHuman subject = some h₀ ∧ h₀.status ≠ .Unverified ∧ h₀.status ≠ .Revoked ∧
      s.hasOpenChallenge subject = false ∧
      s.Opens c subject challenger .Challenge now ∧ c.status = .Open ∧ c.Awaits ∧
      r = .ok c.id ∧ s' = (s.addCase c).putHuman (challenged h₀) := by
  unfold challengeInner at h
  by_cases hver : (requireVerified && !s.isVerified challenger) = true
  · rw [if_pos hver] at h
    cases h
    exact Or.inl ⟨_, rfl, rfl⟩
  rw [if_neg hver] at h
  cases hget : s.getHuman subject with
  | none =>
    simp only [hget, Option.map_none, Option.getD_none, true_or, if_true] at h
    cases h
    exact Or.inl ⟨_, rfl, rfl⟩
  | some h₀ =>
    simp only [hget, Option.map_some, Option.getD_some] at h
    have haddress : h₀.address = subject := Table.key_of_get hget
    by_cases hstatus : h₀.status = .Unverified ∨ h₀.status = .Revoked
    · rw [if_pos hstatus] at h
      cases h
      exact Or.inl ⟨_, rfl, rfl⟩
    rw [if_neg hstatus] at h
    cases hopen : s.hasOpenChallenge subject with
    | true =>
      simp only [hopen, if_true] at h
      cases h
      exact Or.inl ⟨_, rfl, rfl⟩
    | false =>
      simp only [hopen, Bool.false_eq_true, if_false] at h
      cases hcool : s.humanity.challengeCleared challenger subject with
      | true =>
        simp only [hcool, if_true] at h
        cases h
        exact Or.inl ⟨_, rfl, rfl⟩
      | false =>
        simp only [hcool, Bool.false_eq_true, if_false] at h
        cases hres : s.openCase usizeBits subject challenger .Challenge evidenceRef entropy
            now with
        | mk r₁ s₁ =>
          rw [hres] at h
          obtain ⟨rfl, rfl⟩ | ⟨c, hc, hcopen, hvotes, hjury, rfl, rfl⟩ := openCase_cases s hres
          · cases h
            exact Or.inl ⟨_, rfl, rfl⟩
          · have hget₁ : (s.addCase c).getHuman subject = some h₀ := hget
            have hawaits : c.Awaits := by
              refine Case.awaits_of_length_lt hc.jury ?_
              rw [hvotes]
              exact List.length_pos_iff.mpr hjury
            refine Or.inr ⟨h₀, c, rfl, fun hu => hstatus (Or.inl hu),
              fun hr => hstatus (Or.inr hr), rfl, hc, hcopen, hawaits, ?_⟩
            dsimp only at h
            unfold challenged
            by_cases hverified : h₀.status = .Verified
            · simp only [if_pos hverified, hget₁] at h ⊢
              cases h
              exact ⟨rfl, rfl⟩
            · simp only [if_neg hverified] at h ⊢
              cases h
              refine ⟨rfl, (putHuman_of_get _ ?_).symm⟩
              rw [haddress]
              exact hget₁

-- An accepted verdict of a juror, and the case it leaves.
structure Votes (caseId : CaseId) (juror : Address) (verdict : CanonicalVerdict)
    (c c' : Case) : Prop where
  get : s.getCase caseId = some c
  isOpen : c.status = .Open
  onJury : juror ∈ c.jury
  first : c.voteOf juror = none
  tallied : c' = applyTally { c with votes := c.votes ++ [(juror, verdict)] }

theorem Votes.same {caseId : CaseId} {juror : Address} {verdict : CanonicalVerdict}
    {c c' : Case} (h : s.Votes caseId juror verdict c c') :
    c'.id = c.id ∧ c'.subject = c.subject ∧ c'.challenger = c.challenger ∧ c'.kind = c.kind ∧
      c'.openedAt = c.openedAt := by
  rw [h.tallied, applyTally_eq]
  exact ⟨rfl, rfl, rfl, rfl, rfl⟩

theorem submitVerdict_cases {caseId : CaseId} {juror : Address} {verdict : CanonicalVerdict}
    {now : U64} {r : Except LifecycleError CaseStatus}
    (h : s.submitVerdict caseId juror verdict now = (r, s')) :
    (∃ e, r = .error e ∧ s' = s) ∨
    ∃ c c', s.Votes caseId juror verdict c c' ∧ r = .ok c'.status ∧
      s' = (s.putCase c').actOnStatus c' := by
  unfold submitVerdict at h
  cases hget : s.getCase caseId with
  | none =>
    rw [hget] at h
    cases h
    exact Or.inl ⟨_, rfl, rfl⟩
  | some c =>
    rw [hget] at h
    dsimp only at h
    by_cases hopen : c.status = .Open
    swap
    · rw [if_pos hopen] at h
      cases h
      exact Or.inl ⟨_, rfl, rfl⟩
    by_cases hjury : juror ∈ c.jury
    swap
    · rw [if_neg (not_not.mpr hopen), if_pos hjury] at h
      cases h
      exact Or.inl ⟨_, rfl, rfl⟩
    rw [if_neg (not_not.mpr hopen), if_neg (not_not.mpr hjury)] at h
    cases hvote : c.voteOf juror with
    | some v =>
      rw [hvote] at h
      cases h
      exact Or.inl ⟨_, rfl, rfl⟩
    | none =>
      simp only [hvote, Option.isSome_none, Bool.false_eq_true, if_false] at h
      cases h
      exact Or.inr ⟨c, _, ⟨hget, hopen, hjury, hvote, rfl⟩, rfl, rfl⟩

-- The conditions under which a registration is finalized.
structure Finalizable (subject : Address) (h : Human) (nowBlock : U64) : Prop where
  get : s.getHuman subject = some h
  pending : h.status = .Pending
  liveness : s.livenessPassed subject
  vouches : MIN_VOUCHES ≤ h.vouchesIn.length
  window : Word.satAdd ((s.registrationOpenedAt subject).getD nowBlock) CHALLENGE_WINDOW ≤
    nowBlock
  unchallenged : s.hasPendingOrUpheldChallenge subject = false

theorem finalizeRegistration_cases {subject : Address} {nowBlock verifiedAtSecs : U64}
    {r : Except LifecycleError Unit}
    (h : s.finalizeRegistration subject nowBlock verifiedAtSecs = (r, s')) :
    (∃ e, r = .error e ∧ s' = s ∧ ∀ h₀, ¬ s.Finalizable subject h₀ nowBlock) ∨
    ∃ h₀, s.Finalizable subject h₀ nowBlock ∧ r = .ok () ∧
      s' = (s.syncAccountVerified subject true verifiedAtSecs).putHuman
        { h₀ with status := .Verified, verifiedAt := verifiedAtSecs } := by
  unfold finalizeRegistration at h
  cases hget : s.getHuman subject with
  | none =>
    rw [hget] at h
    cases h
    refine Or.inl ⟨_, rfl, rfl, fun h₀ hf => ?_⟩
    have hg := hf.get
    rw [hget] at hg
    cases hg
  | some h₀ =>
    rw [hget] at h
    dsimp only at h
    have hunique : ∀ h₁, s.Finalizable subject h₁ nowBlock → h₁ = h₀ := by
      intro h₁ hf
      have hget₁ := hf.get
      rw [hget] at hget₁
      exact (Option.some.inj hget₁).symm
    split_ifs at h with hpending hlive hvouch hwindow hchal
    · cases h
      exact Or.inl ⟨_, rfl, rfl, fun h₁ hf => hpending (hunique h₁ hf ▸ hf.pending)⟩
    · cases h
      refine Or.inl ⟨_, rfl, rfl, fun h₁ hf => ?_⟩
      have hl := hf.liveness
      simp [hl] at hlive
    · cases h
      refine Or.inl ⟨_, rfl, rfl, fun h₁ hf => ?_⟩
      have hv := hf.vouches
      rw [hunique h₁ hf] at hv
      omega
    · cases h
      exact Or.inl ⟨_, rfl, rfl, fun h₁ hf => absurd hf.window (not_le.mpr hwindow)⟩
    · cases h
      refine Or.inl ⟨_, rfl, rfl, fun h₁ hf => ?_⟩
      have hu := hf.unchallenged
      simp [hu] at hchal
    · cases h
      refine Or.inr ⟨h₀, ⟨hget, not_not.mp hpending, ?_, by omega, not_lt.mp hwindow, ?_⟩,
        rfl, rfl⟩
      · simpa using hlive
      · simpa using hchal

end MemState

end Ubi2.Runtime
