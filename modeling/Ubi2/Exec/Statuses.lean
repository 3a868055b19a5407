import Ubi2.Exec.Challenges

namespace Ubi2.Runtime.MemState

open Ubi2.Lib

variable {s s' : MemState} {subject : Address}

-- The status of the record of an address.
def statusOf (s : MemState) (a : Address) : Option HumanStatus := (s.getHuman a).map Human.status

theorem statusOf_eq (s : MemState) (a : Address) :
    s.statusOf a = (s.coreOf a).map Human.status := by
  rw [statusOf, coreOf, Option.map_map]
  rfl

theorem statusOf_of_coreOf (h : s'.coreOf = s.coreOf) : s'.statusOf = s.statusOf := by
  funext a
  rw [statusOf_eq, statusOf_eq, h]

theorem statusOf_of_humanity (h : s'.humanity = s.humanity) : s'.statusOf = s.statusOf := by
  funext a
  simp only [statusOf, getHuman, h]

theorem statusOf_of_get {h : Human} (hget : s.getHuman subject = some h) :
    s.statusOf subject = some h.status := by
  rw [statusOf, hget]
  rfl

-- A record that is written sets the status of its address.
theorem statusOf_of_write {x : Human}
    (hcore : ∀ a, s'.coreOf a = if a = subject then some x else s.coreOf a) :
    s'.statusOf = Function.update s.statusOf subject (some x.status) := by
  funext a
  rw [statusOf_eq, hcore, Function.update_apply, statusOf_eq s a]
  split_ifs <;> rfl

-- Each operation sets the status of one address at most.
theorem statusOf_requestVerification {oracle : HumanityOracle} {usizeBits : Nat}
    {evidence : LivenessEvidence} {entropy now : U64} {r : Except LifecycleError CaseId}
    (h : s.requestVerification oracle usizeBits subject evidence entropy now = some (r, s')) :
    ((∃ e, r = .error e) ∧ s'.statusOf = s.statusOf) ∨
    ((∃ id, r = .ok id) ∧ s.statusOf subject ≠ some .Verified ∧
      s'.statusOf = Function.update s.statusOf subject (some .Pending)) := by
  obtain ⟨e, rfl, rfl⟩ | ⟨rfl, -, rfl⟩ | ⟨c, hreg, -, -, rfl, rfl⟩ := requestVerification_cases s h
  · exact Or.inl ⟨⟨e, rfl⟩, rfl⟩
  · exact Or.inl ⟨⟨_, rfl⟩, statusOf_of_coreOf (coreOf_clearVouchEdges s subject)⟩
  · refine Or.inr ⟨⟨_, rfl⟩, ?_, statusOf_of_write (coreOf_request s _)⟩
    intro hverified
    obtain ⟨h₀, hget, hstatus⟩ := Option.map_eq_some_iff.mp hverified
    rcases hreg h₀ hget with hst | hst
    · rw [hst] at hstatus
      cases hstatus
    · rw [hst] at hstatus
      cases hstatus

theorem statusOf_vouch {voucher vouchee : Address} {now : U64} {r : Except LifecycleError Unit}
    (h : s.vouch voucher vouchee now = (r, s')) : s'.statusOf = s.statusOf := by
  obtain ⟨e, -, rfl⟩ | ⟨h₀, -, -, hget, -, -, rfl⟩ := vouch_cases s h
  · rfl
  · have hwrite := statusOf_of_write (coreOf_vouch s (v := ⟨voucher, vouchee, now⟩) hget)
    rw [hwrite, Human.core_status, (addVoucher_same voucher).2, ← statusOf_of_get hget]
    exact Function.update_eq_self _ _

-- A challenge is opened against a verified human, which it marks, or a pending one. A
-- challenged human has a challenge already.
theorem statusOf_challengeInner {usizeBits : Nat} {challenger : Address} {evidenceRef : Hash}
    {entropy now : U64} {requireVerified : Bool} {r : Except LifecycleError CaseId}
    (hs : s.Docket)
    (h : s.challengeInner usizeBits challenger subject evidenceRef entropy now requireVerified =
      (r, s')) :
    ((∃ e, r = .error e) ∧ s'.statusOf = s.statusOf) ∨
    ((∃ id, r = .ok id) ∧
      ((s.statusOf subject = some .Verified ∧
        s'.statusOf = Function.update s.statusOf subject (some .Challenged)) ∨
      (s.statusOf subject = some .Pending ∧ s'.statusOf = s.statusOf))) := by
  obtain ⟨e, rfl, rfl⟩ | ⟨h₀, c, hget, hknown, hstanding, hnone, -, -, -, rfl, rfl⟩ :=
    challengeInner_cases s h
  · exact Or.inl ⟨⟨e, rfl⟩, rfl⟩
  right
  refine ⟨⟨_, rfl⟩, ?_⟩
  have hwrite := statusOf_of_write (coreOf_challenge s (c := c) hget)
  have hbefore := statusOf_of_get hget
  cases hstatus : h₀.status with
  | Unverified => exact absurd hstatus hknown
  | Revoked => exact absurd hstatus hstanding
  | Verified =>
    rw [hstatus] at hbefore
    refine Or.inl ⟨hbefore, ?_⟩
    rw [hwrite, Human.core_status, challenged, if_pos hstatus]
  | Pending =>
    rw [hstatus] at hbefore
    refine Or.inr ⟨hbefore, ?_⟩
    rw [hwrite, Human.core_status, challenged, if_neg (by simp [hstatus]), hstatus, ← hbefore]
    exact Function.update_eq_self _ _
  | Challenged =>
    obtain ⟨x, hx, hsubject, hopen⟩ :=
      hs.challenged subject h₀.core (coreOf_of_get s hget) hstatus
    simp only [hasOpenChallenge, List.any_eq_false] at hnone
    exact absurd (hnone x hx) (by simp [hsubject, hs.kind_of_open hx hopen, hopen])

-- A verdict sets no status but that of the subject of its case, which stays on record.
theorem statusOf_submitVerdict {caseId : CaseId} {juror : Address} {verdict : CanonicalVerdict}
    {now : U64} {r : Except LifecycleError CaseStatus}
    (h : s.submitVerdict caseId juror verdict now = (r, s')) :
    ((∃ e, r = .error e) ∧ s'.statusOf = s.statusOf) ∨
    ((∃ st, r = .ok st) ∧ ∃ c, s.getCase caseId = some c ∧
      (∀ a, a ≠ c.subject → s'.statusOf a = s.statusOf a) ∧
      (s'.statusOf c.subject = none → s.statusOf c.subject = none)) := by
  obtain ⟨e, rfl, rfl⟩ | ⟨c, c', hvotes, rfl, rfl⟩ := submitVerdict_cases s h
  · exact Or.inl ⟨⟨e, rfl⟩, rfl⟩
  obtain ⟨-, hsubject, -⟩ := hvotes.same
  refine Or.inr ⟨⟨_, rfl⟩, c, hvotes.get, ?_, ?_⟩
  · intro a ha
    rw [statusOf_eq, coreOf_actOnStatus, hsubject, if_neg ha, coreOf_putCase, ← statusOf_eq]
  · rw [statusOf_eq, coreOf_actOnStatus, hsubject, if_pos rfl, coreOf_putCase, statusOf_eq]
    simp

theorem statusOf_finalizeRegistration {nowBlock verifiedAtSecs : U64}
    {r : Except LifecycleError Unit}
    (h : s.finalizeRegistration subject nowBlock verifiedAtSecs = (r, s')) :
    ((∃ e, r = .error e) ∧ s'.statusOf = s.statusOf) ∨
    (r = .ok () ∧ s.statusOf subject = some .Pending ∧
      s'.statusOf = Function.update s.statusOf subject (some .Verified)) := by
  obtain ⟨e, rfl, rfl, -⟩ | ⟨h₀, hf, rfl, rfl⟩ := finalizeRegistration_cases s h
  · exact Or.inl ⟨⟨e, rfl⟩, rfl⟩
  · refine Or.inr ⟨rfl, ?_, statusOf_of_write (coreOf_finalize s hf.get verifiedAtSecs)⟩
    rw [statusOf_of_get hf.get, hf.pending]

theorem provedRecord_status (now : U64) (h : Option Human) :
    (provedRecord subject now h).status = .Verified := by
  unfold provedRecord
  cases h with
  | none => rfl
  | some h =>
    dsimp only
    split_ifs with hverified
    · exact hverified
    · rfl

theorem statusOf_submitZkPassportProof {verifier : ZkPassportVerifier}
    {userIdentifierHash : Bytes → Hash} {submission : ZkProofSubmission} {t block : U64}
    {r : Except ZkPohError Assurance}
    (h : s.submitZkPassportProof verifier userIdentifierHash subject submission t block =
      (r, s')) :
    ((∃ e, r = .error e) ∧ s'.statusOf = s.statusOf) ∨
    ((∃ a, r = .ok a) ∧
      s'.statusOf = Function.update s.statusOf subject (some .Verified)) := by
  obtain ⟨e, -, rfl, rfl⟩ | ⟨-, rfl, rfl⟩ := submitZkPassportProof_cases s h
  · exact Or.inl ⟨⟨e, rfl⟩, rfl⟩
  · refine Or.inr ⟨⟨_, rfl⟩, ?_⟩
    obtain ⟨hcore, -, -⟩ := acceptZkProof_spec s subject { signals := submission.signals } t
    rw [statusOf_of_write (x := (provedRecord subject t (s.getHuman subject)).core),
      Human.core_status, provedRecord_status]
    intro a
    rw [hcore]
    split_ifs with ha
    · rw [ha]
    · rfl

theorem humanity_governed (caller : Address)
    (change : ZkRegistry → Except CscaGovError ZkRegistry) :
    (s.governed caller change).2.humanity = s.humanity := by
  simp only [governed]
  split_ifs
  · rfl
  · cases change s.zk <;> rfl

end Ubi2.Runtime.MemState

namespace Ubi2.Exec

open Ubi2.Runtime Ubi2.Runtime.MemState Ubi2.Lib

variable {host : Host} {ctx : BlockCtx} {tx : KernelTx} {s s' : MemState}

theorem statusOf_of_mem_pendingHumans {a : Address} (h : a ∈ pendingHumans s) :
    s.statusOf a = some .Pending := by
  obtain ⟨x, hx, rfl⟩ := List.mem_map.mp h
  obtain ⟨hmem, hpending⟩ := List.mem_filter.mp hx
  have hget : s.getHuman x.address = some x := Table.get_of_mem hmem
  rw [statusOf_of_get hget, of_decide_eq_true hpending]

-- What an operation that succeeded did to the statuses of the humans.
def Rules (tx : KernelTx) (s s' : MemState) : Prop :=
  match tx.kind with
  | .RequestVerification _ =>
    s.statusOf tx.from_ ≠ some .Verified ∧
      s'.statusOf = Function.update s.statusOf tx.from_ (some .Pending)
  | .Challenge subject _ =>
    (s.statusOf subject = some .Verified ∧
      s'.statusOf = Function.update s.statusOf subject (some .Challenged)) ∨
    (s.statusOf subject = some .Pending ∧ s'.statusOf = s.statusOf)
  | .SubmitVerdict caseId _ =>
    ∃ c, s.getCase caseId = some c ∧ (∀ a, a ≠ c.subject → s'.statusOf a = s.statusOf a) ∧
      (s'.statusOf c.subject = none → s.statusOf c.subject = none)
  | .SubmitZkPassportProof _ =>
    s'.statusOf = Function.update s.statusOf tx.from_ (some .Verified)
  | _ => s'.statusOf = s.statusOf

theorem Rules.congr {s₀ : MemState} (h : Rules tx s s') (hhum : s.humanity = s₀.humanity) :
    Rules tx s₀ s' := by
  have hstatus : s.statusOf = s₀.statusOf := statusOf_of_humanity hhum
  have hcase : ∀ caseId, s.getCase caseId = s₀.getCase caseId := by
    intro caseId
    simp only [getCase, hhum]
  unfold Rules at h ⊢
  simpa only [hstatus, hcase] using h

-- What an operation did to the statuses: nothing where it failed.
def Outcome (tx : KernelTx) (s : MemState) (r : Except String OpResult) (s' : MemState) : Prop :=
  match r with
  | .ok _ => Rules tx s s'
  | .error _ => s'.statusOf = s.statusOf

theorem outcome_render {ε α : Type} {display : ε → String} {result : α → OpResult}
    {p : Except ε α × MemState} {r : Except String OpResult}
    (hp : ((∃ e, p.1 = .error e) ∧ p.2.statusOf = s.statusOf) ∨
      ((∃ a, p.1 = .ok a) ∧ Rules tx s p.2))
    (h : some (render display result p) = some (r, s')) : Outcome tx s r s' := by
  obtain ⟨q, s₁⟩ := p
  rcases hp with ⟨⟨e, rfl⟩, hsame⟩ | ⟨⟨a, rfl⟩, hrules⟩
  · cases h
    exact hsame
  · cases h
    exact hrules

theorem outcome_of_same {r : Except String OpResult}
    (hrules : ∀ s', s'.statusOf = s.statusOf → Rules tx s s') (h : s'.statusOf = s.statusOf) :
    Outcome tx s r s' := by
  cases r with
  | ok _ => exact hrules s' h
  | error _ => exact h

theorem outcome_render_same {ε α : Type} {display : ε → String} {result : α → OpResult}
    {p : Except ε α × MemState} {r : Except String OpResult}
    (hrules : ∀ s', s'.statusOf = s.statusOf → Rules tx s s') (hp : p.2.statusOf = s.statusOf)
    (h : some (render display result p) = some (r, s')) : Outcome tx s r s' := by
  have hs : s' = p.2 := by
    rw [← render_snd display result p, Option.some.inj h]
  refine outcome_of_same hrules ?_
  rw [hs]
  exact hp

theorem humanity_renderDeploy (number : U64) (txHash : Hash)
    (r : Except ContractError ContractId × MemState) :
    (renderDeploy number txHash r).2.humanity = r.2.humanity := by
  obtain ⟨r, s⟩ := r
  cases r with
  | ok id =>
    simp only [renderDeploy, stampDeploy]
    cases s.getContract id <;> rfl
  | error e => rfl

theorem outcome_hubOp (hs : s.Docket) {r : Except String OpResult}
    (h : hubOp host ctx tx s = some (r, s')) : Outcome tx s r s' := by
  unfold hubOp at h
  cases hk : tx.kind with
  | RequestVerification livenessRef =>
    simp only [hk] at h
    obtain ⟨p, hp, hr⟩ := Option.map_eq_some_iff.mp h
    refine outcome_render ?_ (congrArg some hr)
    simp only [Rules, hk]
    exact statusOf_requestVerification hp
  | Challenge subject evidenceRef =>
    simp only [hk] at h
    refine outcome_render ?_ h
    simp only [Rules, hk]
    exact statusOf_challengeInner hs rfl
  | SubmitVerdict caseId verdict =>
    simp only [hk] at h
    refine outcome_render ?_ h
    simp only [Rules, hk]
    exact statusOf_submitVerdict
      (show s.submitVerdict caseId tx.from_ verdict ctx.number = _ from rfl)
  | SubmitZkPassportProof submission =>
    simp only [hk] at h
    refine outcome_render ?_ h
    simp only [Rules, hk]
    exact statusOf_submitZkPassportProof rfl
  | Vouch vouchee =>
    simp only [hk] at h
    exact outcome_render_same (by simp [Rules, hk]) (statusOf_vouch rfl) h
  | StopStream id =>
    simp only [hk] at h
    obtain ⟨p, -, hr⟩ := Option.map_eq_some_iff.mp h
    exact outcome_render_same (by simp [Rules, hk]) rfl (congrArg some hr)
  | InvokeContract id triggerRef =>
    simp only [hk] at h
    obtain ⟨p, hp, hr⟩ := Option.map_eq_some_iff.mp h
    have hframe : PromptFrame ctx.timestamp ungated s p.2 :=
      promptFrame_invokeContract s trivial trivial hp
    exact outcome_render_same (by simp [Rules, hk]) (statusOf_of_humanity hframe.humanity)
      (congrArg some hr)
  | SubmitEffect caseId effect =>
    simp only [hk] at h
    obtain ⟨p, hp, hr⟩ := Option.map_eq_some_iff.mp h
    have hframe : PromptFrame ctx.timestamp ungated s p.2 :=
      promptFrame_submitEffect s (fun _ _ => trivial) (fun _ _ => trivial) hp
    exact outcome_render_same (by simp [Rules, hk]) (statusOf_of_humanity hframe.humanity)
      (congrArg some hr)
  | DeployContract text parties =>
    simp only [hk] at h
    have hframe : PromptFrame ctx.timestamp ungated s _ :=
      promptFrame_deployContract s text (textCommitment host text) parties
    have hs' := congrArg Prod.snd (Option.some.inj h)
    refine outcome_of_same (by simp [Rules, hk]) (statusOf_of_humanity ?_)
    rw [← show _ = s' from hs', humanity_renderDeploy]
    exact hframe.humanity
  | Transfer to_ value =>
    simp only [hk] at h
    cases h
    exact outcome_of_same (by simp [Rules, hk]) rfl
  | FundContract id =>
    simp only [hk] at h
    cases h
    exact outcome_of_same (by simp [Rules, hk]) rfl
  | OpenStream to_ rate deposit =>
    simp only [hk] at h
    exact outcome_render_same (by simp [Rules, hk]) rfl h
  | RegisterCsca countryCode keyId pubkey =>
    simp only [hk] at h
    exact outcome_render_same (by simp [Rules, hk])
      (statusOf_of_humanity (humanity_governed _ _)) h
  | RevokeCsca keyId =>
    simp only [hk] at h
    exact outcome_render_same (by simp [Rules, hk])
      (statusOf_of_humanity (humanity_governed _ _)) h
  | PinSelfIdentityRoot root =>
    simp only [hk] at h
    exact outcome_render_same (by simp [Rules, hk])
      (statusOf_of_humanity (humanity_governed _ _)) h
  | PinSelfOfacRoot kind root =>
    simp only [hk] at h
    exact outcome_render_same (by simp [Rules, hk])
      (statusOf_of_humanity (humanity_governed _ _)) h
  | RetireSelfRoot root =>
    simp only [hk] at h
    exact outcome_render_same (by simp [Rules, hk])
      (statusOf_of_humanity (humanity_governed _ _)) h

theorem outcome_applyOne (hs : s.Docket) {r : Except String OpResult}
    (h : applyOne host ctx tx s = some (r, s')) : Outcome tx s r s' := by
  unfold applyOne at h
  split at h
  · rename_i to_ value hk
    exact outcome_render_same (by simp [Rules, hk]) rfl h
  · rename_i id hk
    have hframe : PromptFrame ctx.timestamp ungated s
        (s.fundContract tx.from_ id tx.value tx.nonce ctx.timestamp).2 :=
      promptFrame_fundContract s trivial trivial
    exact outcome_render_same (by simp [Rules, hk]) (statusOf_of_humanity hframe.humanity) h
  · cases hconsume : consumeNonce s tx.from_ tx.nonce ctx.timestamp with
    | mk res s₁ =>
      rw [hconsume] at h
      cases res with
      | error e =>
        cases h
        rw [consumeNonce_error hconsume]
        rfl
      | ok u =>
        have hhum : s₁.humanity = s.humanity := by
          rw [(consumeNonce_ok hconsume).2]
          rfl
        have hchange : Changes (fun _ _ => True) s s₁ := changes_consumeNonce hconsume
        have hs₁ : s₁.Docket := docket_changes hchange hs
        have hout := outcome_hubOp hs₁ h
        cases r with
        | ok result => exact Rules.congr hout hhum
        | error e => exact Eq.trans hout (statusOf_of_humanity hhum)

-- What a transaction did to the statuses: nothing unless it succeeded.
theorem rules_applyTx (hs : s.Docket) {o : Option OpOutcome}
    (h : applyTx host ctx tx s = some (o, s')) :
    (o.all (fun outcome => !outcome.success) ∧ s'.statusOf = s.statusOf) ∨
    ∃ result, o = some { success := true, revertReason := none, result := result } ∧
      Rules tx s s' := by
  unfold applyTx at h
  cases hfee : s.ledger.chargeFee tx.from_ tx.kind.gas ctx.timestamp with
  | mk res l =>
    rw [hfee] at h
    cases res with
    | error e =>
      cases h
      exact Or.inl ⟨rfl, rfl⟩
    | ok fee =>
      simp only [afterFee] at h
      have hchange : Changes (fun _ _ => True) s { s with ledger := l } := changes_chargeFee hfee
      have hcharged : ({ s with ledger := l } : MemState).Docket := docket_changes hchange hs
      cases hone : applyOne host ctx tx { s with ledger := l } with
      | none =>
        rw [hone] at h
        cases h
      | some p =>
        obtain ⟨r, s₁⟩ := p
        have hout := outcome_applyOne hcharged hone
        rw [hone] at h
        cases r with
        | ok result =>
          cases h
          exact Or.inr ⟨result, rfl, Rules.congr hout rfl⟩
        | error e =>
          cases h
          exact Or.inl ⟨rfl, hout⟩

namespace Genesis

theorem statusOf_seedHuman (time : U64) (s : MemState) (a : Address) :
    (seedHuman time s a).statusOf = Function.update s.statusOf a (some .Verified) := by
  funext b
  have hput : (seedHuman time s a).getHuman b = if a = b then _ else s.getHuman b :=
    Table.get_put _ _ _
  rw [statusOf, hput, Function.update_apply]
  by_cases hab : a = b
  · rw [if_pos hab, if_pos hab.symm]
    rfl
  · rw [if_neg hab, if_neg (Ne.symm hab)]
    rfl

-- The humans verified at genesis are those it is seeded with.
theorem statusOf_state (g : Genesis) (a : Address) :
    g.state.statusOf a = some .Verified ↔ a ∈ g.humans := by
  have hhumans : ∀ (humans : List Address) (s : MemState),
      (humans.foldl (seedHuman g.time) s).statusOf a = some .Verified ↔
        a ∈ humans ∨ s.statusOf a = some .Verified := by
    intro humans
    induction humans with
    | nil => simp
    | cons b humans ih =>
      intro s
      rw [List.foldl_cons, ih, statusOf_seedHuman, Function.update_apply, List.mem_cons]
      by_cases hab : a = b
      · simp [hab]
      · simp [hab]
  have hjurors : ∀ s : MemState,
      (g.jurors.foldl (fun s j => s.registerJuror j.1 j.2) s).humanity.humans =
        s.humanity.humans :=
    Run.foldl_keeps (f := fun (s : MemState) (j : Address × U128) => s.registerJuror j.1 j.2)
      (fun s => s.humanity.humans) (fun _ _ => rfl) g.jurors
  have haccounts : ∀ s : MemState,
      (g.accounts.foldl seedAccount s).humanity = s.humanity :=
    Run.foldl_keeps (f := seedAccount) MemState.humanity (fun _ _ => rfl) g.accounts
  have hnone : (g.accounts.foldl seedAccount { zk := g.seedZk }).statusOf a = none := by
    rw [statusOf_of_humanity (haccounts _)]
    rfl
  have hstate : g.state.statusOf a =
      (g.humans.foldl (seedHuman g.time)
        (g.accounts.foldl seedAccount { zk := g.seedZk })).statusOf a := by
    simp only [state, statusOf, getHuman, HumanRegistry.getHuman, hjurors]
  rw [hstate, hhumans, hnone]
  simp

end Genesis

end Ubi2.Exec
