import Ubi2.Exec.Gate

namespace Ubi2.Exec

open Ubi2.Runtime Ubi2.Runtime.Ledger Ubi2.Runtime.MemState Ubi2.Lib

-- Nothing is lost when the emission clock of the account is cleared or restarted now:
-- nothing has accrued since its last settlement, or its balance saturates without it.
def Unaccrued (s : MemState) (a : Address) (now : U64) : Prop :=
  (s.account a).pendingEmission now = 0#128 ∨
    2 ^ 128 - 1 ≤ (s.account a).settledBalance.toNat + s.ledger.owedTo a now

-- The transactions that can write a human record.
def isHumanity : KernelKind → Bool
  | .RequestVerification _ | .Vouch _ | .Challenge _ _ | .SubmitVerdict _ _
  | .SubmitZkPassportProof _ => true
  | _ => false

-- The operations that change a human record.
inductive StatusOp where
  | hub (tx : KernelTx) (h : isHumanity tx.kind)
  | finalize (subject : Address)
  | scan (subject : Address)
  | revoke (subject : Address)
  | seed (subject : Address)

namespace StatusOp

def apply (host : Host) (ctx : BlockCtx) (s : MemState) : StatusOp → Option MemState
  | .hub tx _ => (hubOp host ctx tx s).map Prod.snd
  | .finalize subject => some (sweepFinalizeOne ctx s subject)
  | .scan subject => some (sweepSybilOne host ctx.blockHash ctx.number s subject)
  | .revoke subject => some (s.revoke subject)
  | .seed subject => some (s.seedVerifiedHuman subject ctx.timestamp)

-- The operation clears the emission clock of the account, or restarts it at the present:
-- it upholds a case against it, revokes or seeds it, or proves the passport of a challenged
-- human.
def Restarts (host : Host) (ctx : BlockCtx) (s : MemState) (a : Address) : StatusOp → Prop
  | .hub tx _ =>
    match tx.kind with
    | .SubmitVerdict caseId v =>
      ∃ c c', s.Votes caseId tx.from_ v c c' ∧ c'.upholds ∧ a = c'.subject
    | .SubmitZkPassportProof submission =>
      a = tx.from_ ∧ (s.getHuman a).map Human.status = some .Challenged ∧
        s.zkProofError host.verifier host.userIdentifierHash a submission ctx.timestamp
          ctx.number = none
    | _ => False
  | .revoke subject => a = subject
  | .seed subject => a = subject
  | _ => False

end StatusOp

section Ledger

variable {s : MemState} {a : Address} {now : U64}

private theorem worth_sync (subject : Address) (v : Bool) (t : U64) :
    (s.syncAccountVerified subject v t).ledger.worth a now =
      if a = subject then
        (({ s.account subject with verified := v, verifiedAt := t } : Account).worth now) +
          s.ledger.owedTo a now
      else s.ledger.worth a now := by
  have h := worth_put s.ledger a now { s.account subject with verified := v, verifiedAt := t }
  simp only [syncAccountVerified, MemState.put]
  rw [h]
  simp only [MemState.account, account_address]
  by_cases ha : a = subject
  · rw [if_pos ha.symm, if_pos ha]
  · rw [if_neg (fun h => ha h.symm), if_neg ha]

-- A gate that is cleared or set at the present drops what its account has pending.
private theorem balance_sync {subject : Address} {v : Bool} {t : U64}
    (hfresh : v = false ∨ t = now) :
    (s.syncAccountVerified subject v t).ledger.balance a now = s.ledger.balance a now ↔
      (a = subject → Unaccrued s a now) := by
  have hzero : ({ s.account subject with verified := v, verifiedAt := t } :
      Account).pendingEmission now = 0#128 := by
    rcases hfresh with rfl | rfl
    · exact Account.pendingEmission_of_unverified _ now rfl
    · exact Account.pendingEmission_of_le _ t (le_max_right _ _)
  rw [balance_eq_iff, worth_sync]
  by_cases ha : a = subject
  · have hworth : s.ledger.worth a now = (s.account a).settledBalance.toNat +
        ((s.account a).pendingEmission now).toNat + s.ledger.owedTo a now := rfl
    have hpending : (s.account a).pendingEmission now = 0#128 ↔
        ((s.account a).pendingEmission now).toNat = 0 := by
      rw [BitVec.toNat_eq]
      simp
    rw [if_pos ha, hworth, Account.worth, hzero]
    simp only [Unaccrued, hpending, ← ha, true_implies, BitVec.toNat_ofNat, Nat.zero_mod,
      Nat.add_zero]
    omega
  · rw [if_neg ha]
    exact ⟨fun _ h => absurd h ha, fun _ => rfl⟩

-- Setting the gate that an account has changes no balance.
private theorem balance_sync_same {subject : Address} {t : U64}
    (hgate : s.accountGate subject = some t) :
    (s.syncAccountVerified subject true t).ledger.balance a now = s.ledger.balance a now := by
  have hsame : ({ s.account subject with verified := true, verifiedAt := t } : Account) =
      s.account subject := by
    simp only [accountGate, Account.gate] at hgate
    split_ifs at hgate with hv
    rw [← Option.some.inj hgate, ← hv]
  rw [balance_eq_iff, worth_sync, hsame]
  split_ifs with ha
  · rw [ha]
    rfl
  · rfl

private theorem ledger_slashReputation (v : Address) (n : Int) :
    (s.slashReputation v n).ledger = s.ledger := by
  simp only [slashReputation]
  cases s.getHuman v <;> rfl

private theorem ledger_revoke (subject : Address) :
    (s.revoke subject).ledger = (s.syncAccountVerified subject false 0#64).ledger := by
  have hfold : ∀ (vouchers : List Address) (s : MemState),
      (vouchers.foldl (fun s v => slashReputation s v SYBIL_SLASH) s).ledger = s.ledger := by
    intro vouchers
    induction vouchers with
    | nil => exact fun _ => rfl
    | cons v vouchers ih => exact fun s => (ih _).trans (ledger_slashReputation v _)
  unfold revoke
  cases s.getHuman subject with
  | none => rfl
  | some h =>
    have hledger := hfold h.vouchesIn s
    simp only [syncAccountVerified, MemState.put, MemState.account, clearVouchEdges, putHuman,
      hledger]

private theorem balance_restoreChallenged (hs : s.GateCoherent) (subject : Address) :
    (s.restoreChallenged subject).ledger.balance a now = s.ledger.balance a now := by
  unfold restoreChallenged
  cases hget : s.getHuman subject with
  | none => rfl
  | some h =>
    dsimp only
    split_ifs with hstatus
    · refine balance_sync_same ?_
      rw [hs subject, humanGate, hget]
      simp [Human.gate, hstatus]
    · rfl

-- Of the cases that are decided, only an upheld one touches a balance.
private theorem balance_actOnStatus (hs : s.GateCoherent) (c : Case) :
    (s.actOnStatus c).ledger.balance a now = s.ledger.balance a now ↔
      (c.upholds ∧ a = c.subject → Unaccrued s a now) := by
  have hback : (s.restoreChallenged c.subject).ledger.balance a now = s.ledger.balance a now :=
    balance_restoreChallenged hs c.subject
  have hkept : ¬ c.upholds → (s.actOnStatus c).ledger.balance a now = s.ledger.balance a now →
      ((s.actOnStatus c).ledger.balance a now = s.ledger.balance a now ↔
        (c.upholds ∧ a = c.subject → Unaccrued s a now)) :=
    fun hno heq => ⟨fun _ h => absurd h.1 hno, fun _ => heq⟩
  cases hstatus : c.status with
  | Open =>
    refine hkept (by rintro ⟨v, hv, -⟩; rw [hstatus] at hv; cases hv) ?_
    simp only [actOnStatus, hstatus]
  | Escalated =>
    refine hkept (by rintro ⟨v, hv, -⟩; rw [hstatus] at hv; cases hv) ?_
    simp only [actOnStatus, hstatus]
    split_ifs
    · exact hback
    · rfl
  | Committed v =>
    cases hverdict : v.verdict with
    | Sybil =>
      have hup : c.upholds := ⟨v, hstatus, hverdict⟩
      have hledger : (s.actOnStatus c).ledger =
          (s.syncAccountVerified c.subject false 0#64).ledger := by
        simp only [actOnStatus, hstatus, hverdict]
        exact ledger_revoke c.subject
      rw [hledger, balance_sync (Or.inl rfl)]
      exact ⟨fun h hc => h hc.2, fun h ha => h ⟨hup, ha⟩⟩
    | Uncertain =>
      refine hkept ?_ (by simp only [actOnStatus, hstatus, hverdict])
      rintro ⟨w, hw, hsybil⟩
      rw [hstatus] at hw
      cases hw
      rw [hverdict] at hsybil
      cases hsybil
    | Human =>
      refine hkept ?_ ?_
      · rintro ⟨w, hw, hsybil⟩
        rw [hstatus] at hw
        cases hw
        rw [hverdict] at hsybil
        cases hsybil
      · simp only [actOnStatus, hstatus, hverdict]
        split_ifs
        · rw [ledger_slashReputation]
          exact hback
        · rfl

-- An account whose human has no emission gate has accrued nothing.
private theorem pending_of_humanGate (hs : s.GateCoherent) (hgate : s.humanGate a = none) :
    (s.account a).pendingEmission now = 0#128 := by
  rw [← hs a, accountGate, Account.gate] at hgate
  apply Account.pendingEmission_of_unverified
  split_ifs at hgate with hv
  simpa using hv

private theorem balance_finalize (hs : s.GateCoherent) {subject : Address} {block : U64} :
    (s.finalizeRegistration subject block now).2.ledger.balance a now =
      s.ledger.balance a now := by
  have hres : s.finalizeRegistration subject block now =
      ((s.finalizeRegistration subject block now).1,
        (s.finalizeRegistration subject block now).2) := rfl
  obtain ⟨e, -, heq, -⟩ | ⟨h, hf, -, heq⟩ := finalizeRegistration_cases s hres
  · rw [heq]
  · rw [heq]
    refine (balance_sync (Or.inr rfl)).mpr (fun _ => Or.inl ?_)
    rename_i ha
    rw [ha]
    refine pending_of_humanGate hs ?_
    rw [humanGate, hf.get]
    simp [Human.gate, hf.pending]

-- A passport starts the clock of a human that has none, and restarts that of a challenged one.
private theorem balance_acceptZkProof (hs : s.GateCoherent) {subject : Address}
    {pi : ZkPublicInputs} :
    (s.acceptZkProof subject pi now).2.ledger.balance a now = s.ledger.balance a now ↔
      (a = subject ∧ (s.getHuman subject).map Human.status = some .Challenged →
        Unaccrued s a now) := by
  have hledger : (s.acceptZkProof subject pi now).2.ledger =
      if (s.getHuman subject).map Human.status ≠ some .Verified then
        (s.syncAccountVerified subject true now).ledger
      else s.ledger := by
    unfold acceptZkProof
    have hget : ({ s with zk := { s.zk with
        nullifiers := s.zk.nullifiers.put pi.nullifier
        attributeCommitments :=
          s.zk.attributeCommitments.put (subject, pi.attributeCommitments) } } :
            MemState).getHuman subject = s.getHuman subject := rfl
    dsimp only
    rw [hget]
    cases s.getHuman subject with
    | none => rfl
    | some h =>
      by_cases hstatus : h.status = .Verified
      · simp only [hstatus, if_true, Option.map_some, ne_eq, not_true_eq_false, if_false]
        rfl
      · simp only [hstatus, if_false, Option.map_some, Option.some.injEq, ne_eq,
          not_false_eq_true, if_true]
        rfl
  rw [hledger]
  split_ifs with hverified
  · rw [balance_sync (Or.inr rfl)]
    refine ⟨fun h ha => h ha.1, fun h ha => ?_⟩
    by_cases hchallenged : (s.getHuman subject).map Human.status = some .Challenged
    · exact h ⟨ha, hchallenged⟩
    · refine Or.inl (pending_of_humanGate hs ?_)
      rw [ha, humanGate]
      cases hget : s.getHuman subject with
      | none => rfl
      | some h₀ =>
        simp only [hget, Option.map_some, ne_eq, Option.some.injEq] at hverified hchallenged
        simp [Human.gate, hverified, hchallenged]
  · refine ⟨fun _ h => absurd ?_ hverified, fun _ => rfl⟩
    rw [h.2]
    simp

end Ledger

section Ops

variable {host : Host} {ctx : BlockCtx} {s s' : MemState} {a : Address}

private theorem ledger_render {ε α : Type} {display : ε → String} {result : α → OpResult}
    {p : Except ε α × MemState} {q : Except String OpResult × MemState}
    (h : some (render display result p) = some q) : q.2 = p.2 := by
  rw [← render_snd display result p, Option.some.inj h]

private theorem balance_hub (hs : s.GateCoherent) {tx : KernelTx} (hk : isHumanity tx.kind)
    {q : Except String OpResult × MemState} (h : hubOp host ctx tx s = some q) :
    q.2.ledger.balance a ctx.timestamp = s.ledger.balance a ctx.timestamp ↔
      ((StatusOp.hub tx hk).Restarts host ctx s a → Unaccrued s a ctx.timestamp) := by
  unfold hubOp at h
  cases hkind : tx.kind with
  | RequestVerification livenessRef =>
    simp only [hkind] at h
    obtain ⟨p, hp, rfl⟩ := Option.map_eq_some_iff.mp h
    rw [render_snd]
    have hledger : p.2.ledger = s.ledger := by
      obtain ⟨e, -, heq⟩ | ⟨-, -, heq⟩ | ⟨c, -, -, -, -, heq⟩ := requestVerification_cases s hp
      · rw [heq]
      · rw [heq]
        rfl
      · rw [heq]
        rfl
    simp [hledger, StatusOp.Restarts, hkind]
  | Vouch vouchee =>
    simp only [hkind] at h
    have hledger : q.2.ledger = s.ledger := by
      have hres : s.vouch tx.from_ vouchee ctx.number =
          ((s.vouch tx.from_ vouchee ctx.number).1, (s.vouch tx.from_ vouchee ctx.number).2) :=
        rfl
      rw [ledger_render h]
      obtain ⟨e, -, heq⟩ | ⟨h₀, -, -, -, -, -, heq⟩ := vouch_cases s hres
      · rw [heq]
      · rw [heq]
        rfl
    simp [hledger, StatusOp.Restarts, hkind]
  | Challenge subject evidenceRef =>
    simp only [hkind] at h
    have hledger : q.2.ledger = s.ledger := by
      have hres : s.challengeInner host.usizeBits tx.from_ subject evidenceRef
          (blockEntropy ctx.blockHash ctx.number) ctx.number true =
          ((s.challenge host.usizeBits tx.from_ subject evidenceRef
            (blockEntropy ctx.blockHash ctx.number) ctx.number).1,
          (s.challenge host.usizeBits tx.from_ subject evidenceRef
            (blockEntropy ctx.blockHash ctx.number) ctx.number).2) := rfl
      rw [ledger_render h]
      obtain ⟨e, -, heq⟩ | ⟨h₀, c, -, -, -, -, -, -, -, -, heq⟩ := challengeInner_cases s hres
      · rw [heq]
      · rw [heq]
        rfl
    simp [hledger, StatusOp.Restarts, hkind]
  | SubmitVerdict caseId v =>
    simp only [hkind] at h
    rw [ledger_render h]
    have hres : s.submitVerdict caseId tx.from_ v ctx.number =
        ((s.submitVerdict caseId tx.from_ v ctx.number).1,
          (s.submitVerdict caseId tx.from_ v ctx.number).2) := rfl
    obtain ⟨e, hr, heq⟩ | ⟨c, c', hvotes, -, heq⟩ := submitVerdict_cases s hres
    · -- a refused verdict restarts nothing
      have hnone : ¬ (StatusOp.hub tx hk).Restarts host ctx s a := by
        simp only [StatusOp.Restarts, hkind]
        rintro ⟨c, c', hvotes, -⟩
        have hok : (s.submitVerdict caseId tx.from_ v ctx.number).1 = .ok c'.status := by
          unfold submitVerdict
          simp [hvotes.get, hvotes.isOpen, hvotes.onJury, hvotes.first, hvotes.tallied]
        rw [hok] at hr
        cases hr
      rw [heq]
      exact ⟨fun _ h => absurd h hnone, fun _ => rfl⟩
    · rw [heq]
      have hcoherent : (s.putCase c').GateCoherent := hs
      refine (balance_actOnStatus hcoherent c').trans ?_
      simp only [StatusOp.Restarts, hkind]
      constructor
      · rintro hun ⟨c₁, c₁', hvotes₁, hup, ha⟩
        have hc : c₁ = c := by
          have := hvotes₁.get.symm.trans hvotes.get
          exact Option.some.inj this
        have hc' : c₁' = c' := by
          rw [hvotes₁.tallied, hvotes.tallied, hc]
        exact hun ⟨hc' ▸ hup, hc' ▸ ha⟩
      · rintro hun ⟨hup, ha⟩
        exact hun ⟨c, c', hvotes, hup, ha⟩
  | SubmitZkPassportProof submission =>
    simp only [hkind] at h
    rw [ledger_render h]
    have hres : s.submitZkPassportProof host.verifier host.userIdentifierHash tx.from_ submission
        ctx.timestamp ctx.number =
        ((s.submitZkPassportProof host.verifier host.userIdentifierHash tx.from_ submission
          ctx.timestamp ctx.number).1,
        (s.submitZkPassportProof host.verifier host.userIdentifierHash tx.from_ submission
          ctx.timestamp ctx.number).2) := rfl
    obtain ⟨e, herr, -, heq⟩ | ⟨herr, -, heq⟩ := submitZkPassportProof_cases s hres
    · rw [heq]
      refine ⟨fun _ hrestarts => ?_, fun _ => rfl⟩
      simp only [StatusOp.Restarts, hkind] at hrestarts
      obtain ⟨rfl, -, hnone⟩ := hrestarts
      rw [herr] at hnone
      cases hnone
    · rw [heq, balance_acceptZkProof hs]
      simp only [StatusOp.Restarts, hkind]
      constructor
      · rintro hun ⟨rfl, hstatus, -⟩
        exact hun ⟨rfl, hstatus⟩
      · rintro hun ⟨rfl, hstatus⟩
        exact hun ⟨rfl, hstatus, herr⟩
  | _ => simp [isHumanity, hkind] at hk

end Ops

-- An operation on a human record leaves the balance of an account as it was exactly when it
-- does not clear or restart an emission clock that has run since the last settlement. Every
-- path that finalizes, challenges, restores or proves for the first time leaves it so.
theorem accrual_survives_iff {host : Host} {t : U64} {ctx : BlockCtx} {s s' : MemState}
    {op : StatusOp} (hs : Reachable host t s)
    (h : op.apply host ctx s = some s') (a : Address) :
    s'.ledger.balance a ctx.timestamp = s.ledger.balance a ctx.timestamp ↔
      (op.Restarts host ctx s a → Unaccrued s a ctx.timestamp) := by
  have hcoherent := gateCoherent_of_reachable hs
  cases op with
  | hub tx hk =>
    obtain ⟨q, hq, rfl⟩ := Option.map_eq_some_iff.mp h
    exact balance_hub hcoherent hk hq
  | finalize subject =>
    cases h
    exact ⟨fun _ h => h.elim, fun _ => balance_finalize hcoherent⟩
  | scan subject =>
    cases h
    refine ⟨fun _ h => h.elim, fun _ => ?_⟩
    have hledger : (sweepSybilOne host ctx.blockHash ctx.number s subject).ledger = s.ledger := by
      unfold sweepSybilOne
      split_ifs
      · rfl
      · have hres : s.challengeInner host.usizeBits HUMANITY_HUB subject
            (sybilEvidence host subject ctx.blockHash) (blockEntropy ctx.blockHash ctx.number)
            ctx.number false =
            ((s.systemChallenge host.usizeBits HUMANITY_HUB subject
              (sybilEvidence host subject ctx.blockHash)
              (blockEntropy ctx.blockHash ctx.number) ctx.number).1,
            (s.systemChallenge host.usizeBits HUMANITY_HUB subject
              (sybilEvidence host subject ctx.blockHash)
              (blockEntropy ctx.blockHash ctx.number) ctx.number).2) := rfl
        obtain ⟨e, -, heq⟩ | ⟨h₀, c, -, -, -, -, -, -, -, -, heq⟩ := challengeInner_cases s hres
        · rw [heq]
        · rw [heq]
          rfl
    rw [hledger]
  | revoke subject =>
    cases h
    rw [ledger_revoke]
    exact balance_sync (Or.inl rfl)
  | seed subject =>
    cases h
    exact balance_sync (Or.inr rfl)

-- A challenge against a verified human, one verdict short of being upheld.
def nearlyUpheld : List Event :=
  [act 1#64 1#160 0#64 (.Challenge 2#160 0#256),
    act 1#64 1#160 1#64 (.SubmitVerdict 0 (.new .Sybil .High))]

-- The last verdict.
def upholding : StatusOp :=
  .hub
    { txHash := 0#256, from_ := 3#160, nonce := 0#64, value := 0#128
      kind := .SubmitVerdict 0 (.new .Sybil .High) }
    rfl

theorem accrual_survives_upholding :
    ∃ s s', run mockHost devnet.state nearlyUpheld = some s ∧
      upholding.apply mockHost (sweep 1#64).ctx s = some s' ∧
      (s'.ledger.balance 3#160 7200#64 = s.ledger.balance 3#160 7200#64 ↔
        (upholding.Restarts mockHost (sweep 1#64).ctx s 3#160 →
          Unaccrued s 3#160 7200#64)) := by
  obtain ⟨s, hrun, s', happly⟩ : ∃ s, run mockHost devnet.state nearlyUpheld = some s ∧
      ∃ s', upholding.apply mockHost (sweep 1#64).ctx s = some s' := by
    have hsome : ((run mockHost devnet.state nearlyUpheld).bind
        (upholding.apply mockHost (sweep 1#64).ctx)).isSome = true := by
      decide +kernel
    obtain ⟨s', hs'⟩ := Option.isSome_iff_exists.mp hsome
    obtain ⟨s, hrun, happly⟩ := Option.bind_eq_some_iff.mp hs'
    exact ⟨s, hrun, s', happly⟩
  exact ⟨s, s', hrun, happly,
    accrual_survives_iff (reachable_devnet (by decide) hrun) happly 3#160⟩

-- The revocation takes two hours of accrued emission with it.
theorem accrual_lost_to_revocation :
    ∃ s s', Reachable mockHost 7200#64 s ∧
      upholding.apply mockHost (sweep 1#64).ctx s = some s' ∧
      s.ledger.balance 2#160 7200#64 = 2#128 * UBI ∧
      s'.ledger.balance 2#160 7200#64 = 0#128 := by
  have hbefore : (run mockHost devnet.state nearlyUpheld).map
      (fun s => s.ledger.balance 2#160 7200#64) = some (2#128 * UBI) := by
    decide +kernel
  have hafter : ((run mockHost devnet.state nearlyUpheld).bind
      (upholding.apply mockHost (sweep 1#64).ctx)).map
      (fun s => s.ledger.balance 2#160 7200#64) = some 0#128 := by
    decide +kernel
  obtain ⟨s, hrun, hs⟩ := Option.map_eq_some_iff.mp hbefore
  rw [hrun] at hafter
  obtain ⟨s', happly, hs'⟩ := Option.map_eq_some_iff.mp hafter
  exact ⟨s, s', reachable_devnet (by decide) hrun, happly, hs, hs'⟩

end Ubi2.Exec
