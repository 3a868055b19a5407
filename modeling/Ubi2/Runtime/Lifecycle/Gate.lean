import Ubi2.Runtime.Lifecycle.Records

namespace Ubi2.Runtime

open Lib

theorem Human.gate_addVoucher (h : Human) (v : Address) :
    (MemState.addVoucher h v).gate = h.gate := by
  unfold MemState.addVoucher
  split_ifs <;> rfl

theorem Human.gate_challenged (h : Human) : (MemState.challenged h).gate = h.gate := by
  unfold MemState.challenged
  split_ifs with hstatus
  · simp [Human.gate, hstatus]
  · rfl

theorem Human.gate_restored (h : Human) : h.restored.gate = h.gate := by
  unfold Human.restored
  split_ifs with hstatus
  · simp [Human.gate, hstatus]
  · rfl

namespace MemState

-- The gate of every account is the one its human record calls for.
def GateCoherent (s : MemState) : Prop := ∀ a, s.accountGate a = s.humanGate a

variable {ok : HumanRegistry → Address → Prop} {s s' : MemState}

theorem humanGate_putHuman (s : MemState) (h : Human) (a : Address) :
    (s.putHuman h).humanGate a = if h.address = a then h.gate else s.humanGate a := by
  rw [humanGate_eq, coreOf_putHuman, humanGate_eq]
  split_ifs <;> simp

-- Writing a record with the gate it had leaves every gate alone.
theorem humanGate_putHuman_of_eq {h h' : Human} {a : Address} (hget : s.getHuman a = some h)
    (haddress : h'.address = h.address) (hgate : h'.gate = h.gate) :
    (s.putHuman h').humanGate = s.humanGate := by
  funext b
  have hkey : h.address = a := Table.key_of_get hget
  rw [humanGate_putHuman, haddress, hkey]
  split_ifs with hb
  · rw [← hb, humanGate, hget, hgate]
    rfl
  · rfl

theorem humanGate_of_registrable {subject : Address} (h : s.Registrable subject) :
    s.humanGate subject = none := by
  unfold humanGate
  cases hget : s.getHuman subject with
  | none => rfl
  | some h₀ =>
    rcases h h₀ hget with hstatus | hstatus <;> simp [Human.gate, hstatus]

-- The ruling of a case and the gate it sets agree.
private theorem gateCoherent_actOnStatus (c : Case) (hs : s.GateCoherent) :
    (s.actOnStatus c).GateCoherent := by
  have hrestore : (s.restoreChallenged c.subject).GateCoherent := by
    intro a
    have hhuman : (s.restoreChallenged c.subject).humanGate a = s.humanGate a := by
      rw [humanGate_eq, coreOf_restoreChallenged, humanGate_eq]
      split_ifs
      · cases s.coreOf a with
        | none => rfl
        | some h => exact h.gate_restored
      · rfl
    rw [hhuman, accountGate_restoreChallenged]
    split_ifs
    · rfl
    · exact hs a
  unfold actOnStatus
  cases c.status with
  | Open => exact hs
  | Escalated =>
    dsimp only
    split_ifs
    · exact hrestore
    · exact hs
  | Committed v =>
    dsimp only
    cases v.verdict with
    | Uncertain => exact hs
    | Sybil =>
      intro a
      obtain ⟨hcore, hgate, -⟩ := revoke_spec s c.subject
      have hhuman : (s.revoke c.subject).humanGate a =
          if a = c.subject then none else s.humanGate a := by
        rw [humanGate_eq, hcore, humanGate_eq]
        split_ifs
        · cases s.coreOf a with
          | none => rfl
          | some h => simp [Human.revoked, Human.gate]
        · rfl
      rw [hgate, hhuman, hs a]
    | Human =>
      dsimp only
      split_ifs
      · intro a
        have h := hrestore a
        have hslash : ((s.restoreChallenged c.subject).slashReputation c.challenger
            FALSE_CHALLENGE_SLASH).accountGate a =
            (s.restoreChallenged c.subject).accountGate a := by
          simp only [accountGate, account_slashReputation]
        rw [humanGate_eq, ← coreOf_slashReputation _ c.challenger FALSE_CHALLENGE_SLASH,
          ← humanGate_eq, ← hslash] at h
        exact h
      · exact hs

-- The step lemma of the coherence of gates.
theorem gateCoherent_change (h : Change ok s s') (hs : s.GateCoherent) : s'.GateCoherent := by
  cases h with
  | frame humanity gates =>
    intro a
    have hhuman : s'.humanGate a = s.humanGate a := by
      simp only [humanGate, getHuman, humanity]
    rw [hhuman, gates]
    exact hs a
  | clear subject hreg => exact hs
  | request subject livenessRef c block hreg hc hdecided =>
    intro a
    rw [humanGate_putHuman]
    have hpending : (Human.pending subject livenessRef).gate = none := rfl
    split_ifs with ha
    · rw [hpending, ← humanGate_of_registrable hreg, ← ha]
      exact hs subject
    · exact hs a
  | vouch v h hself hverified hget hpending hnew =>
    intro a
    have hget' : (s.putVouch v).getHuman v.vouchee = some h := hget
    have haddress : (addVoucher h v.voucher).address = h.address := by
      unfold addVoucher
      split_ifs <;> rfl
    rw [humanGate_putHuman_of_eq hget' haddress (h.gate_addVoucher _)]
    exact hs a
  | challenge challenger subject h c block hget hknown hstanding hnone hc hopen hawaits =>
    intro a
    have hget' : (s.addCase c).getHuman subject = some h := hget
    have haddress : (challenged h).address = h.address := by
      unfold challenged
      split_ifs <;> rfl
    rw [humanGate_putHuman_of_eq hget' haddress h.gate_challenged]
    exact hs a
  | verdict caseId juror v c c' hvotes hok => exact gateCoherent_actOnStatus c' hs
  | finalize subject h block now hf =>
    intro a
    have haddress : h.address = subject := Table.key_of_get hf.get
    have haccount : ((s.syncAccountVerified subject true now).putHuman
        { h with status := .Verified, verifiedAt := now }).accountGate =
        (s.syncAccountVerified subject true now).accountGate := rfl
    rw [haccount, accountGate_syncAccountVerified, humanGate_putHuman, haddress]
    by_cases ha : a = subject
    · rw [if_pos ha, if_pos ha.symm]
      simp [Human.gate]
    · rw [if_neg ha, if_neg (fun h => ha h.symm)]
      exact hs a
  | prove subject pi now hsubject =>
    intro a
    obtain ⟨hcore, hgate, -⟩ := acceptZkProof_spec s subject pi now
    rw [humanGate_eq, hcore, hgate]
    by_cases ha : a = subject
    · subst ha
      cases hget : s.getHuman a with
      | none => simp [provedRecord, Human.gate]
      | some h =>
        by_cases hverified : h.status = .Verified
        · have hbefore := hs a
          rw [humanGate, hget] at hbefore
          simp [provedRecord, hverified, hbefore, Human.gate]
        · simp [provedRecord, hverified, Human.gate]
    · rw [if_neg ha, if_neg (fun h => ha h.1), ← humanGate_eq]
      exact hs a

end MemState

end Ubi2.Runtime
