import Ubi2.Runtime.Lifecycle.Change

namespace Ubi2.Runtime

open Lib

-- The record of a human up to its reputation, which no gate reads.
def Human.core (h : Human) : Human := { h with reputation := 0#64 }

@[simp] theorem Human.core_core (h : Human) : h.core.core = h.core := (rfl)
@[simp] theorem Human.core_gate (h : Human) : h.core.gate = h.gate := (rfl)
@[simp] theorem Human.core_address (h : Human) : h.core.address = h.address := (rfl)
@[simp] theorem Human.core_status (h : Human) : h.core.status = h.status := (rfl)
@[simp] theorem Human.core_vouchesIn (h : Human) : h.core.vouchesIn = h.vouchesIn := (rfl)
@[simp] theorem Human.core_verifiedAt (h : Human) : h.core.verifiedAt = h.verifiedAt := (rfl)

namespace Human

-- The record of a subject whose challenge was upheld.
def revoked (h : Human) : Human :=
  { h with status := .Revoked, verifiedAt := 0#64, vouchesIn := [] }

-- The record of a subject whose challenge did not stand.
def restored (h : Human) : Human :=
  if h.status = .Challenged then { h with status := .Verified } else h

end Human

-- What the status of a case makes of its subject's record.
def Case.ruling (c : Case) : Human → Human :=
  match c.status, c.kind with
  | .Open, _ => fun h => h
  | .Escalated, .Registration => fun h => h
  | .Escalated, .Challenge => Human.restored
  | .Committed v, kind =>
    match v.verdict with
    | .Sybil => Human.revoked
    | .Human => if kind = .Challenge then Human.restored else fun h => h
    | .Uncertain => fun h => h

namespace MemState

variable (s : MemState)

def coreOf (a : Address) : Option Human := (s.getHuman a).map Human.core

theorem humanGate_eq (a : Address) : s.humanGate a = (s.coreOf a).bind Human.gate := by
  simp only [humanGate, coreOf]
  cases s.getHuman a <;> simp

theorem coreOf_of_get {a : Address} {h : Human} (hget : s.getHuman a = some h) :
    s.coreOf a = some h.core := by
  rw [coreOf, hget]
  rfl

theorem coreOf_putHuman (h : Human) (a : Address) :
    (s.putHuman h).coreOf a = if h.address = a then some h.core else s.coreOf a := by
  rw [coreOf, getHuman_putHuman]
  split_ifs <;> rfl

@[simp] theorem coreOf_addCase (c : Case) : (s.addCase c).coreOf = s.coreOf := (rfl)
@[simp] theorem coreOf_putCase (c : Case) : (s.putCase c).coreOf = s.coreOf := (rfl)
@[simp] theorem coreOf_putVouch (v : Vouch) : (s.putVouch v).coreOf = s.coreOf := (rfl)
@[simp] theorem coreOf_clearVouchEdges (a : Address) :
    (s.clearVouchEdges a).coreOf = s.coreOf := (rfl)
@[simp] theorem coreOf_syncAccountVerified (a : Address) (v : Bool) (t : U64) :
    (s.syncAccountVerified a v t).coreOf = s.coreOf := (rfl)

-- What each operation writes, as seen by the record of an address.
section Writes

variable {subject : Address} {h : Human} {c : Case}

private theorem coreOf_put (hget : s.getHuman subject = some h) {s₁ : MemState}
    (hs₁ : s₁.coreOf = s.coreOf) {h' : Human} (haddress : h'.address = h.address) (a : Address) :
    (s₁.putHuman h').coreOf a = if a = subject then some h'.core else s.coreOf a := by
  have hkey : h.address = subject := Table.key_of_get hget
  rw [coreOf_putHuman, haddress, hkey, hs₁]
  by_cases ha : a = subject
  · rw [if_pos ha.symm, if_pos ha]
  · rw [if_neg (fun h => ha h.symm), if_neg ha]

theorem coreOf_request (livenessRef : Hash) (a : Address) :
    (((s.clearVouchEdges subject).addCase c).putHuman
      (Human.pending subject livenessRef)).coreOf a =
      if a = subject then some (Human.pending subject livenessRef) else s.coreOf a := by
  have haddress : (Human.pending subject livenessRef).address = subject := rfl
  rw [coreOf_putHuman, haddress, coreOf_addCase, coreOf_clearVouchEdges]
  by_cases ha : a = subject
  · rw [if_pos ha, if_pos ha.symm]
    rfl
  · rw [if_neg ha, if_neg (fun h => ha h.symm)]

theorem addVoucher_same (v : Address) :
    (addVoucher h v).address = h.address ∧ (addVoucher h v).status = h.status := by
  unfold addVoucher
  split_ifs <;> exact ⟨rfl, rfl⟩

theorem coreOf_vouch {v : Vouch} (hget : s.getHuman v.vouchee = some h) (a : Address) :
    ((s.putVouch v).putHuman (addVoucher h v.voucher)).coreOf a =
      if a = v.vouchee then some (addVoucher h v.voucher).core else s.coreOf a :=
  coreOf_put s hget (coreOf_putVouch s v) (addVoucher_same v.voucher).1 a

theorem coreOf_challenge (hget : s.getHuman subject = some h) (a : Address) :
    ((s.addCase c).putHuman (challenged h)).coreOf a =
      if a = subject then some (challenged h).core else s.coreOf a := by
  refine coreOf_put s hget (coreOf_addCase s c) ?_ a
  unfold challenged
  split_ifs <;> rfl

theorem coreOf_finalize (hget : s.getHuman subject = some h) (now : U64) (a : Address) :
    ((s.syncAccountVerified subject true now).putHuman
      { h with status := .Verified, verifiedAt := now }).coreOf a =
      if a = subject then
        some ({ h with status := .Verified, verifiedAt := now } : Human).core
      else s.coreOf a := by
  have haddress : ({ h with status := .Verified, verifiedAt := now } : Human).address =
      h.address := rfl
  exact coreOf_put s hget (coreOf_syncAccountVerified s subject true now) haddress a

end Writes

-- The registry other than the records.
structure SameBoards (s s' : MemState) : Prop where
  cases : s'.humanity.cases = s.humanity.cases
  nextCaseId : s'.humanity.nextCaseId = s.humanity.nextCaseId
  forward : s'.humanity.vouchesOutIdx = s.humanity.vouchesOutIdx
  reverse : s'.humanity.vouchersOfIdx = s.humanity.vouchersOfIdx

theorem SameBoards.refl : SameBoards s s := ⟨rfl, rfl, rfl, rfl⟩

theorem SameBoards.trans {s s' s'' : MemState} (h : SameBoards s s') (h' : SameBoards s' s'') :
    SameBoards s s'' :=
  ⟨h'.cases.trans h.cases, h'.nextCaseId.trans h.nextCaseId, h'.forward.trans h.forward,
    h'.reverse.trans h.reverse⟩

theorem sameBoards_putHuman (h : Human) : SameBoards s (s.putHuman h) := ⟨rfl, rfl, rfl, rfl⟩

theorem sameBoards_slashReputation (v : Address) (n : Int) :
    SameBoards s (s.slashReputation v n) := by
  simp only [slashReputation]
  cases s.getHuman v with
  | none => exact .refl s
  | some h => exact sameBoards_putHuman s _

theorem sameBoards_restoreChallenged (a : Address) : SameBoards s (s.restoreChallenged a) := by
  simp only [restoreChallenged]
  cases s.getHuman a with
  | none => exact .refl s
  | some h =>
    dsimp only
    split_ifs
    · exact ⟨rfl, rfl, rfl, rfl⟩
    · exact .refl s

-- A slash leaves every record as it is, up to the reputation.
@[simp] theorem coreOf_slashReputation (v : Address) (n : Int) :
    (s.slashReputation v n).coreOf = s.coreOf := by
  funext a
  simp only [slashReputation]
  cases hget : s.getHuman v with
  | none => rfl
  | some h =>
    have haddress : h.address = v := Table.key_of_get hget
    rw [coreOf_putHuman]
    split_ifs with ha
    · rw [coreOf_of_get s (a := a) (h := h) (by rw [← ha, haddress]; exact hget)]
      rfl
    · rfl

private theorem foldl_slashReputation (vouchers : List Address) (n : Int) :
    (vouchers.foldl (fun s v => slashReputation s v n) s).coreOf = s.coreOf ∧
      (vouchers.foldl (fun s v => slashReputation s v n) s).accountGate = s.accountGate ∧
      SameBoards s (vouchers.foldl (fun s v => slashReputation s v n) s) := by
  induction vouchers generalizing s with
  | nil => exact ⟨rfl, rfl, .refl s⟩
  | cons v vouchers ih =>
    obtain ⟨hcore, hgate, hboards⟩ := ih (s.slashReputation v n)
    refine ⟨hcore.trans (coreOf_slashReputation s v n), hgate.trans ?_,
      (sameBoards_slashReputation s v n).trans hboards⟩
    funext a
    simp only [accountGate, account_slashReputation]

theorem accountGate_syncAccountVerified (subject : Address) (v : Bool) (t : U64) (a : Address) :
    (s.syncAccountVerified subject v t).accountGate a =
      if a = subject then (if v then some t else none) else s.accountGate a := by
  have hput := Ledger.account_put s.ledger
    { s.account subject with verified := v, verifiedAt := t } a
  simp only [accountGate, syncAccountVerified, account, put] at hput ⊢
  rw [hput]
  simp only [Ledger.account_address]
  by_cases ha : a = subject
  · rw [if_pos ha.symm, if_pos ha]
    rfl
  · rw [if_neg (fun h => ha h.symm), if_neg ha]

-- The address revoked loses its record's standing, its edges and its gate.
theorem revoke_spec (subject : Address) :
    (∀ a, (s.revoke subject).coreOf a =
      if a = subject then (s.coreOf a).map Human.revoked else s.coreOf a) ∧
    (∀ a, (s.revoke subject).accountGate a = if a = subject then none else s.accountGate a) ∧
    (s.revoke subject).humanity.cases = s.humanity.cases ∧
    (s.revoke subject).humanity.nextCaseId = s.humanity.nextCaseId ∧
    (s.revoke subject).humanity.vouchesOutIdx =
      (s.clearVouchEdges subject).humanity.vouchesOutIdx ∧
    (s.revoke subject).humanity.vouchersOfIdx =
      (s.clearVouchEdges subject).humanity.vouchersOfIdx := by
  unfold revoke
  cases hget : s.getHuman subject with
  | none =>
    dsimp only
    refine ⟨fun a => ?_, fun a => ?_, rfl, rfl, rfl, rfl⟩
    · rw [coreOf_syncAccountVerified, coreOf_clearVouchEdges]
      split_ifs with ha
      · rw [ha, coreOf, hget]
        rfl
      · rfl
    · rw [accountGate_syncAccountVerified]
      rfl
  | some h =>
    have haddress : h.address = subject := Table.key_of_get hget
    obtain ⟨hcore, hgate, hboards⟩ := foldl_slashReputation s h.vouchesIn SYBIL_SLASH
    dsimp only
    generalize h.vouchesIn.foldl (fun s v => slashReputation s v SYBIL_SLASH) s = s₁
      at hcore hgate hboards
    refine ⟨fun a => ?_, fun a => ?_, hboards.cases, hboards.nextCaseId, ?_, ?_⟩
    · rw [coreOf_syncAccountVerified, coreOf_clearVouchEdges, coreOf_putHuman, hcore]
      simp only [haddress]
      by_cases ha : a = subject
      · rw [if_pos ha.symm, if_pos ha, ha, coreOf_of_get s hget]
        simp [Human.revoked, Human.core, haddress]
      · rw [if_neg (fun h => ha h.symm), if_neg ha]
    · rw [accountGate_syncAccountVerified]
      have hsame : ((s₁.putHuman { h with
          status := .Revoked, verifiedAt := 0#64, vouchesIn := [] }).clearVouchEdges
            subject).accountGate = s₁.accountGate := rfl
      rw [hsame, hgate]
      rfl
    · simp only [syncAccountVerified, put, clearVouchEdges, putHuman,
        HumanRegistry.clearVouchEdges, HumanRegistry.putHuman, hboards.forward]
    · simp only [syncAccountVerified, put, clearVouchEdges, putHuman,
        HumanRegistry.clearVouchEdges, HumanRegistry.putHuman, hboards.reverse]

theorem coreOf_restoreChallenged (subject a : Address) :
    (s.restoreChallenged subject).coreOf a =
      if a = subject then (s.coreOf a).map Human.restored else s.coreOf a := by
  unfold restoreChallenged
  cases hget : s.getHuman subject with
  | none =>
    dsimp only
    split_ifs with ha
    · rw [ha, coreOf, hget]
      rfl
    · rfl
  | some h =>
    have haddress : h.address = subject := Table.key_of_get hget
    have hcore := coreOf_of_get s hget
    dsimp only
    by_cases hstatus : h.status = .Challenged
    · rw [if_pos hstatus, coreOf_putHuman, coreOf_syncAccountVerified]
      simp only [haddress]
      by_cases ha : a = subject
      · rw [if_pos ha.symm, if_pos ha, ha, hcore]
        simp [Human.restored, Human.core, hstatus, haddress]
      · rw [if_neg (fun h => ha h.symm), if_neg ha]
    · rw [if_neg hstatus]
      split_ifs with ha
      · rw [ha, hcore]
        simp [Human.restored, hstatus]
      · rfl

theorem accountGate_restoreChallenged (subject a : Address) :
    (s.restoreChallenged subject).accountGate a =
      if a = subject ∧ (s.coreOf a).any (fun h => h.status = .Challenged) then s.humanGate a
      else s.accountGate a := by
  unfold restoreChallenged
  cases hget : s.getHuman subject with
  | none =>
    dsimp only
    rw [if_neg]
    rintro ⟨rfl, hany⟩
    simp [coreOf, hget] at hany
  | some h =>
    dsimp only
    by_cases hstatus : h.status = .Challenged
    · rw [if_pos hstatus]
      have hput : ((s.syncAccountVerified subject true h.verifiedAt).putHuman
          { h with status := .Verified }).accountGate =
          (s.syncAccountVerified subject true h.verifiedAt).accountGate := rfl
      rw [hput, accountGate_syncAccountVerified]
      by_cases ha : a = subject
      · have hany : (s.coreOf a).any (fun h => h.status = .Challenged) = true := by
          rw [ha, coreOf_of_get s hget]
          simp [hstatus]
        have hboth : a = subject ∧ (s.coreOf a).any (fun h => h.status = .Challenged) = true :=
          ⟨ha, hany⟩
        rw [if_pos ha, if_pos hboth]
        simp [humanGate, ha, hget, Human.gate, hstatus]
      · rw [if_neg ha, if_neg (fun h => ha h.1)]
    · rw [if_neg hstatus, if_neg]
      rintro ⟨rfl, hany⟩
      rw [coreOf_of_get s hget] at hany
      simp [hstatus] at hany

-- A decided case changes its subject's record by its ruling, and no other record.
theorem coreOf_actOnStatus (c : Case) (a : Address) :
    (s.actOnStatus c).coreOf a =
      if a = c.subject then (s.coreOf a).map c.ruling else s.coreOf a := by
  have hid : s.coreOf a =
      if a = c.subject then (s.coreOf a).map (fun h => h) else s.coreOf a := by
    simp
  unfold actOnStatus Case.ruling
  cases c.status with
  | Open => exact hid
  | Escalated =>
    cases c.kind with
    | Registration => exact hid
    | Challenge => exact coreOf_restoreChallenged s c.subject a
  | Committed v =>
    dsimp only
    cases v.verdict with
    | Sybil => exact (revoke_spec s c.subject).1 a
    | Uncertain => exact hid
    | Human =>
      dsimp only
      by_cases hkind : c.kind = .Challenge
      · rw [if_pos hkind, if_pos hkind, ← coreOf_restoreChallenged,
          ← coreOf_slashReputation (s.restoreChallenged c.subject) c.challenger
            FALSE_CHALLENGE_SLASH]
        rfl
      · rw [if_neg hkind, if_neg hkind]
        exact hid

theorem cases_actOnStatus (c : Case) :
    (s.actOnStatus c).humanity.cases = s.humanity.cases ∧
      (s.actOnStatus c).humanity.nextCaseId = s.humanity.nextCaseId := by
  have hback := sameBoards_restoreChallenged s c.subject
  unfold actOnStatus
  cases c.status with
  | Open => exact ⟨rfl, rfl⟩
  | Escalated =>
    dsimp only
    split_ifs
    · exact ⟨hback.cases, hback.nextCaseId⟩
    · exact ⟨rfl, rfl⟩
  | Committed v =>
    dsimp only
    cases v.verdict with
    | Sybil =>
      have h := revoke_spec s c.subject
      exact ⟨h.2.2.1, h.2.2.2.1⟩
    | Uncertain => exact ⟨rfl, rfl⟩
    | Human =>
      dsimp only
      split_ifs
      · have hslash := hback.trans (sameBoards_slashReputation _ c.challenger
          FALSE_CHALLENGE_SLASH)
        exact ⟨hslash.cases, hslash.nextCaseId⟩
      · exact ⟨rfl, rfl⟩

-- Only an upheld case touches the vouch edges.
theorem edges_actOnStatus (c : Case) :
    (s.actOnStatus c).humanity.vouchesOutIdx =
        (if c.upholds then s.clearVouchEdges c.subject else s).humanity.vouchesOutIdx ∧
      (s.actOnStatus c).humanity.vouchersOfIdx =
        (if c.upholds then s.clearVouchEdges c.subject else s).humanity.vouchersOfIdx := by
  have hback := sameBoards_restoreChallenged s c.subject
  have hnot : ∀ st, c.status = st → (∀ v, st = .Committed v → v.verdict ≠ .Sybil) →
      ¬ c.upholds := by
    rintro st hst hv ⟨v, hcommitted, hsybil⟩
    exact hv v (hst.symm.trans hcommitted) hsybil
  unfold actOnStatus
  cases hstatus : c.status with
  | Open =>
    rw [if_neg (hnot _ hstatus (by simp))]
    exact ⟨rfl, rfl⟩
  | Escalated =>
    rw [if_neg (hnot _ hstatus (by simp))]
    dsimp only
    split_ifs
    · exact ⟨hback.forward, hback.reverse⟩
    · exact ⟨rfl, rfl⟩
  | Committed v =>
    dsimp only
    cases hverdict : v.verdict with
    | Sybil =>
      have h := revoke_spec s c.subject
      have hup : c.upholds := ⟨v, hstatus, hverdict⟩
      rw [if_pos hup]
      exact ⟨h.2.2.2.2.1, h.2.2.2.2.2⟩
    | Uncertain =>
      rw [if_neg (hnot _ hstatus (by rintro w ⟨⟩; simp [hverdict]))]
      exact ⟨rfl, rfl⟩
    | Human =>
      rw [if_neg (hnot _ hstatus (by rintro w ⟨⟩; simp [hverdict]))]
      dsimp only
      split_ifs
      · have hslash := hback.trans (sameBoards_slashReputation _ c.challenger
          FALSE_CHALLENGE_SLASH)
        exact ⟨hslash.forward, hslash.reverse⟩
      · exact ⟨rfl, rfl⟩

-- The record that an accepted proof leaves, from the one before it.
def provedRecord (subject : Address) (now : U64) (h : Option Human) : Human :=
  match h with
  | some h =>
    if h.status = .Verified then { h with assurance := .Dual }
    else { h with status := .Verified, verifiedAt := now, assurance := .Enh }
  | none =>
    { Human.pending subject 0#256 with
      status := .Verified, verifiedAt := now, assurance := .Enh }

-- An accepted proof writes the record and the gate of its subject only.
theorem acceptZkProof_spec (subject : Address) (pi : ZkPublicInputs) (now : U64) :
    (∀ a, (s.acceptZkProof subject pi now).2.coreOf a =
      if a = subject then some (provedRecord subject now (s.getHuman a)).core else s.coreOf a) ∧
    (∀ a, (s.acceptZkProof subject pi now).2.accountGate a =
      if a = subject ∧ (s.getHuman a).map Human.status ≠ some .Verified then some now
      else s.accountGate a) ∧
    SameBoards s (s.acceptZkProof subject pi now).2 := by
  have hne : ∀ {a : Address}, a ≠ subject → ¬ subject = a := fun h heq => h heq.symm
  unfold acceptZkProof
  have hget : ({ s with zk := { s.zk with
      nullifiers := s.zk.nullifiers.put pi.nullifier
      attributeCommitments :=
        s.zk.attributeCommitments.put (subject, pi.attributeCommitments) } } : MemState).getHuman
          subject = s.getHuman subject := rfl
  have henhance : ∀ (s₁ : MemState) (h : Human), h.address = subject →
      (∀ a, (s₁.enhance subject h now).2.coreOf a = if a = subject then
        some ({ h with status := .Verified, verifiedAt := now, assurance := .Enh } : Human).core
        else s₁.coreOf a) ∧
      (∀ a, (s₁.enhance subject h now).2.accountGate a =
        if a = subject then some now else s₁.accountGate a) := by
    intro s₁ h haddress
    refine ⟨fun a => ?_, fun a => ?_⟩
    · simp only [enhance, coreOf_putHuman, coreOf_syncAccountVerified, haddress]
      by_cases ha : a = subject
      · rw [if_pos ha.symm, if_pos ha]
      · rw [if_neg (hne ha), if_neg ha]
    · have hput : (s₁.enhance subject h now).2.accountGate =
          (s₁.syncAccountVerified subject true now).accountGate := rfl
      rw [hput, accountGate_syncAccountVerified]
      rfl
  dsimp only
  rw [hget]
  cases hs : s.getHuman subject with
  | none =>
    obtain ⟨hcore, hgate⟩ := henhance _ (Human.pending subject 0#256) rfl
    refine ⟨fun a => ?_, fun a => ?_, ⟨rfl, rfl, rfl, rfl⟩⟩
    · refine (hcore a).trans ?_
      split_ifs with ha
      · rw [ha, hs]
        rfl
      · rfl
    · refine (hgate a).trans ?_
      by_cases ha : a = subject
      · have hboth : a = subject ∧ (s.getHuman a).map Human.status ≠ some .Verified :=
          ⟨ha, by rw [ha, hs]; simp⟩
        rw [if_pos ha, if_pos hboth]
      · rw [if_neg ha, if_neg (fun h => ha h.1)]
        rfl
  | some h =>
    have haddress : h.address = subject := Table.key_of_get hs
    dsimp only
    by_cases hverified : h.status = .Verified
    · rw [if_pos hverified]
      refine ⟨fun a => ?_, fun a => ?_, ⟨rfl, rfl, rfl, rfl⟩⟩
      · rw [coreOf_putHuman]
        simp only [haddress]
        by_cases ha : a = subject
        · rw [if_pos ha.symm, if_pos ha, ha, hs]
          simp [provedRecord, hverified, haddress]
        · rw [if_neg (hne ha), if_neg ha]
          rfl
      · rw [if_neg]
        · rfl
        · rintro ⟨rfl, hnot⟩
          rw [hs] at hnot
          simp [hverified] at hnot
    · rw [if_neg hverified]
      obtain ⟨hcore, hgate⟩ := henhance _ h haddress
      refine ⟨fun a => ?_, fun a => ?_, ⟨rfl, rfl, rfl, rfl⟩⟩
      · refine (hcore a).trans ?_
        split_ifs with ha
        · rw [ha, hs]
          simp [provedRecord, hverified]
        · rfl
      · refine (hgate a).trans ?_
        by_cases ha : a = subject
        · have hboth : a = subject ∧ (s.getHuman a).map Human.status ≠ some .Verified :=
            ⟨ha, by rw [ha, hs]; simpa using hverified⟩
          rw [if_pos ha, if_pos hboth]
        · rw [if_neg ha, if_neg (fun h => ha h.1)]
          rfl

end MemState

end Ubi2.Runtime
