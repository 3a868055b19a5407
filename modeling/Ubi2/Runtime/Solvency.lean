import Ubi2.Runtime.Ledger.Balance
import Ubi2.Runtime.Nonce

namespace Ubi2.Runtime

open Lib

namespace Account

variable (a : Account) (now : U64)

theorem settledBalance_le_balance : a.settledBalance ≤ a.balance now :=
  a.settledBalance_le_settle now

theorem balance_settle : (a.settle now).balance now = a.balance now := by
  apply BitVec.eq_of_toNat_eq
  rw [toNat_balance, toNat_balance, worth_settle]
  omega

theorem settledBalance_le_credit (v : U128) : a.settledBalance ≤ (a.credit v).settledBalance := by
  have hlt := a.settledBalance.isLt
  rw [BitVec.le_def, credit, Word.toNat_satAdd]
  omega

-- A credit leaves the emission that is pending as it was.
theorem balance_le_credit (v : U128) : a.balance now ≤ (a.credit v).balance now := by
  have hcredit := BitVec.le_def.mp (a.settledBalance_le_credit v)
  have hsame : (a.credit v).pendingEmission now = a.pendingEmission now := rfl
  rw [BitVec.le_def, toNat_balance, toNat_balance, worth, worth, hsame]
  omega

end Account

namespace Ledger

variable {now : U64} {w : Authority} {l l' : Ledger} {a : Address}

-- No authority over anything.
def idle : Authority :=
  { spends := fun _ => False, renonces := fun _ => False, gates := fun _ _ _ => False }

-- What a move does to the record of an account that it does not spend from.
theorem account_of_move (h : Move now w l l') (ha : ¬ w.spends a) :
    l'.account a = l.account a ∨
    l'.account a = (l.account a).settle now ∨
    (∃ v, l'.account a = (l.account a).credit v) ∨
    (∃ n, l'.account a = { l.account a with nonce := n }) ∨
    ∃ v t, w.gates (l.account a) v t ∧
      l'.account a = { l.account a with verified := v, verifiedAt := t } := by
  cases h with
  | settle b =>
    rw [account_put]
    split_ifs with hb
    · have hb : b = a := by simpa using hb
      rw [hb]
      exact Or.inr (Or.inl rfl)
    · exact Or.inl rfl
  | pay b c v hb hne hv =>
    rw [account_put, account_put]
    split_ifs with hc hba
    · have hc : c = a := by simpa using hc
      rw [hc]
      exact Or.inr (Or.inr (Or.inl ⟨v, rfl⟩))
    · have hba : b = a := by simpa using hba
      exact absurd (hba ▸ hb) ha
    · exact Or.inl rfl
  | mint v hb =>
    rw [account_put]
    split_ifs with hb
    · have hb : TREASURY = a := by simpa using hb
      rw [hb]
      exact Or.inr (Or.inr (Or.inl ⟨v, rfl⟩))
    · exact Or.inl rfl
  | renonce b n hb =>
    rw [account_put]
    split_ifs with hb
    · have hb : b = a := by simpa using hb
      rw [hb]
      exact Or.inr (Or.inr (Or.inr (Or.inl ⟨n, rfl⟩)))
    · exact Or.inl rfl
  | lock b c rate deposit hb hne hv =>
    rw [account_putStream, account_put]
    split_ifs with hba
    · have hba : b = a := by simpa using hba
      exact absurd (hba ▸ hb) ha
    · exact Or.inl rfl
  | draw s hs =>
    rw [account_putStream, account_put]
    split_ifs with hb
    · have hb : s.to_ = a := by simpa using hb
      rw [hb]
      exact Or.inr (Or.inr (Or.inl ⟨s.owed now, rfl⟩))
    · exact Or.inl rfl
  | close s hs hb hdone hopen =>
    rw [account_putStream, account_put]
    split_ifs with hb
    · have hb : s.from_ = a := by simpa using hb
      rw [hb]
      exact Or.inr (Or.inr (Or.inl ⟨Word.satSub s.deposit s.drawn, rfl⟩))
    · exact Or.inl rfl
  | gate b v t hb =>
    rw [account_put]
    split_ifs with hba
    · have hba : b = a := by simpa using hba
      rw [hba] at hb ⊢
      exact Or.inr (Or.inr (Or.inr (Or.inr ⟨v, t, hb, rfl⟩)))
    · exact Or.inl rfl

-- Without authority to spend from an account, no move lowers its settled balance.
theorem settled_le_of_move (h : Move now w l l') (ha : ¬ w.spends a) :
    (l.account a).settledBalance ≤ (l'.account a).settledBalance := by
  rcases account_of_move h ha with h | h | ⟨v, h⟩ | ⟨n, h⟩ | ⟨v, t, -, h⟩ <;> rw [h]
  · exact Account.settledBalance_le_settle _ now
  · exact Account.settledBalance_le_credit _ v

theorem settled_le_of_moves (h : Moves now w l l') (ha : ¬ w.spends a) :
    (l.account a).settledBalance ≤ (l'.account a).settledBalance :=
  Run.invariant (P := fun l' => (l.account a).settledBalance ≤ (l'.account a).settledBalance)
    (fun _ _ hmove hl => hl.trans (settled_le_of_move hmove ha)) h le_rfl

-- Nor its balance, when its gate stays as it is.
theorem balance_le_of_move (h : Move now w l l') (ha : ¬ w.spends a)
    (hg : ∀ x v t, x.address = a → w.gates x v t → x.verified = v ∧ x.verifiedAt = t) :
    (l.account a).balance now ≤ (l'.account a).balance now := by
  rcases account_of_move h ha with h | h | ⟨v, h⟩ | ⟨n, h⟩ | ⟨v, t, hgate, h⟩ <;> rw [h]
  · rw [Account.balance_settle]
  · exact Account.balance_le_credit _ now v
  · exact le_rfl
  · obtain ⟨rfl, rfl⟩ := hg _ v t (account_address l a) hgate
    exact le_rfl

theorem balance_le_of_moves (h : Moves now w l l') (ha : ¬ w.spends a)
    (hg : ∀ x v t, x.address = a → w.gates x v t → x.verified = v ∧ x.verifiedAt = t) :
    (l.account a).balance now ≤ (l'.account a).balance now :=
  Run.invariant (P := fun l' => (l.account a).balance now ≤ (l'.account a).balance now)
    (fun _ _ hmove hl => hl.trans (balance_le_of_move hmove ha hg)) h le_rfl

theorem settled_le_settleIncoming (l : Ledger) (b : Address) :
    (l.account a).settledBalance ≤ ((l.settleIncoming b now).account a).settledBalance :=
  settled_le_of_moves (moves_settleIncoming (w := idle) l b) (fun h => h)

theorem balance_le_settleIncoming (l : Ledger) (b : Address) :
    (l.account a).balance now ≤ ((l.settleIncoming b now).account a).balance now :=
  balance_le_of_moves (moves_settleIncoming (w := idle) l b) (fun h => h)
    (fun _ _ _ _ h => h.elim)

-- A balance that covers the fee pays it, and settles the rest.
theorem chargeFee_covers {gas : U64} {n : Nat}
    (h : (feeForGas gas).toNat + n ≤ ((l.account a).balance now).toNat) :
    ∃ l', l.chargeFee a gas now = (.ok (feeForGas gas), l') ∧
      n ≤ (l'.account a).settledBalance.toNat := by
  have hle := BitVec.le_def.mp (@balance_le_settleIncoming now a l a)
  simp only [chargeFee]
  generalize l.settleIncoming a now = l₁ at hle
  have hsettled : ((l₁.account a).settle now).settledBalance = (l₁.account a).balance now := rfl
  have hpays : feeForGas gas ≤ ((l₁.account a).settle now).settledBalance := by
    rw [hsettled, BitVec.le_def]
    omega
  have hrest : n ≤ (((l₁.account a).settle now).settledBalance - feeForGas gas).toNat := by
    rw [BitVec.toNat_sub_of_le hpays, hsettled]
    omega
  rw [if_neg (not_lt.mpr hpays)]
  by_cases hzero : feeForGas gas = 0#128
  · rw [if_pos hzero]
    rw [hzero] at hrest ⊢
    refine ⟨_, rfl, ?_⟩
    rw [account_put_of_address l₁ (by simp)]
    exact hrest
  · rw [if_neg hzero]
    refine ⟨_, rfl, ?_⟩
    rw [account_put]
    split_ifs with htreasury
    · -- the treasury is paid its own fee
      have htreasury : TREASURY = a := by simpa using htreasury
      have hcredit := BitVec.le_def.mp
        (((l₁.account a).settle now).settledBalance_le_credit (feeForGas gas))
      rw [htreasury]
      rw [hsettled] at hcredit
      exact (by omega : n ≤ ((l₁.account a).balance now).toNat).trans hcredit
    · rw [account_put_of_address l₁ (by simp)]
      exact hrest

-- A settled balance that covers the value is transferred from, at the nonce of the sender.
theorem applyTransfer_covers {b : Address} {v : U128} {nonce : U64} {n : Nat}
    (hnonce : nonce = (l.account a).nonce) (h : v.toNat + n ≤ (l.account a).settledBalance.toNat) :
    ∃ l', l.applyTransfer a b v nonce now = (.ok (), l') ∧
      n ≤ (l'.account a).settledBalance.toNat := by
  have hle := BitVec.le_def.mp (@settled_le_settleIncoming now a l a)
  have hsame : ((l.settleIncoming a now).account a).nonce = (l.account a).nonce :=
    nonce_of_moves (moves_settleIncoming (w := idle) l a) (fun h => h)
  simp only [applyTransfer]
  generalize l.settleIncoming a now = l₁ at hle hsame
  have hsettle := BitVec.le_def.mp ((l₁.account a).settledBalance_le_settle now)
  have hpays : v ≤ ((l₁.account a).settle now).settledBalance := by
    rw [BitVec.le_def]
    omega
  rw [if_neg (not_not.mpr (by rw [Account.settle_nonce, hsame, hnonce])),
    if_neg (not_lt.mpr hpays)]
  by_cases hself : a = b
  · rw [if_pos hself]
    refine ⟨_, rfl, ?_⟩
    rw [account_put_of_address l₁ (by simp)]
    dsimp only
    omega
  · rw [if_neg hself]
    refine ⟨_, rfl, ?_⟩
    rw [account_put_ne _ (by simpa using fun h => hself h.symm),
      account_put_of_address l₁ (by simp)]
    dsimp only
    rw [BitVec.toNat_sub_of_le hpays]
    omega

-- A settled balance that covers the deposit is not what a stream fails to open for.
theorem openStream_covers {b : Address} (rate : U128) {deposit : U128} {n : Nat}
    (h : deposit.toNat + n ≤ (l.account a).settledBalance.toNat) :
    (∀ have_ need, (l.openStream a b rate deposit now).1 ≠
      .error (.InsufficientBalance have_ need)) ∧
    n ≤ ((l.openStream a b rate deposit now).2.account a).settledBalance.toNat := by
  have hsettle := BitVec.le_def.mp ((l.account a).settledBalance_le_settle now)
  have hpays : deposit ≤ ((l.account a).settle now).settledBalance := by
    rw [BitVec.le_def]
    omega
  have hfrom : n ≤ (l.account a).settledBalance.toNat := by omega
  simp only [openStream]
  split_ifs with hself hrate hdeposit hmax hfunds
  · exact ⟨by simp, hfrom⟩
  · exact ⟨by simp, hfrom⟩
  · exact ⟨by simp, hfrom⟩
  · exact ⟨by simp, hfrom⟩
  · exact absurd hpays (not_le.mpr hfunds)
  · refine ⟨by simp, ?_⟩
    rw [account_putStream]
    simp only [nextStreamId]
    rw [account_put_of_address _ (by simp)]
    dsimp only
    rw [BitVec.toNat_sub_of_le hpays]
    omega

-- Stopping a stream lowers no settled balance: its sender gets the rest of the deposit.
theorem settled_le_stopStream {id : StreamId} {caller : Address} {r : Except StreamError U128}
    (h : l.stopStream id caller now = some (r, l')) (b : Address) :
    (l.account b).settledBalance ≤ (l'.account b).settledBalance := by
  rw [stopStream_eq] at h
  cases hs : l.getStream id with
  | none =>
    rw [hs] at h
    cases h
    exact le_rfl
  | some s =>
    simp only [hs, Option.some.injEq] at h
    split_ifs at h with hfrom hactive
    · rw [← (Prod.mk.inj h).2]
    · rw [← (Prod.mk.inj h).2]
    · rw [← (Prod.mk.inj h).2, stopped, account_putStream]
      have hle := settled_le_of_moves (a := b) (@moves_settleStream now idle l s.id)
        (fun h => h)
      generalize (l.settleStream s.id now).2 = l₁ at hle
      rw [account_put]
      split_ifs with hb
      · have hb : s.from_ = b := by simpa using hb
        rw [hb]
        exact hle.trans ((Account.settledBalance_le_settle _ now).trans
          (Account.settledBalance_le_credit _ _))
      · exact hle

end Ledger

end Ubi2.Runtime
