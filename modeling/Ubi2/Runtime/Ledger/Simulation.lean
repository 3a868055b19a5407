import Ubi2.Runtime.Ledger.Moves

namespace Ubi2.Runtime.Ledger

open Lib

variable {now : U64} {w : Authority} (l : Ledger)

-- Each operation of the ledger, as a run of moves on the authority it is given.

theorem settleStream_of_none {id : StreamId} (h : l.getStream id = none) :
    l.settleStream id now = (0#128, l) := by
  simp only [settleStream, h]

private theorem pos_or_eq_zero (v : U128) : 0#128 < v ∨ v = 0#128 := by
  rcases Nat.eq_zero_or_pos v.toNat with h | h
  · exact Or.inr (BitVec.eq_of_toNat_eq (by simpa using h))
  · exact Or.inl (by simpa [BitVec.lt_def] using h)

-- Paying out nothing is the same as not paying.
theorem settleStream_of_some {id : StreamId} {s : Stream} (h : l.getStream id = some s) :
    l.settleStream id now =
      (s.owed now,
        (l.put (((l.account s.to_).settle now).credit (s.owed now))).putStream
          (s.drawTo now)) := by
  unfold settleStream
  rw [h]
  dsimp only
  have howed : Word.satSub (s.accrued now) s.drawn = s.owed now := rfl
  rw [howed]
  cases pos_or_eq_zero (s.owed now) with
  | inl hpos =>
    rw [if_pos hpos, if_pos hpos]
    rfl
  | inr hzero =>
    have hpos : ¬ 0#128 < s.owed now := by
      rw [hzero]
      exact lt_irrefl _
    rw [if_neg hpos, if_neg hpos]
    unfold Stream.drawTo
    rw [hzero, Account.credit_zero, Word.satAdd_zero]

theorem moves_settleStream (id : StreamId) : Moves now w l (l.settleStream id now).2 := by
  cases h : l.getStream id with
  | none =>
    rw [settleStream_of_none l h]
    exact Moves.refl
  | some s =>
    rw [settleStream_of_some l h]
    have hid : s.id = id := getStream_id l h
    have hsettle : Moves now w _ _ := Moves.single (Move.settle l s.to_)
    have hdraw : Moves now w _ _ := Moves.single (Move.draw
      (l.put ((l.account s.to_).settle now)) s (by simpa [hid] using h))
    have haccount : (l.put ((l.account s.to_).settle now)).account s.to_ =
        (l.account s.to_).settle now :=
      account_put_of_address l (by simp)
    rw [haccount, put_put _ (by simp)] at hdraw
    exact hsettle.trans hdraw

theorem moves_settleIncoming (a : Address) : Moves now w l (l.settleIncoming a now) := by
  simp only [settleIncoming]
  generalize l.incoming a = ids
  induction ids generalizing l with
  | nil => exact Moves.refl
  | cons id ids ih => exact (moves_settleStream l id).trans (ih _)

-- A payment between two accounts that are both settled first.
theorem moves_pay {a b : Address} {v : U128} (ha : w.spends a) (hne : a ≠ b)
    (hv : v ≤ ((l.account a).settle now).settledBalance) :
    Moves now w l
      ((l.put (((l.account a).settle now).debit v)).put
        (((l.account b).settle now).credit v)) := by
  have hb : (l.put ((l.account a).settle now)).account b = l.account b :=
    account_put_ne l (by simpa using hne)
  have hsettleA : Moves now w _ _ := Moves.single (Move.settle l a)
  have hsettleB : Moves now w _ _ := Moves.single (Move.settle
    (l.put ((l.account a).settle now)) b)
  rw [hb] at hsettleB
  have haccA : ((l.put ((l.account a).settle now)).put ((l.account b).settle now)).account a =
      (l.account a).settle now := by
    rw [account_put_ne _ (by simpa using hne.symm)]
    exact account_put_of_address l (by simp)
  have haccB : ((l.put ((l.account a).settle now)).put ((l.account b).settle now)).account b =
      (l.account b).settle now :=
    account_put_of_address _ (by simp)
  have hpay : Moves now w _ _ := Moves.single (Move.pay
    ((l.put ((l.account a).settle now)).put ((l.account b).settle now)) a b v ha hne
    (by rw [haccA]; exact hv))
  rw [haccA, haccB, put_put_put l (by simpa using hne) (by simp),
    put_put (l.put (((l.account a).settle now).debit v)) (by simp)] at hpay
  exact (hsettleA.trans hsettleB).trans hpay

-- A fee of nothing needs no authority.
theorem moves_chargeFee {a : Address} (gas : U64) (ha : feeForGas gas ≠ 0#128 → w.spends a) :
    Moves now w l (l.chargeFee a gas now).2 := by
  have hincoming : Moves now w _ _ := moves_settleIncoming l a
  simp only [chargeFee]
  generalize l.settleIncoming a now = l₁ at hincoming
  split_ifs with hlt hzero
  · exact hincoming
  · have hsame : ({ (l₁.account a).settle now with
        settledBalance := ((l₁.account a).settle now).settledBalance - feeForGas gas } : Account) =
        (l₁.account a).settle now := by
      rw [hzero, BitVec.sub_zero]
    rw [hsame]
    exact hincoming.trans (Moves.single (Move.settle l₁ a))
  · by_cases htreasury : a = TREASURY
    · rw [← htreasury, put_put l₁ (by simp)]
      have hsettle : Moves now w _ _ := Moves.single (Move.settle l₁ a)
      have hmint : Moves now w (l₁.put ((l₁.account a).settle now))
          (l₁.put (((l₁.account a).settle now).credit (feeForGas gas))) := by
        have h : Moves now w _ _ := Moves.single (Move.mint
          (l₁.put ((l₁.account a).settle now)) (feeForGas gas) (htreasury ▸ ha hzero))
        rw [← htreasury, account_put_of_address l₁ (by simp), put_put l₁ (by simp)] at h
        exact h
      exact hincoming.trans (hsettle.trans hmint)
    · exact hincoming.trans (moves_pay l₁ (ha hzero) htreasury (not_lt.mp hlt))

-- A failed transfer has only settled the sender's incoming streams.
theorem applyTransfer_error {a b : Address} {value : U128} {nonce : U64} {e : TransferError}
    {l' : Ledger} (h : l.applyTransfer a b value nonce now = (.error e, l')) :
    l' = l.settleIncoming a now := by
  simp only [applyTransfer] at h
  split_ifs at h <;> simp_all

-- A transfer that succeeds moves the value and then steps the sender's nonce.
theorem applyTransfer_ok {a b : Address} {value : U128} {nonce : U64} {l' : Ledger}
    (ha : w.spends a) (h : l.applyTransfer a b value nonce now = (.ok (), l')) :
    ∃ l₁, Moves now w l l₁ ∧ nonce = (l₁.account a).nonce ∧
      l' = l₁.put { l₁.account a with nonce := nonce + 1#64 } := by
  have hincoming : Moves now w _ _ := moves_settleIncoming l a
  simp only [applyTransfer] at h
  generalize l.settleIncoming a now = l₁ at hincoming h
  by_cases hnonce : nonce = ((l₁.account a).settle now).nonce
  swap
  · rw [if_pos hnonce] at h
    cases h
  rw [if_neg (not_not.mpr hnonce)] at h
  by_cases hfunds : ((l₁.account a).settle now).settledBalance < value
  · rw [if_pos hfunds] at h
    cases h
  rw [if_neg hfunds] at h
  by_cases hself : a = b
  · rw [if_pos hself] at h
    obtain ⟨-, rfl⟩ := Prod.mk.inj h
    refine ⟨_, hincoming.trans (Moves.single (Move.settle l₁ a)), ?_, ?_⟩
    · rw [account_put_of_address l₁ (by simp)]
      exact hnonce
    · rw [account_put_of_address l₁ (by simp), put_put l₁ (by simp), hnonce]
  · rw [if_neg hself] at h
    obtain ⟨-, rfl⟩ := Prod.mk.inj h
    have hacc : ((l₁.put (((l₁.account a).settle now).debit value)).put
        (((l₁.account b).settle now).credit value)).account a =
        ((l₁.account a).settle now).debit value := by
      rw [account_put_ne _ (by simpa using fun h => hself h.symm)]
      exact account_put_of_address l₁ (by simp)
    refine ⟨_, hincoming.trans (moves_pay l₁ ha hself (not_lt.mp hfunds)), ?_, ?_⟩
    · rw [hacc]
      exact hnonce
    · rw [hacc, put_put_put l₁ (by simpa using hself) (by simp), hnonce]
      rfl

theorem moves_openStream {a b : Address} (rate deposit : U128) (ha : w.spends a) :
    Moves now w l (l.openStream a b rate deposit now).2 := by
  simp only [openStream]
  split_ifs with hself hrate hdeposit hmax hfunds
  all_goals try exact Moves.refl
  have hsettle : Moves now w _ _ := Moves.single (Move.settle l a)
  have hacc : (l.put ((l.account a).settle now)).account a = (l.account a).settle now :=
    account_put_of_address l (by simp)
  have hlock : Moves now w _ _ := Moves.single (Move.lock
    (l.put ((l.account a).settle now)) a b rate deposit ha hself
    (by rw [hacc]; exact not_lt.mp hfunds))
  have hput : ({ l.put ((l.account a).settle now) with
      nextId := (l.put ((l.account a).settle now)).nextId + 1 } : Ledger).put
        (((l.account a).settle now).debit deposit) =
      ({ l with nextId := l.nextId + 1 } : Ledger).put
        (((l.account a).settle now).debit deposit) :=
    put_put { l with nextId := l.nextId + 1 } (by simp)
  rw [hacc, hput] at hlock
  exact hsettle.trans hlock

-- What stopping a stream does, once its caller and its status are accepted.
def stopped (s : Stream) (now : U64) : Ledger :=
  let l := (l.settleStream s.id now).2
  (l.put (((l.account s.from_).settle now).credit
    (Word.satSub s.deposit (s.drawTo now).drawn))).putStream
      { s.drawTo now with status := .Stopped now }

theorem getStream_settleStream {s : Stream} (h : l.getStream s.id = some s) :
    (l.settleStream s.id now).2.getStream s.id = some (s.drawTo now) := by
  rw [settleStream_of_some l h, getStream_putStream, if_pos (Stream.drawTo_id s now)]

-- Stopping a stream never panics: the stream read again is the one just written.
theorem stopStream_eq (id : StreamId) (caller : Address) :
    l.stopStream id caller now = some (
      match l.getStream id with
      | none => (.error (.NoSuchStream id), l)
      | some s =>
        if s.from_ ≠ caller then (.error .NotSender, l)
        else if s.status ≠ .Active then (.error .NotActive, l)
        else (.ok (Word.satSub s.deposit (s.drawTo now).drawn), l.stopped s now)) := by
  unfold stopStream
  cases h : l.getStream id with
  | none => rfl
  | some s =>
    have hid : s.id = id := getStream_id l h
    subst hid
    dsimp only
    split_ifs with hfrom hactive
    · rfl
    · rfl
    · rw [getStream_settleStream l h]
      simp only [Stream.drawTo_deposit, Stream.drawTo_from, stopped]
      rfl

theorem moves_stopped {s : Stream} (h : l.getStream s.id = some s) (ha : w.spends s.from_)
    (hactive : s.status = .Active) : Moves now w l (l.stopped s now) := by
  have hdraw : Moves now w _ _ := moves_settleStream l s.id
  have hget : (l.settleStream s.id now).2.getStream s.id = _ := getStream_settleStream l h
  simp only [stopped]
  generalize (l.settleStream s.id now).2 = l₁ at hdraw hget
  have hsettle : Moves now w _ _ := Moves.single (Move.settle l₁ s.from_)
  have hacc : (l₁.put ((l₁.account s.from_).settle now)).account s.from_ =
      (l₁.account s.from_).settle now :=
    account_put_of_address l₁ (by simp)
  have hopen : (s.drawTo now).status = .Active ∨
      (s.drawTo now).status = .Completed ∧ (s.drawTo now).deposit ≤ (s.drawTo now).drawn := by
    rw [Stream.drawTo_status, Stream.drawTo_deposit, Stream.drawTo_drawn]
    split_ifs with hfull
    · exact Or.inr ⟨rfl, hfull.1⟩
    · exact Or.inl hactive
  have hclose : Moves now w _ _ := Moves.single (Move.close
    (l₁.put ((l₁.account s.from_).settle now)) (s.drawTo now) (by simpa using hget)
    (by simpa using ha) (by simpa using Stream.accrued_le_drawTo_drawn s now) hopen)
  rw [Stream.drawTo_from, Stream.drawTo_deposit, hacc, put_put l₁ (by simp)] at hclose
  simpa only [Stream.drawTo_from, Stream.drawTo_deposit] using
    (hdraw.trans hsettle).trans hclose

theorem moves_stopStream {id : StreamId} {caller : Address} {r : Except StreamError U128}
    {l' : Ledger} (ha : w.spends caller) (h : l.stopStream id caller now = some (r, l')) :
    Moves now w l l' := by
  rw [stopStream_eq] at h
  cases hs : l.getStream id with
  | none =>
    simp only [hs, Option.some.injEq, Prod.mk.injEq] at h
    exact h.2 ▸ Moves.refl
  | some s =>
    have hid : s.id = id := getStream_id l hs
    simp only [hs, Option.some.injEq] at h
    split_ifs at h with hfrom hactive
    · exact (Prod.mk.inj h).2 ▸ Moves.refl
    · exact (Prod.mk.inj h).2 ▸ Moves.refl
    · rw [← (Prod.mk.inj h).2]
      exact moves_stopped l (by rw [hid]; exact hs) (not_not.mp hfrom ▸ ha)
        (not_not.mp hactive)

end Ubi2.Runtime.Ledger
