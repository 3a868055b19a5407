import Ubi2.Runtime.Ledger.Inflow
import Ubi2.Runtime.Nonce

namespace Ubi2.Runtime

open Lib

namespace Account

variable (a : Account) {now : U64}

-- A clock that has reached the present has nothing to settle.
theorem settle_of_le (h : now ≤ a.lastSettledAt) : a.settle now = a := by
  have hpending : a.pendingEmission now = 0#128 :=
    a.pendingEmission_of_le now (h.trans (le_max_left _ _))
  rw [settle, hpending, Word.satAdd_zero, if_neg (not_lt.mpr h)]

end Account

namespace Stream

-- A stream that has paid out what has accrued, and is not to be marked as completed.
def Drained (s : Stream) (now : U64) : Prop :=
  s.accrued now ≤ s.drawn ∧ ¬ (s.deposit ≤ s.drawn ∧ s.status = .Active)

theorem owed_of_le {s : Stream} {now : U64} (h : s.accrued now ≤ s.drawn) :
    s.owed now = 0#128 :=
  (Word.satSub_eq_zero_iff _ _).mpr h

theorem drawTo_eq_iff {s : Stream} {now : U64} : s.drawTo now = s ↔ s.Drained now := by
  constructor
  · intro h
    have hle : s.accrued now ≤ s.drawn := by
      have haccrued := accrued_le_drawTo_drawn s now
      rwa [h] at haccrued
    refine ⟨hle, fun hfull => ?_⟩
    have hstatus := drawTo_status s now
    rw [h, owed_of_le hle, Word.satAdd_zero, if_pos hfull] at hstatus
    rw [hfull.2] at hstatus
    cases hstatus
  · rintro ⟨hle, hnot⟩
    rw [drawTo, owed_of_le hle, Word.satAdd_zero]
    exact if_neg hnot

end Stream

namespace Ledger

variable {l l' : Ledger} {a b : Address} {now : U64}

-- The emission clock of an account that exists has reached the present.
def Clocked (l : Ledger) (a : Address) (now : U64) : Prop :=
  ∃ x, l.get a = some x ∧ now ≤ x.lastSettledAt

-- Every incoming stream of an account has paid out, to a recipient that is settled.
def Folded (l : Ledger) (a : Address) (now : U64) : Prop :=
  ∀ id ∈ l.incoming a, ∀ s, l.getStream id = some s → s.Drained now ∧ l.Clocked s.to_ now

theorem put_of_get {x : Account} (h : l.get x.address = some x) : l.put x = l := by
  rw [put, Table.put_of_get h]

theorem putStream_of_get {s : Stream} (h : l.getStream s.id = some s) : l.putStream s = l := by
  rw [putStream_of_some l h, Table.put_of_get h]

theorem account_of_get {x : Account} (h : l.get a = some x) : l.account a = x := by
  rw [account, h]
  rfl

-- Settling such a stream changes nothing.
theorem settleStream_drained {id : StreamId} {s : Stream} (hs : l.getStream id = some s)
    (hdrained : s.Drained now) (hclocked : l.Clocked s.to_ now) :
    (l.settleStream id now).2 = l := by
  obtain ⟨x, hx, hclock⟩ := hclocked
  have haddress : x.address = s.to_ := Table.key_of_get hx
  have hput : l.put x = l := put_of_get (by rw [haddress]; exact hx)
  rw [settleStream_of_some l hs, account_of_get hx, x.settle_of_le hclock,
    Stream.owed_of_le hdrained.1, Account.credit_zero, Stream.drawTo_eq_iff.mpr hdrained, hput]
  exact putStream_of_get (by rw [getStream_id l hs]; exact hs)

theorem Clocked.settleStream (h : l.Clocked a now) (id : StreamId) :
    (l.settleStream id now).2.Clocked a now := by
  cases hs : l.getStream id with
  | none =>
    rw [settleStream_of_none l hs]
    exact h
  | some s =>
    rw [settleStream_of_some l hs]
    simp only [Clocked, get, putStream_accounts, put, Table.get_put]
    split_ifs with ha
    · refine ⟨_, rfl, ?_⟩
      exact (Account.settle_lastSettledAt _ now).symm ▸ le_max_right _ _
    · exact h

theorem clocked_settleStream {id : StreamId} {s : Stream} (hs : l.getStream id = some s) :
    (l.settleStream id now).2.Clocked s.to_ now := by
  rw [settleStream_of_some l hs]
  simp only [Clocked, get, putStream_accounts, put, Table.get_put]
  rw [if_pos (by simp)]
  exact ⟨_, rfl, (Account.settle_lastSettledAt _ now).symm ▸ le_max_right _ _⟩

theorem getStream_settleAll {ids : List StreamId} {id : StreamId} (h : id ∉ ids) :
    (l.settleAll ids now).getStream id = l.getStream id := by
  induction ids generalizing l with
  | nil => rfl
  | cons id' ids ih =>
    rw [List.mem_cons, not_or] at h
    rw [settleAll, List.foldl_cons, ← settleAll, ih h.2, getStream_settleStream_ne (Ne.symm h.1)]

-- What the settlements of a list of streams leave of a stream in it.
theorem settleAll_mem {ids : List StreamId} (hnodup : ids.Nodup) {id : StreamId}
    (hmem : id ∈ ids) {s : Stream} (hs : l.getStream id = some s) :
    (l.settleAll ids now).getStream id = some (s.drawTo now) ∧
      (l.settleAll ids now).Clocked s.to_ now := by
  induction ids generalizing l with
  | nil => exact absurd hmem List.not_mem_nil
  | cons id' ids ih =>
    obtain ⟨hnot, hrest⟩ := List.nodup_cons.mp hnodup
    rw [settleAll, List.foldl_cons, ← settleAll]
    rcases List.mem_cons.mp hmem with rfl | hlater
    · have hid : s.id = id := getStream_id l hs
      refine ⟨?_, ?_⟩
      · rw [getStream_settleAll hnot, ← hid]
        exact getStream_settleStream l (by rw [hid]; exact hs)
      · exact Run.foldl_invariant (P := fun l : Ledger => l.Clocked s.to_ now)
          (fun _ id' h => h.settleStream id') ids (clocked_settleStream hs)
    · have hne : id' ≠ id := fun heq => hnot (heq ▸ hlater)
      exact ih hrest hlater (by rw [getStream_settleStream_ne hne]; exact hs)

-- Folding in what has all been folded in already is the only case that changes nothing.
theorem settleIncoming_eq_iff : l.settleIncoming a now = l ↔ l.Folded a now := by
  rw [settleIncoming, ← settleAll]
  constructor
  · intro h id hid s hs
    obtain ⟨hstream, hclocked⟩ := @settleAll_mem l now _ (l.nodup_incoming a) id hid s hs
    rw [h] at hstream hclocked
    rw [hs, Option.some.injEq] at hstream
    exact ⟨Stream.drawTo_eq_iff.mp hstream.symm, hclocked⟩
  · rw [Folded]
    generalize l.incoming a = ids
    intro h
    induction ids with
    | nil => rfl
    | cons id ids ih =>
      have hhead : (l.settleStream id now).2 = l := by
        cases hs : l.getStream id with
        | none => rw [settleStream_of_none l hs]
        | some s =>
          obtain ⟨hdrained, hclocked⟩ := h id (by simp) s hs
          exact settleStream_drained hs hdrained hclocked
      rw [settleAll, List.foldl_cons, hhead]
      exact ih fun id' hid' => h id' (by simp [hid'])

-- Whether a transfer is refused, and why.
theorem fst_applyTransfer (l : Ledger) (a b : Address) (value : U128) (nonce now : U64) :
    (l.applyTransfer a b value nonce now).1 =
      if nonce ≠ (l.account a).nonce then .error (.BadNonce (l.account a).nonce nonce)
      else if l.spendable a now < value.toNat then
        .error (.InsufficientBalance (BitVec.ofNat 128 (l.spendable a now)) value)
      else .ok () := by
  have hnonce : ((l.settleIncoming a now).account a).nonce = (l.account a).nonce :=
    nonce_of_moves (moves_settleIncoming (w := signer b) l a) (fun h => h)
  have hfunds := l.toNat_settled_settleIncoming a now
  simp only [applyTransfer]
  generalize l.settleIncoming a now = l₁ at hnonce hfunds
  have hlt : ((l₁.account a).settle now).settledBalance < value ↔
      l.spendable a now < value.toNat := by
    rw [BitVec.lt_def, hfunds]
  have hword : BitVec.ofNat 128 (l.spendable a now) =
      ((l₁.account a).settle now).settledBalance := by
    rw [← hfunds, BitVec.ofNat_toNat, BitVec.setWidth_eq]
  simp only [← hlt, hword, Account.settle_nonce, hnonce]
  split_ifs <;> rfl

theorem fst_chargeFee (l : Ledger) (a : Address) (gas now : U64) :
    (l.chargeFee a gas now).1 =
      if l.spendable a now < (feeForGas gas).toNat then
        .error (.InsufficientForFee (BitVec.ofNat 128 (l.spendable a now)) (feeForGas gas))
      else .ok (feeForGas gas) := by
  have hfunds := l.toNat_settled_settleIncoming a now
  simp only [chargeFee]
  generalize l.settleIncoming a now = l₁ at hfunds
  have hlt : ((l₁.account a).settle now).settledBalance < feeForGas gas ↔
      l.spendable a now < (feeForGas gas).toNat := by
    rw [BitVec.lt_def, hfunds]
  have hword : BitVec.ofNat 128 (l.spendable a now) =
      ((l₁.account a).settle now).settledBalance := by
    rw [← hfunds, BitVec.ofNat_toNat, BitVec.setWidth_eq]
  simp only [← hlt, hword]
  split_ifs with hfee hzero
  · rfl
  · exact congrArg Except.ok hzero.symm
  · rfl

-- A failed charge has only settled the payer's incoming streams.
theorem chargeFee_error {gas : U64} {e : FeeError}
    (h : l.chargeFee a gas now = (.error e, l')) : l' = l.settleIncoming a now := by
  simp only [chargeFee] at h
  split_ifs at h <;> simp_all

-- A transfer or a fee that fails leaves the state as it was exactly where it does not fail,
-- or where every incoming stream of the payer was folded in before.
theorem failure_atomic_iff (l : Ledger) (from_ to_ : Address) (value : U128)
    (nonce gas now : U64) :
    ((∀ e l', l.applyTransfer from_ to_ value nonce now = (.error e, l') → l' = l) ↔
      (nonce = (l.account from_).nonce ∧ value.toNat ≤ l.spendable from_ now) ∨
        l.Folded from_ now) ∧
    ((∀ e l', l.chargeFee from_ gas now = (.error e, l') → l' = l) ↔
      (feeForGas gas).toNat ≤ l.spendable from_ now ∨ l.Folded from_ now) := by
  have hfolded : l.settleIncoming from_ now = l ↔ l.Folded from_ now := settleIncoming_eq_iff
  refine ⟨?_, ?_⟩
  · have hfst := l.fst_applyTransfer from_ to_ value nonce now
    constructor
    · intro h
      by_cases hpays : nonce = (l.account from_).nonce ∧ value.toNat ≤ l.spendable from_ now
      · exact Or.inl hpays
      cases hrun : l.applyTransfer from_ to_ value nonce now with
      | mk r l' =>
        obtain ⟨e, rfl⟩ : ∃ e, r = .error e := by
          rw [hrun] at hfst
          split_ifs at hfst with hnonce hfunds
          · exact ⟨_, hfst⟩
          · exact ⟨_, hfst⟩
          · exact absurd ⟨not_not.mp hnonce, not_lt.mp hfunds⟩ hpays
        exact Or.inr (hfolded.mp ((applyTransfer_error l hrun).symm.trans (h e l' hrun)))
    · rintro (⟨hnonce, hfunds⟩ | hall) e l' hrun
      · rw [if_neg (not_not.mpr hnonce), if_neg (not_lt.mpr hfunds), hrun] at hfst
        cases hfst
      · rw [applyTransfer_error l hrun]
        exact hfolded.mpr hall
  · have hfst := l.fst_chargeFee from_ gas now
    constructor
    · intro h
      by_cases hpays : (feeForGas gas).toNat ≤ l.spendable from_ now
      · exact Or.inl hpays
      cases hrun : l.chargeFee from_ gas now with
      | mk r l' =>
        rw [hrun, if_pos (not_le.mp hpays)] at hfst
        subst hfst
        exact Or.inr (hfolded.mp ((chargeFee_error hrun).symm.trans (h _ l' hrun)))
    · rintro (hfunds | hall) e l' hrun
      · rw [if_neg (not_lt.mpr hfunds), hrun] at hfst
        cases hfst
      · rw [chargeFee_error hrun]
        exact hfolded.mpr hall

-- An account that one base unit a second has been streamed to for five seconds.
def streamedTo : Ledger :=
  (Ledger.openStream (({} : Ledger).put { address := 1#160, settledBalance := 10#128 })
    1#160 2#160 1#128 10#128 0#64).2

-- Neither a transfer nor a fee that it cannot afford leaves its stream as it was.
theorem failure_leaves_trace :
    ((streamedTo.applyTransfer 2#160 3#160 6#128 0#64 5#64).1 =
        .error (.InsufficientBalance 5#128 6#128) ∧
      (streamedTo.applyTransfer 2#160 3#160 6#128 0#64 5#64).2 ≠ streamedTo) ∧
    (streamedTo.chargeFee 2#160 1#64 5#64).1 =
        .error (.InsufficientForFee 5#128 1000000000#128) ∧
      (streamedTo.chargeFee 2#160 1#64 5#64).2 ≠ streamedTo := by
  decide +kernel

end Ledger

end Ubi2.Runtime
