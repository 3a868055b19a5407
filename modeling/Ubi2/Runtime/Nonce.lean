import Ubi2.Runtime.Contracts.Frame

namespace Ubi2.Runtime

open Lib

namespace Ledger

variable {now : U64} {w : Authority} {l l' : Ledger} {a : Address}

theorem nonce_of_move (h : Move now w l l') (ha : ¬ w.renonces a) :
    (l'.account a).nonce = (l.account a).nonce := by
  cases h with
  | settle b =>
    rw [account_put]
    split_ifs with hb
    · rw [← hb, Account.settle_address, account_address, Account.settle_nonce]
    · rfl
  | pay b c v hb hne hv =>
    rw [account_put, account_put]
    split_ifs with hc hb
    · rw [← hc, Account.credit_address, account_address]
      rfl
    · rw [← hb, Account.debit_address, account_address]
      rfl
    · rfl
  | mint v hb =>
    rw [account_put]
    split_ifs with hb
    · rw [← hb, Account.credit_address, account_address]
      rfl
    · rfl
  | renonce b n hb =>
    have hne : b ≠ a := fun hba => ha (hba ▸ hb)
    rw [account_put_ne _ (by simpa using hne)]
  | lock b c rate deposit hb hne hv =>
    rw [account_putStream, account_put]
    split_ifs with hb
    · rw [← hb, Account.debit_address, account_address]
      rfl
    · rfl
  | draw s hs =>
    rw [account_putStream, account_put]
    split_ifs with hb
    · rw [← hb, Account.credit_address, account_address]
      rfl
    · rfl
  | close s hs hb hdone hopen =>
    rw [account_putStream, account_put]
    split_ifs with hb
    · rw [← hb, Account.credit_address, account_address]
      rfl
    · rfl
  | gate b v t hb =>
    rw [account_put]
    split_ifs with hb
    · rw [← hb, account_address]
    · rfl

theorem nonce_of_moves (h : Moves now w l l') (ha : ¬ w.renonces a) :
    (l'.account a).nonce = (l.account a).nonce :=
  Run.invariant (P := fun l' => (l'.account a).nonce = (l.account a).nonce)
    (fun _ _ hmove hl => (nonce_of_move hmove ha).trans hl) h rfl

-- A transfer that succeeds carried the sender's nonce, and steps it by one.
theorem nonce_applyTransfer {b : Address} {v : U128} {nonce : U64}
    (h : l.applyTransfer a b v nonce now = (.ok (), l')) :
    nonce = (l.account a).nonce ∧
      ∀ c, (l'.account c).nonce =
        if c = a then (l.account c).nonce + 1#64 else (l.account c).nonce := by
  obtain ⟨l₁, hmoves, hnonce, rfl⟩ := applyTransfer_ok (w := signer a) l rfl h
  have hsame : ∀ c, (l₁.account c).nonce = (l.account c).nonce :=
    fun c => nonce_of_moves hmoves (by simp [signer])
  refine ⟨hnonce.trans (hsame a), ?_⟩
  intro c
  rw [account_put]
  by_cases hc : c = a
  · subst hc
    simp [hnonce, hsame]
  · have hne : ¬ a = c := fun h => hc h.symm
    simp [hc, hne, hsame]

theorem nonce_chargeFee (gas : U64) (b : Address) :
    ((l.chargeFee a gas now).2.account b).nonce = (l.account b).nonce :=
  nonce_of_moves (moves_chargeFee (w := signer a) l gas fun _ => rfl) (by simp [signer])

theorem nonce_openStream {b : Address} (rate deposit : U128) (c : Address) :
    ((l.openStream a b rate deposit now).2.account c).nonce = (l.account c).nonce :=
  nonce_of_moves (moves_openStream (w := signer a) l rate deposit rfl) (by simp [signer])

theorem nonce_stopStream {id : StreamId} {r : Except StreamError U128}
    (h : l.stopStream id a now = some (r, l')) (c : Address) :
    (l'.account c).nonce = (l.account c).nonce :=
  nonce_of_moves (moves_stopStream (w := signer a) l rfl h) (by simp [signer])

end Ledger

-- The operations of an effect that pay from the escrow account, and so step its nonce.
def Op.isTransfer : Op → Bool
  | .Transfer .. | .Refund .. => true
  | _ => false

def transferCount (ops : List Op) : Nat := ops.countP Op.isTransfer

namespace MemState

open Ledger

variable {now : U64} {escrow : Address} {r r' : EffectRun}

theorem nonce_applyOp {op : Op} (h : applyOp escrow now r op = some r') (a : Address) :
    (r'.ledger.account a).nonce =
      if a = escrow ∧ op.isTransfer then (r.ledger.account a).nonce + 1#64
      else (r.ledger.account a).nonce := by
  obtain ⟨to_, amount, l, hop, hl, rfl⟩ | ⟨to_, rate, deposit, id, l, rfl, hl, rfl⟩ |
    ⟨id, refund, l, rfl, hl, rfl⟩ | ⟨key, value, rfl, rfl⟩ := applyOp_cases h
  · have htransfer : op.isTransfer = true := by
      rcases hop with rfl | rfl <;> rfl
    simp only [htransfer, and_true]
    exact (nonce_applyTransfer hl).2 a
  · have hopen : ((r.ledger.openStream escrow to_ rate deposit now).2.account a).nonce =
        (r.ledger.account a).nonce := nonce_openStream rate deposit a
    rw [hl] at hopen
    simpa [Op.isTransfer] using hopen
  · simpa [Op.isTransfer] using nonce_stopStream hl a
  · simp [Op.isTransfer]

-- Applying the operations of an effect steps the escrow's nonce once for each payment.
theorem nonce_applyOps {ops : List Op} (h : applyOps escrow now r ops = some r') (a : Address) :
    (r'.ledger.account a).nonce =
      if a = escrow then (r.ledger.account a).nonce + BitVec.ofNat 64 (transferCount ops)
      else (r.ledger.account a).nonce := by
  induction ops generalizing r with
  | nil =>
    cases h
    simp [transferCount]
  | cons op ops ih =>
    rw [applyOps] at h
    cases hop : applyOp escrow now r op with
    | none => simp [hop] at h
    | some r₁ =>
      rw [hop] at h
      rw [ih h, nonce_applyOp hop a]
      by_cases ha : a = escrow
      · by_cases ht : op.isTransfer
        · simp only [ha, ht, and_self, if_true, transferCount, List.countP_cons_of_pos]
          rw [BitVec.add_assoc]
          congr 1
          apply BitVec.eq_of_toNat_eq
          simp only [BitVec.toNat_add, BitVec.toNat_ofNat]
          omega
        · simp [ha, ht, transferCount]
      · simp [ha]

theorem nonce_applyEffect (s : MemState) {id : ContractId} {effect : CanonicalEffect}
    {s' : MemState} (h : s.applyEffect id effect now = some (.ok (), s')) (a : Address) :
    (s'.account a).nonce =
      if a = contractAddress id then
        (s.account a).nonce + BitVec.ofNat 64 (transferCount effect.ops)
      else (s.account a).nonce := by
  obtain ⟨e, he, -⟩ | ⟨contract, r, draw, -, -, -, -, hr, rfl⟩ := applyEffect_cases s h
  · cases he
  · have hstart : (s.effectStart contract (contractAddress id) now).ledger.account a =
        if contractAddress id = a then (s.account (contractAddress id)).settle now
        else s.account a := by
      simp only [effectStart, account_put, Account.settle_address]
      simp only [MemState.account, account_address]
    have hnonce := nonce_applyOps hr a
    rw [hstart] at hnonce
    have hsame : (if contractAddress id = a then (s.account (contractAddress id)).settle now
        else s.account a).nonce = (s.account a).nonce := by
      split_ifs with ha
      · rw [← ha, Account.settle_nonce]
      · rfl
    rw [hsame] at hnonce
    exact hnonce

end MemState

end Ubi2.Runtime
