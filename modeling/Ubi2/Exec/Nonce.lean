import Ubi2.Exec.Moves
import Ubi2.Runtime.Nonce

namespace Ubi2.Exec

open Ubi2.Runtime Ubi2.Runtime.Ledger Ubi2.Runtime.MemState Ubi2.Lib

-- The nonce of an account, as the kernel reads it.
def nonceOf (s : MemState) (a : Address) : U64 := (s.account a).nonce

-- A committed effect of the transaction's operation, if its nonce is accepted: the tally
-- of a case that the submission joins, or the answer of the interpreter to an invocation.
def Commits (host : Host) (ctx : BlockCtx) (tx : KernelTx) (s : MemState)
    (id : ContractId) (effect : CanonicalEffect) : Prop :=
  match tx.kind with
  | .SubmitEffect caseId submitted =>
    ∃ c, s.getExecCase caseId = some c ∧ id = c.contract ∧
      tallyEffects (c.effects ++ [(tx.from_, submitted)]) c.jury.length QUORUM =
        some (.Committed effect)
  | .InvokeContract contractId triggerRef =>
    ∃ contract, s.getContract contractId = some contract ∧ id = contractId ∧
      effect = host.interpreter.interpret (strBytes contract.text)
        (s.stateView contract ctx.timestamp) (deriveTrigger host triggerRef)
  | _ => False

-- Which effects are committed only depends on the contract registry and on the streams
-- that the escrow accounts have opened.
theorem Commits.congr {host : Host} {ctx : BlockCtx} {tx : KernelTx} {s s' : MemState}
    {id : ContractId} {effect : CanonicalEffect} (h : Commits host ctx tx s' id effect)
    (hp : s'.prompt = s.prompt) (ho : s'.ledger.outgoingIdx = s.ledger.outgoingIdx) :
    Commits host ctx tx s id effect := by
  unfold Commits at h ⊢
  cases hk : tx.kind with
  | SubmitEffect caseId submitted =>
    simp only [hk, getExecCase, hp] at h ⊢
    exact h
  | InvokeContract contractId triggerRef =>
    simp only [hk, getContract, stateView, outgoing, hp, ho] at h ⊢
    exact h
  | _ => simp [hk] at h

section Nonces

variable {host : Host} {ctx : BlockCtx} {tx : KernelTx} {s s' : MemState}
variable {r : Except String OpResult}

-- The interpreters of one invocation all give the same answer.
theorem tally_const {jury : List Address} {e effect : CanonicalEffect} {size quorum : Nat}
    (h : tallyEffects (jury.map (fun a => (a, e))) size quorum = some (.Committed effect)) :
    effect = e := by
  unfold tallyEffects at h
  dsimp only at h
  split at h
  · cases h
  · cases h
  · split at h
    · cases h
    · rename_i p hfind
      have hmem := List.mem_of_find?_eq_some hfind
      obtain ⟨a, -, rfl⟩ := List.mem_map.mp hmem
      cases h
      rfl

theorem some_of_map {ε α : Type} {display : ε → String} {result : α → OpResult}
    {o : Option (Except ε α × MemState)}
    (h : o.map (render display result) = some (r, s')) :
    ∃ res s₁, o = some (res, s₁) ∧ s' = s₁ := by
  cases o with
  | none => cases h
  | some p =>
    refine ⟨p.1, p.2, rfl, ?_⟩
    rw [← render_snd display result p, Option.some.inj h]

private theorem nonce_resolveCase {c c' : ExecCase} {s s₁ : MemState} {block now : U64}
    (h : s.resolveCase c block now = some (c', s₁)) :
    s₁ = s ∨ ∃ effect, tallyEffects c.effects c.jury.length QUORUM = some (.Committed effect) ∧
      ∀ a, nonceOf s₁ a = if a = contractAddress c.contract then
        nonceOf s a + BitVec.ofNat 64 (transferCount effect.ops) else nonceOf s a := by
  obtain rfl | ⟨effect, ht, ha⟩ := resolveCase_cases s h
  · exact Or.inl rfl
  · exact Or.inr ⟨effect, ht, fun a => nonce_applyEffect s ha a⟩

-- An operation leaves every nonce alone, except that a committed effect steps the nonce
-- of its escrow account once for each payment.
theorem nonce_hubOp (h : hubOp host ctx tx s = some (r, s')) :
    (∀ a, nonceOf s' a = nonceOf s a) ∨
    ∃ id effect, Commits host ctx tx s id effect ∧
      ∀ a, nonceOf s' a = if a = contractAddress id then
        nonceOf s a + BitVec.ofNat 64 (transferCount effect.ops) else nonceOf s a := by
  by_cases hplain : ∃ id, Escrows tx s id
  · cases hk : tx.kind with
    | SubmitEffect caseId submitted =>
      simp only [hubOp, hk] at h
      obtain ⟨res, s₁, hres, rfl⟩ := some_of_map h
      obtain ⟨e, -, rfl⟩ | ⟨c, c', s₂, hc, -, -, -, hr, -, rfl⟩ := submitEffect_cases s hres
      · exact Or.inl fun _ => rfl
      · obtain rfl | ⟨effect, ht, hn⟩ := nonce_resolveCase hr
        · exact Or.inl fun _ => rfl
        · refine Or.inr ⟨c.contract, effect, ?_, hn⟩
          simp only [Commits, hk]
          exact ⟨c, hc, rfl, ht⟩
    | InvokeContract id triggerRef =>
      simp only [hubOp, hk] at h
      obtain ⟨res, s₁, hres, rfl⟩ := some_of_map h
      obtain ⟨e, -, rfl⟩ | ⟨contract, c, c', s₂, hc, -, rfl, hr, -, rfl⟩ :=
        invokeContract_cases s hres
      · exact Or.inl fun _ => rfl
      · obtain rfl | ⟨effect, ht, hn⟩ := nonce_resolveCase hr
        · exact Or.inl fun _ => rfl
        · refine Or.inr ⟨id, effect, ?_, hn⟩
          simp only [Commits, hk]
          exact ⟨contract, hc, trivial, tally_const ht⟩
    | _ => simp [Escrows, hk] at hplain
  · refine Or.inl fun a => ?_
    have hallows : Allows { signer tx.from_ with gates := fun _ _ _ => True } ctx tx s :=
      { sender := rfl
        escrowSpends := fun id hid => absurd ⟨id, hid⟩ hplain
        escrowRenonces := fun id hid => absurd ⟨id, hid⟩ hplain
        revoke := fun _ => trivial
        verify := fun _ => trivial
        restore := fun _ _ _ _ => trivial }
    exact nonce_of_moves (moves_hubOp hallows.needs h) (by simp [signer])

-- The fee of a transaction is charged, so that the transaction takes effect.
def Charged (ctx : BlockCtx) (tx : KernelTx) (s : MemState) : Prop :=
  ∃ fee, (s.ledger.chargeFee tx.from_ tx.kind.gas ctx.timestamp).1 = .ok fee

-- A charged transaction carries no nonce of the past, and no nonce that it steps is at
-- the end of its range: neither its own nor that of an escrow account it pays from.
structure NonceSafe (host : Host) (ctx : BlockCtx) (tx : KernelTx) (s : MemState) : Prop where
  current : Charged ctx tx s → nonceOf s tx.from_ ≤ tx.nonce
  room : Charged ctx tx s → tx.nonce.toNat + 1 < 2 ^ 64
  escrowRoom : Charged ctx tx s → tx.nonce = nonceOf s tx.from_ →
    ∀ id effect, Commits host ctx tx s id effect →
      (nonceOf s (contractAddress id)).toNat +
        (if contractAddress id = tx.from_ then 1 else 0) + transferCount effect.ops < 2 ^ 64

private theorem le_succ {x : U64} (h : x.toNat + 1 < 2 ^ 64) : x ≤ x + 1#64 := by
  rw [BitVec.le_def, Word.toNat_succ_of_ne_max h]
  omega

private theorem lt_succ {x : U64} (h : x.toNat + 1 < 2 ^ 64) : x < x + 1#64 := by
  rw [BitVec.lt_def, Word.toNat_succ_of_ne_max h]
  omega

private theorem toNat_add_ofNat {x : U64} {n : Nat} (h : x.toNat + n < 2 ^ 64) :
    (x + BitVec.ofNat 64 n).toNat = x.toNat + n := by
  rw [BitVec.toNat_add, BitVec.toNat_ofNat]
  omega

private theorem nonceOf_put (s : MemState) (x : Account) (a : Address) :
    nonceOf (s.put x) a = if x.address = a then x.nonce else nonceOf s a := by
  have h := account_put s.ledger x a
  simp only [nonceOf, MemState.account, MemState.put, h]
  split_ifs <;> rfl

theorem nonceOf_consume {s s' : MemState} {a : Address} {nonce now : U64}
    (h : consumeNonce s a nonce now = (.ok (), s')) :
    nonce = nonceOf s a ∧
      ∀ b, nonceOf s' b = if b = a then nonce + 1#64 else nonceOf s b := by
  obtain ⟨hnonce, rfl⟩ := consumeNonce_ok h
  refine ⟨hnonce, fun b => ?_⟩
  rw [nonceOf_put]
  simp only [Account.settle_address, MemState.account, account_address]
  by_cases hb : b = a
  · simp [hb]
  · have hab : ¬ a = b := fun h => hb h.symm
    simp [hb, hab]

-- Once its nonce is consumed, an operation lowers no nonce.
private theorem nonce_hub_le {s₁ : MemState} (hroom : tx.nonce.toNat + 1 < 2 ^ 64)
    (hescrow : ∀ id effect, Commits host ctx tx s id effect →
      (nonceOf s (contractAddress id)).toNat +
        (if contractAddress id = tx.from_ then 1 else 0) + transferCount effect.ops < 2 ^ 64)
    (hconsume : consumeNonce s tx.from_ tx.nonce ctx.timestamp = (.ok (), s₁))
    (hop : hubOp host ctx tx s₁ = some (r, s')) (a : Address) :
    nonceOf s₁ a ≤ nonceOf s' a := by
  obtain hsame | ⟨id, effect, hcommits, hsteps⟩ := nonce_hubOp hop
  · rw [hsame a]
  · rw [hsteps a]
    split_ifs with ha
    · obtain ⟨hnonce, hafter⟩ := nonceOf_consume hconsume
      obtain ⟨-, hs₁⟩ := consumeNonce_ok hconsume
      have hbound := hescrow id effect
        (hcommits.congr (by rw [hs₁]; rfl) (by rw [hs₁]; rfl))
      have hnonce₁ : (nonceOf s₁ a).toNat + transferCount effect.ops < 2 ^ 64 := by
        rw [hafter a]
        rw [← ha] at hbound
        by_cases hfrom : a = tx.from_
        · rw [if_pos hfrom, Word.toNat_succ_of_ne_max hroom]
          rw [if_pos hfrom, hfrom, ← hnonce] at hbound
          omega
        · rw [if_neg hfrom]
          rw [if_neg hfrom] at hbound
          omega
      rw [BitVec.le_def, toNat_add_ofNat hnonce₁]
      omega
    · exact le_refl _

-- The ledger of a transfer: other nonces are as they were, and the sender's is stepped
-- when the transfer succeeds.
private theorem nonce_transfer {l l' : Ledger} {a b : Address} {v : U128} {nonce now : U64}
    {res : Except TransferError Unit} (h : l.applyTransfer a b v nonce now = (res, l')) :
    (∀ c, c ≠ a → (l'.account c).nonce = (l.account c).nonce) ∧
      (res = .ok () → nonce = (l.account a).nonce ∧ (l'.account a).nonce = nonce + 1#64) := by
  cases res with
  | error e =>
    rw [applyTransfer_error l h]
    refine ⟨fun c _ => ?_, fun h => by cases h⟩
    exact nonce_of_moves (moves_settleIncoming (w := signer a) l a) (by simp [signer])
  | ok u =>
    obtain ⟨hnonce, hafter⟩ := nonce_applyTransfer h
    refine ⟨fun c hc => by rw [hafter c, if_neg hc], fun _ => ⟨hnonce, ?_⟩⟩
    rw [hafter a, if_pos rfl, hnonce]

-- An operation lowers no nonce but perhaps its sender's, and when it succeeds it leaves
-- the sender's past the transaction's.
theorem nonce_applyOne (hroom : tx.nonce.toNat + 1 < 2 ^ 64)
    (hescrow : tx.nonce = nonceOf s tx.from_ → ∀ id effect, Commits host ctx tx s id effect →
      (nonceOf s (contractAddress id)).toNat +
        (if contractAddress id = tx.from_ then 1 else 0) + transferCount effect.ops < 2 ^ 64)
    (h : applyOne host ctx tx s = some (r, s')) :
    (∀ a, a ≠ tx.from_ → nonceOf s a ≤ nonceOf s' a) ∧
      (∀ result, r = .ok result → tx.nonce < nonceOf s' tx.from_) := by
  have htransfer : ∀ {to_ : Address} {v : U128} {l : Ledger} {res : Except TransferError Unit},
      s.ledger.applyTransfer tx.from_ to_ v tx.nonce ctx.timestamp = (res, l) →
      (∀ a, a ≠ tx.from_ → nonceOf s a ≤ (l.account a).nonce) ∧
        (res = .ok () → tx.nonce < (l.account tx.from_).nonce) := by
    intro to_ v l res hl
    obtain ⟨hothers, hsender⟩ := nonce_transfer hl
    refine ⟨fun a ha => (hothers a ha).ge, fun hok => ?_⟩
    rw [(hsender hok).2]
    exact lt_succ hroom
  unfold applyOne at h
  split at h
  · rename_i to_ value hk
    generalize hl : s.ledger.applyTransfer tx.from_ to_ value tx.nonce ctx.timestamp = p at h
    obtain ⟨res, l⟩ := p
    obtain ⟨hothers, hsender⟩ := htransfer hl
    cases res with
    | error e =>
      cases h
      exact ⟨hothers, fun _ hr => by cases hr⟩
    | ok u =>
      cases h
      exact ⟨hothers, fun _ _ => hsender rfl⟩
  · rename_i id hk
    unfold fundContract at h
    cases hc : s.getContract id with
    | none =>
      rw [hc] at h
      cases h
      exact ⟨fun a _ => le_refl _, fun _ hr => by cases hr⟩
    | some contract =>
      rw [hc] at h
      dsimp only at h
      split_ifs at h with hterm
      · cases h
        exact ⟨fun a _ => le_refl _, fun _ hr => by cases hr⟩
      · generalize hl : s.ledger.applyTransfer tx.from_ (contractAddress id) tx.value tx.nonce
            ctx.timestamp = p at h
        obtain ⟨res, l⟩ := p
        obtain ⟨hothers, hsender⟩ := htransfer hl
        cases res with
        | error e =>
          cases h
          exact ⟨hothers, fun _ hr => by cases hr⟩
        | ok u =>
          cases h
          exact ⟨hothers, fun _ _ => hsender rfl⟩
  · generalize hconsume : consumeNonce s tx.from_ tx.nonce ctx.timestamp = p at h
    obtain ⟨res, s₁⟩ := p
    cases res with
    | error e =>
      cases h
      rw [consumeNonce_error hconsume]
      exact ⟨fun a _ => le_refl _, fun _ hr => by cases hr⟩
    | ok u =>
      obtain ⟨hnonce, hafter⟩ := nonceOf_consume hconsume
      have hle := nonce_hub_le hroom (hescrow hnonce) hconsume h
      refine ⟨fun a ha => ?_, fun _ _ => ?_⟩
      · have hsame := hafter a
        rw [if_neg ha] at hsame
        rw [← hsame]
        exact hle a
      · have hsender := hle tx.from_
        rw [hafter, if_pos rfl] at hsender
        exact (lt_succ hroom).trans_le hsender

theorem nonceOf_failTx (ctx : BlockCtx) (tx : KernelTx) (s : MemState) (a : Address) :
    nonceOf (failTx ctx tx s) a =
      if a = tx.from_ then tx.nonce + 1#64 else nonceOf s a := by
  rw [failTx, nonceOf_put]
  simp only [Account.settle_address, MemState.account, account_address]
  by_cases ha : a = tx.from_
  · simp [ha]
  · have hne : ¬ tx.from_ = a := fun h => ha h.symm
    simp [ha, hne]

theorem nonceOf_of_chargeFee {l : Ledger} {res : Except FeeError U128} {gas : U64}
    {from_ : Address} (h : s.ledger.chargeFee from_ gas ctx.timestamp = (res, l))
    (a : Address) : nonceOf { s with ledger := l } a = nonceOf s a := by
  have hsame : ((s.ledger.chargeFee from_ gas ctx.timestamp).2.account a).nonce = _ :=
    nonce_chargeFee gas a
  rw [h] at hsame
  exact hsame

theorem outgoingIdx_of_chargeFee {l : Ledger} {res : Except FeeError U128} {gas : U64}
    {from_ : Address} (h : s.ledger.chargeFee from_ gas ctx.timestamp = (res, l)) :
    l.outgoingIdx = s.ledger.outgoingIdx := by
  have hsame := outgoingIdx_chargeFee s.ledger from_ gas ctx.timestamp
  rw [h] at hsame
  exact hsame

-- The step of one transaction: a transaction whose fee is not charged leaves every
-- nonce alone, and one whose fee is charged lowers none and leaves its sender's past
-- its own.
theorem nonce_applyTx {o : Option OpOutcome} (hsafe : NonceSafe host ctx tx s)
    (h : applyTx host ctx tx s = some (o, s')) :
    (∀ a, nonceOf s a ≤ nonceOf s' a) ∧
      (o.isSome → nonceOf s tx.from_ ≤ tx.nonce ∧ tx.nonce < nonceOf s' tx.from_) := by
  obtain ⟨e, l, hfee, rfl, rfl⟩ | ⟨fee, l, r, s₁, hfee, hone, -, rfl⟩ := applyTx_cases h
  · exact ⟨fun a => (nonceOf_of_chargeFee hfee a).ge, fun ho => by simp at ho⟩
  · have hcharge := nonceOf_of_chargeFee hfee
    have hcharged : Charged ctx tx s := ⟨fee, by rw [hfee]⟩
    have hcurrent := hsafe.current hcharged
    have hroom := hsafe.room hcharged
    have hescrow : tx.nonce = nonceOf { s with ledger := l } tx.from_ →
        ∀ id effect, Commits host ctx tx { s with ledger := l } id effect →
        (nonceOf { s with ledger := l } (contractAddress id)).toNat +
          (if contractAddress id = tx.from_ then 1 else 0) + transferCount effect.ops <
            2 ^ 64 := by
      intro hnonce id effect hcommits
      rw [hcharge] at hnonce ⊢
      exact hsafe.escrowRoom hcharged hnonce id effect
        (hcommits.congr rfl (outgoingIdx_of_chargeFee hfee))
    obtain ⟨hothers, hsender⟩ := nonce_applyOne hroom hescrow hone
    -- the sender's nonce ends past the transaction's on both paths
    cases r with
    | ok result =>
      have hlt := hsender result rfl
      refine ⟨fun a => ?_, fun _ => ⟨hcurrent, hlt⟩⟩
      by_cases ha : a = tx.from_
      · rw [ha]
        exact hcurrent.trans hlt.le
      · rw [← hcharge a]
        exact hothers a ha
    | error e =>
      have hlt : tx.nonce < nonceOf (failTx ctx tx s₁) tx.from_ := by
        rw [nonceOf_failTx, if_pos rfl]
        exact lt_succ hroom
      refine ⟨fun a => ?_, fun _ => ⟨hcurrent, hlt⟩⟩
      by_cases ha : a = tx.from_
      · rw [ha]
        exact hcurrent.trans hlt.le
      · rw [← hcharge a, nonceOf_failTx, if_neg ha]
        exact hothers a ha

end Nonces

end Ubi2.Exec
