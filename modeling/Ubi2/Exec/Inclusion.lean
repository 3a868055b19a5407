import Ubi2.Exec.Reachable
import Ubi2.Exec.Nonce
import Ubi2.Runtime.Solvency

namespace Ubi2.Exec

open Ubi2.Runtime Ubi2.Runtime.Ledger Ubi2.Runtime.MemState Ubi2.Lib

-- What the operation of a transaction takes from its sender, besides the fee.
def KernelTx.draw (tx : KernelTx) : U128 :=
  match tx.kind with
  | .Transfer _ value => value
  | .OpenStream _ _ deposit => deposit
  | .FundContract _ => tx.value
  | _ => 0#128

def KernelTx.cost (tx : KernelTx) : Nat := (feeForGas tx.kind.gas).toNat + tx.draw.toNat

def queueOf (txs : List KernelTx) (a : Address) : List KernelTx :=
  txs.filter fun tx => tx.from_ = a

def queueCost (txs : List KernelTx) : Nat := (txs.map KernelTx.cost).sum

-- The operations of a sender on its own streams.
def KernelKind.onStreams : KernelKind → Bool
  | .OpenStream .. | .StopStream _ => true
  | _ => false

-- The operation is not refused for its nonce or for the funds of its sender.
def Passes (ctx : BlockCtx) (tx : KernelTx) (s : MemState) : Prop :=
  match tx.kind with
  | .Transfer to_ value =>
    (s.ledger.applyTransfer tx.from_ to_ value tx.nonce ctx.timestamp).1 = .ok ()
  | .FundContract id =>
    ∀ e, (s.fundContract tx.from_ id tx.value tx.nonce ctx.timestamp).1 ≠ .error (.Transfer e)
  | .OpenStream to_ rate deposit =>
    (consumeNonce s tx.from_ tx.nonce ctx.timestamp).1 = .ok () ∧
      ∀ have_ need, ((consumeNonce s tx.from_ tx.nonce ctx.timestamp).2.ledger.openStream
        tx.from_ to_ rate deposit ctx.timestamp).1 ≠ .error (.InsufficientBalance have_ need)
  | _ => (consumeNonce s tx.from_ tx.nonce ctx.timestamp).1 = .ok ()

-- The fee is charged, and what it leaves is enough for the operation.
def Includable (ctx : BlockCtx) (tx : KernelTx) (s : MemState) : Prop :=
  Charged ctx tx s ∧
    Passes ctx tx
      { s with ledger := (s.ledger.chargeFee tx.from_ tx.kind.gas ctx.timestamp).2 }

-- The verdict rules on the gate of the account: it upholds a case against it, or gives
-- back a gate that is not the one the account has.
def Regates (tx : KernelTx) (s : MemState) (a : Address) : Prop :=
  match tx.kind with
  | .SubmitVerdict caseId v => ∃ c c', s.Votes caseId tx.from_ v c c' ∧ a = c'.subject ∧
      (c'.upholds ∨ s.accountGate a ≠ s.humanGate a)
  | _ => False

-- Every transaction of a queue is includable at its turn.
def AllIncludable (host : Host) (ctx : BlockCtx) : List KernelTx → MemState → Prop
  | [], _ => True
  | tx :: txs, s => Includable ctx tx s ∧
      ∀ o s', applyTx host ctx tx s = some (o, s') → AllIncludable host ctx txs s'

-- No verdict of a queue rules on the gate of another sender, unless the settled balance
-- of that sender is enough for what it has queued after it.
def Unruled (host : Host) (ctx : BlockCtx) : List KernelTx → MemState → Prop
  | [], _ => True
  | tx :: txs, s =>
      (∀ a, a ≠ tx.from_ → Regates tx s a →
        queueCost (queueOf txs a) ≤ (s.account a).settledBalance.toNat) ∧
      ∀ o s', applyTx host ctx tx s = some (o, s') → Unruled host ctx txs s'

-- The transactions of each sender carry its next nonces, and its own balance at the time
-- of the block covers them. No sender is an escrow account, which has no key.
structure Payable (ctx : BlockCtx) (txs : List KernelTx) (s : MemState) : Prop where
  inTurn : ∀ before tx after, txs = before ++ tx :: after →
    tx.nonce = nonceOf s tx.from_ + BitVec.ofNat 64 (queueOf before tx.from_).length
  covered : ∀ a, queueCost (queueOf txs a) ≤ ((s.account a).balance ctx.timestamp).toNat
  keyed : ∀ tx ∈ txs, ∀ id, contractAddress id ≠ tx.from_

-- Authority over every account but one, and over the gates.
def sparing (a : Address) : Authority :=
  { spends := fun b => b ≠ a, renonces := fun b => b ≠ a, gates := fun _ _ _ => True }

-- Authority over every account but one, which keeps its gate.
def keeping (a : Address) : Authority :=
  { sparing a with gates := fun x v t => x.address = a → x.verified = v ∧ x.verifiedAt = t }

section
variable {host : Host} {ctx : BlockCtx} {tx : KernelTx} {s s' : MemState} {a : Address}
variable {r : Except String OpResult} {o : Option OpOutcome} {n : Nat} {w : Authority}

theorem moves_renonce (l : Ledger) {now nonce : U64} (hn : w.renonces a) :
    Moves now w l (l.put { (l.account a).settle now with nonce := nonce }) := by
  have hsettle : Moves now w _ _ := Moves.single (Move.settle l a)
  have hrenonce : Moves now w _ _ := Moves.single (Move.renonce
    (l.put ((l.account a).settle now)) a nonce hn)
  rw [account_put_of_address l (by simp), put_put l (by simp)] at hrenonce
  exact hsettle.trans hrenonce

-- What a transaction does to the ledger, on the authority of its sender and on that which
-- its operation uses.
theorem moves_applyTx (hspends : feeForGas tx.kind.gas ≠ 0#128 → w.spends tx.from_)
    (hrenonces : w.renonces tx.from_)
    (hneeds : ∀ s₁, Prepares ctx tx s s₁ → Needs w ctx tx s₁)
    (h : applyTx host ctx tx s = some (o, s')) : Moves ctx.timestamp w s.ledger s'.ledger := by
  have hcharge : Moves ctx.timestamp w _ _ := moves_chargeFee s.ledger tx.kind.gas hspends
  obtain ⟨e, l, hfee, -, rfl⟩ | ⟨fee, l, r, s₁, hfee, hone, -, rfl⟩ := applyTx_cases h
  · rw [hfee] at hcharge
    exact hcharge
  · rw [hfee] at hcharge
    have hop : Moves ctx.timestamp w { s with ledger := l }.ledger s₁.ledger := by
      unfold applyOne at hone
      split at hone
      · rename_i to_ value hk
        have hfee : feeForGas tx.kind.gas ≠ 0#128 := by
          rw [hk]
          exact (by decide : feeForGas GAS_TRANSFER ≠ 0#128)
        generalize hl : l.applyTransfer tx.from_ to_ value tx.nonce ctx.timestamp = p at hone
        exact moves_of_render (p := (p.1, { s with ledger := p.2 }))
          (moves_applyTransfer (hspends hfee) hrenonces hl) hone
      · rename_i id hk
        have hfee : feeForGas tx.kind.gas ≠ 0#128 := by
          rw [hk]
          exact (by decide : feeForGas GAS_CONTRACT ≠ 0#128)
        exact moves_of_render (promptFrame_fundContract _ (hspends hfee) hrenonces).moves hone
      · generalize hconsume : consumeNonce { s with ledger := l } tx.from_ tx.nonce
            ctx.timestamp = p at hone
        obtain ⟨res, s₂⟩ := p
        cases res with
        | error e =>
          cases hone
          rw [consumeNonce_error hconsume]
          exact .refl
        | ok u =>
          have hhub := moves_hubOp (hneeds s₂ ⟨fee, l, hfee, hconsume⟩) hone
          rw [(consumeNonce_ok hconsume).2] at hhub
          exact (moves_renonce l hrenonces).trans hhub
    cases r with
    | ok result => exact hcharge.trans hop
    | error e => exact (hcharge.trans hop).trans (moves_renonce s₁.ledger hrenonces)

-- Taking the fee and the nonce touches no human record and no gate.
theorem frame_of_prepares {s₁ : MemState} (h : Prepares ctx tx s s₁) :
    s₁.humanity = s.humanity ∧ s₁.accountGate = s.accountGate := by
  obtain ⟨fee, l, hfee, hconsume⟩ := h
  have hcharge : Moves ctx.timestamp ungated _ _ :=
    moves_chargeFee s.ledger (a := tx.from_) tx.kind.gas fun _ => trivial
  rw [hfee] at hcharge
  have hrenonce : Moves ctx.timestamp ungated _ _ :=
    @moves_renonce tx.from_ _ l _ (tx.nonce + 1#64) trivial
  rw [(consumeNonce_ok hconsume).2]
  exact ⟨rfl, funext fun b => gate_of_moves (hcharge.trans hrenonce) ungated_gates b⟩

theorem Regates.congr (h : Regates tx s' a) (hhum : s'.humanity = s.humanity)
    (hgate : s'.accountGate = s.accountGate) : Regates tx s a := by
  unfold Regates at h ⊢
  cases hk : tx.kind with
  | SubmitVerdict caseId v =>
    simp only [hk, hgate, humanGate, getHuman, hhum] at h ⊢
    obtain ⟨c, c', hvotes, ha, hrules⟩ := h
    refine ⟨c, c', ⟨?_, hvotes.isOpen, hvotes.onJury, hvotes.first, hvotes.tallied⟩, ha, hrules⟩
    have hget := hvotes.get
    simp only [getCase, hhum] at hget ⊢
    exact hget
  | _ => simp [hk] at h

theorem needs_sparing (ha : tx.kind.onStreams → a ≠ tx.from_)
    (hescrow : ∀ id, contractAddress id ≠ a) : Needs (sparing a) ctx tx s := by
  unfold Needs
  split
  · rename_i hk
    exact (ha (by rw [hk]; rfl)).symm
  · rename_i hk
    exact (ha (by rw [hk]; rfl)).symm
  · exact fun _ _ _ => ⟨fun _ => trivial, fun _ _ _ => trivial⟩
  · trivial
  · exact fun id _ => ⟨hescrow id, hescrow id⟩
  · exact fun id _ => ⟨hescrow id, hescrow id⟩
  · trivial

-- A transaction that does not rule on the gate of another account leaves it as it is.
theorem needs_keeping (ha : a ≠ tx.from_) (hescrow : ∀ id, contractAddress id ≠ a)
    (hregates : ¬ Regates tx s a) : Needs (keeping a) ctx tx s := by
  have hkept : ∀ (b : Address) (v : Bool) (t : U64),
      (b = a → (s.account a).verified = v ∧ (s.account a).verifiedAt = t) →
      (keeping a).gates (s.account b) v t := by
    intro b v t hb haddress
    have haddress : b = a := by simpa [MemState.account] using haddress
    rw [haddress]
    exact hb haddress
  unfold Needs
  split
  · exact ha.symm
  · exact ha.symm
  · rename_i caseId v hk
    intro c c' hvotes
    refine ⟨fun hup => hkept _ _ _ fun hb => ?_, fun h hget hstatus => hkept _ _ _ fun hb => ?_⟩
    · refine absurd ?_ hregates
      simp only [Regates, hk]
      exact ⟨c, c', hvotes, hb.symm, Or.inl hup⟩
    · -- the gate that a cleared human gets back is the one the account has
      have hgate : s.accountGate a = s.humanGate a := by
        by_contra hne
        refine hregates ?_
        simp only [Regates, hk]
        exact ⟨c, c', hvotes, hb.symm, Or.inr hne⟩
      rw [hb] at hget
      have hhuman : s.humanGate a = some h.verifiedAt := by
        rw [humanGate, hget]
        simp [Human.gate, hstatus]
      rw [hhuman, accountGate, Account.gate] at hgate
      by_cases hv : (s.account a).verified = true
      · rw [if_pos hv] at hgate
        exact ⟨hv, Option.some.inj hgate⟩
      · rw [if_neg hv] at hgate
        cases hgate
  · exact hkept _ _ _ fun hb => absurd hb.symm ha
  · exact fun id _ => ⟨hescrow id, hescrow id⟩
  · exact fun id _ => ⟨hescrow id, hescrow id⟩
  · trivial

-- What the transaction of another account does to an account that is no escrow: it keeps
-- its nonce and its settled balance, and its balance when its gate is not ruled on.
theorem bystander_of_applyTx (ha : a ≠ tx.from_) (hescrow : ∀ id, contractAddress id ≠ a)
    (h : applyTx host ctx tx s = some (o, s')) :
    nonceOf s' a = nonceOf s a ∧ (s.account a).settledBalance ≤ (s'.account a).settledBalance ∧
      (¬ Regates tx s a →
        (s.account a).balance ctx.timestamp ≤ (s'.account a).balance ctx.timestamp) := by
  have hmoves : Moves ctx.timestamp (sparing a) s.ledger s'.ledger :=
    moves_applyTx (fun _ => ha.symm) ha.symm (fun _ _ => needs_sparing (fun _ => ha) hescrow) h
  refine ⟨nonce_of_moves hmoves (fun hne => hne rfl),
    settled_le_of_moves hmoves (fun hne => hne rfl), fun hregates => ?_⟩
  have hkeeps : Moves ctx.timestamp (keeping a) s.ledger s'.ledger := by
    refine moves_applyTx (fun _ => ha.symm) ha.symm
      (fun s₁ hprep => needs_keeping ha hescrow ?_) h
    obtain ⟨hhum, hgate⟩ := frame_of_prepares hprep
    exact fun hregates₁ => hregates (hregates₁.congr hhum hgate)
  exact balance_le_of_moves hkeeps (fun hne => hne rfl) (fun _ _ _ haddress hg => hg haddress)

-- The nonce of an account is consumed, and settles the account.
theorem consumeNonce_current {nonce now : U64} (hnonce : nonce = nonceOf s a) :
    ∃ s₁, consumeNonce s a nonce now = (.ok (), s₁) ∧
      (s.account a).settledBalance ≤ (s₁.account a).settledBalance := by
  have hnonce : nonce = (s.account a).nonce := hnonce
  simp only [consumeNonce, Account.settle_nonce]
  rw [if_neg (not_not.mpr hnonce)]
  refine ⟨_, rfl, ?_⟩
  have hput := account_put_of_address s.ledger (a := a)
    (x := { (s.account a).settle now with nonce := (s.account a).nonce + 1#64 })
    (by simp [MemState.account])
  simp only [MemState.account, MemState.put] at hput ⊢
  rw [hput]
  exact Account.settledBalance_le_settle _ now

-- A settled balance that covers the draw is not what an operation fails for.
theorem passes_of_covered (hnonce : tx.nonce = nonceOf s tx.from_)
    (hfunds : tx.draw.toNat + n ≤ (s.account tx.from_).settledBalance.toNat) :
    Passes ctx tx s := by
  obtain ⟨s₁, hconsume, hle⟩ := @consumeNonce_current _ _ _ ctx.timestamp hnonce
  unfold Passes
  unfold KernelTx.draw at hfunds
  split
  · rename_i to_ value hk
    simp only [hk] at hfunds
    obtain ⟨l', hl, -⟩ := @applyTransfer_covers ctx.timestamp _ _ to_ _ _ _ hnonce hfunds
    rw [hl]
  · rename_i id hk
    simp only [hk] at hfunds
    obtain ⟨l', hl, -⟩ := @applyTransfer_covers ctx.timestamp _ _ (contractAddress id) _ _ _
      hnonce hfunds
    intro e
    unfold fundContract
    cases s.getContract id with
    | none => simp
    | some contract =>
      dsimp only
      split_ifs
      · simp
      · rw [hl]
        simp
  · rename_i to_ rate deposit hk
    simp only [hk] at hfunds
    rw [hconsume]
    exact ⟨rfl, (openStream_covers (n := n) rate (hfunds.trans (BitVec.le_def.mp hle))).1⟩
  · rw [hconsume]

-- What it leaves of a covered draw, and the nonce when it succeeds.
theorem sender_of_applyOne (hnonce : tx.nonce = nonceOf s tx.from_)
    (hfunds : tx.draw.toNat + n ≤ (s.account tx.from_).settledBalance.toNat)
    (hescrow : ∀ id, contractAddress id ≠ tx.from_) (h : applyOne host ctx tx s = some (r, s')) :
    n ≤ (s'.account tx.from_).settledBalance.toNat ∧
      (∀ result, r = .ok result → nonceOf s' tx.from_ = tx.nonce + 1#64) := by
  unfold applyOne at h
  unfold KernelTx.draw at hfunds
  split at h
  · rename_i to_ value hk
    simp only [hk] at hfunds
    obtain ⟨l', hl, hrest⟩ :=
      @applyTransfer_covers ctx.timestamp _ _ to_ _ _ _ hnonce hfunds
    rw [hl] at h
    cases h
    obtain ⟨-, hafter⟩ := nonce_applyTransfer hl
    have hstep := hafter tx.from_
    rw [if_pos rfl] at hstep
    exact ⟨hrest, fun _ _ => by rw [hnonce]; exact hstep⟩
  · rename_i id hk
    simp only [hk] at hfunds
    have hstay : n ≤ (s.account tx.from_).settledBalance.toNat := by omega
    obtain ⟨l', hl, hrest⟩ := @applyTransfer_covers ctx.timestamp _ _ (contractAddress id)
      _ _ _ hnonce hfunds
    unfold fundContract at h
    cases hc : s.getContract id with
    | none =>
      rw [hc] at h
      cases h
      exact ⟨hstay, fun _ hr => by cases hr⟩
    | some contract =>
      rw [hc] at h
      dsimp only at h
      split_ifs at h with hterm
      · cases h
        exact ⟨hstay, fun _ hr => by cases hr⟩
      · rw [hl] at h
        cases h
        obtain ⟨-, hafter⟩ := nonce_applyTransfer hl
        have hstep := hafter tx.from_
        rw [if_pos rfl] at hstep
        exact ⟨hrest, fun _ _ => by rw [hnonce]; exact hstep⟩
  · obtain ⟨s₁, hconsume, hle⟩ := @consumeNonce_current _ _ _ ctx.timestamp hnonce
    rw [hconsume] at h
    have hhub : hubOp host ctx tx s₁ = some (r, s') := h
    have hle := BitVec.le_def.mp hle
    obtain ⟨-, hafter⟩ := nonceOf_consume hconsume
    have hconsumed : nonceOf s₁ tx.from_ = tx.nonce + 1#64 := by
      rw [hafter, if_pos rfl]
    -- no operation but one on an escrow of its own changes the nonce of its sender
    have hkeeps : nonceOf s' tx.from_ = nonceOf s₁ tx.from_ := by
      rcases nonce_hubOp hhub with hsame | ⟨id, effect, -, hsteps⟩
      · exact hsame tx.from_
      · rw [hsteps, if_neg (hescrow id).symm]
    refine ⟨?_, fun _ _ => hkeeps.trans hconsumed⟩
    cases hk : tx.kind with
    | OpenStream to_ rate deposit =>
      simp only [hk] at hfunds
      simp only [hubOp, hk] at hhub
      have hrest := (@openStream_covers ctx.timestamp _ _ to_ rate _ n
        (hfunds.trans hle)).2
      rw [show s' = _ from (congrArg Prod.snd (Option.some.inj hhub)).symm, render_snd]
      exact hrest
    | StopStream id =>
      simp only [hubOp, hk] at hhub
      obtain ⟨p, hstop, hp⟩ := Option.map_eq_some_iff.mp hhub
      have hrest := BitVec.le_def.mp (settled_le_stopStream hstop tx.from_)
      rw [show s' = _ from (congrArg Prod.snd hp).symm, render_snd]
      have hfrom : n ≤ (s₁.account tx.from_).settledBalance.toNat := by omega
      exact hfrom.trans hrest
    | _ =>
      have hmoves : Moves ctx.timestamp (sparing tx.from_) s₁.ledger s'.ledger := by
        refine moves_hubOp (needs_sparing (fun hstreams => ?_) hescrow) hhub
        simp [hk, KernelKind.onStreams] at hstreams
      have hrest := BitVec.le_def.mp (settled_le_of_moves hmoves (fun hne => hne rfl))
      have hfrom : n ≤ (s₁.account tx.from_).settledBalance.toNat := by omega
      exact hfrom.trans hrest

theorem fee_covered {b m : Nat} (h : (feeForGas tx.kind.gas).toNat + b + m ≤
      ((s.account tx.from_).balance ctx.timestamp).toNat) :
    ∃ l, s.ledger.chargeFee tx.from_ tx.kind.gas ctx.timestamp =
        (.ok (feeForGas tx.kind.gas), l) ∧
      b + m ≤ (l.account tx.from_).settledBalance.toNat :=
  chargeFee_covers (by rw [← Nat.add_assoc]; exact h)

-- A transaction in its turn, whose sender can pay for it, is includable.
theorem includable_of_covered (hnonce : tx.nonce = nonceOf s tx.from_)
    (hfunds : tx.cost + n ≤ ((s.account tx.from_).balance ctx.timestamp).toNat) :
    Includable ctx tx s := by
  obtain ⟨l, hfee, hrest⟩ := fee_covered hfunds
  refine ⟨⟨_, congrArg Prod.fst hfee⟩, ?_⟩
  rw [hfee]
  refine passes_of_covered (n := n) ?_ hrest
  rw [nonceOf_of_chargeFee hfee]
  exact hnonce

-- Its fee is charged, its sender gets the next nonce, and keeps the rest of its balance.
theorem sender_of_applyTx (hnonce : tx.nonce = nonceOf s tx.from_)
    (hfunds : tx.cost + n ≤ ((s.account tx.from_).balance ctx.timestamp).toNat)
    (hescrow : ∀ id, contractAddress id ≠ tx.from_)
    (h : applyTx host ctx tx s = some (o, s')) :
    o.isSome ∧ nonceOf s' tx.from_ = tx.nonce + 1#64 ∧
      n ≤ ((s'.account tx.from_).balance ctx.timestamp).toNat := by
  obtain ⟨l, hfee, hrest⟩ := fee_covered hfunds
  obtain ⟨e, l', hfee', -, -⟩ | ⟨fee, l', r, s₁, hfee', hone, hsome, rfl⟩ := applyTx_cases h
  · rw [hfee] at hfee'
    cases hfee'
  · rw [hfee] at hfee'
    cases hfee'
    have hnonce₁ : tx.nonce = nonceOf { s with ledger := l } tx.from_ := by
      rw [nonceOf_of_chargeFee hfee]
      exact hnonce
    obtain ⟨hkeeps, hstep⟩ := sender_of_applyOne hnonce₁ hrest hescrow hone
    refine ⟨hsome, ?_⟩
    cases r with
    | ok result =>
      exact ⟨hstep result rfl,
        hkeeps.trans (BitVec.le_def.mp (Account.settledBalance_le_balance _ _))⟩
    | error e =>
      refine ⟨by rw [nonceOf_failTx, if_pos rfl], ?_⟩
      have hfail : Moves ctx.timestamp { idle with renonces := fun _ => True } s₁.ledger
          (failTx ctx tx s₁).ledger := moves_renonce s₁.ledger trivial
      exact (hkeeps.trans (BitVec.le_def.mp (Account.settledBalance_le_balance _ _))).trans
        (BitVec.le_def.mp (balance_le_of_moves hfail (fun h => h) (fun _ _ _ _ h => h.elim)))

theorem Payable.head {txs : List KernelTx} (hpay : Payable ctx (tx :: txs) s) :
    tx.nonce = nonceOf s tx.from_ ∧
      tx.cost + queueCost (queueOf txs tx.from_) ≤
        ((s.account tx.from_).balance ctx.timestamp).toNat := by
  have hfirst := hpay.inTurn [] tx txs rfl
  have hcovered := hpay.covered tx.from_
  exact ⟨by simpa [queueOf] using hfirst, by simpa [queueOf, queueCost] using hcovered⟩

-- What the rest of a queue starts from after its first transaction.
theorem payable_of_applyTx {txs : List KernelTx} (hpay : Payable ctx (tx :: txs) s)
    (hruled : ∀ a, a ≠ tx.from_ → Regates tx s a →
      queueCost (queueOf txs a) ≤ (s.account a).settledBalance.toNat)
    (h : applyTx host ctx tx s = some (o, s')) : o.isSome ∧ Payable ctx txs s' := by
  obtain ⟨hnonce, hfunds⟩ := hpay.head
  have hkeyed := hpay.keyed tx (List.mem_cons_self ..)
  obtain ⟨hsome, hstep, hrest⟩ := sender_of_applyTx hnonce hfunds hkeyed h
  refine ⟨hsome, ?_, ?_, fun tx' htx' => hpay.keyed tx' (List.mem_cons_of_mem tx htx')⟩
  · intro before tx' after heq
    have hturn := hpay.inTurn (tx :: before) tx' after (by rw [heq]; rfl)
    rw [hturn]
    by_cases hsame : tx'.from_ = tx.from_
    · have hlen : (queueOf (tx :: before) tx'.from_).length =
          (queueOf before tx'.from_).length + 1 := by
        simp [queueOf, hsame]
      rw [hlen, hsame, hstep, hnonce, BitVec.ofNat_add, BitVec.add_assoc]
      congr 1
      exact BitVec.add_comm _ _
    · have hlen : queueOf (tx :: before) tx'.from_ = queueOf before tx'.from_ := by
        have hne : ¬ tx.from_ = tx'.from_ := fun h => hsame h.symm
        simp [queueOf, hne]
      have hmem : tx' ∈ txs := by rw [heq]; simp
      obtain ⟨hkept, -⟩ := bystander_of_applyTx hsame
        (hpay.keyed tx' (List.mem_cons_of_mem tx hmem)) h
      rw [hlen, hkept]
  · intro a
    by_cases hsame : a = tx.from_
    · rw [hsame]
      exact hrest
    · cases hqueue : queueOf txs a with
      | nil => simp [queueCost]
      | cons tx' rest =>
        have hmem : tx' ∈ queueOf txs a := by rw [hqueue]; exact List.mem_cons_self ..
        obtain ⟨hmem, hfrom⟩ := List.mem_filter.mp hmem
        have hfrom : tx'.from_ = a := by simpa using hfrom
        have hescrow := hpay.keyed tx' (List.mem_cons_of_mem tx hmem)
        rw [hfrom] at hescrow
        obtain ⟨-, hsettled, hbalance⟩ := bystander_of_applyTx hsame hescrow h
        rw [← hqueue]
        by_cases hregates : Regates tx s a
        · have hle := BitVec.le_def.mp
            (hsettled.trans (Account.settledBalance_le_balance _ ctx.timestamp))
          exact (hruled a hsame hregates).trans hle
        · have hcovered := hpay.covered a
          have hne : ¬ tx.from_ = a := fun h => hsame h.symm
          rw [show queueOf (tx :: txs) a = queueOf txs a by simp [queueOf, hne]] at hcovered
          exact hcovered.trans (BitVec.le_def.mp (hbalance hregates))

-- The run lemma: every transaction of a payable queue is includable at its turn.
theorem allIncludable {txs : List KernelTx} (hpay : Payable ctx txs s)
    (hruled : Unruled host ctx txs s) : AllIncludable host ctx txs s := by
  induction txs generalizing s with
  | nil => trivial
  | cons tx txs ih =>
    obtain ⟨hnonce, hfunds⟩ := hpay.head
    refine ⟨includable_of_covered hnonce hfunds, fun o s' happly => ?_⟩
    exact ih (payable_of_applyTx hpay hruled.1 happly).2 (hruled.2 o s' happly)

end

end Ubi2.Exec
