import Ubi2.Exec.Inclusion
import Ubi2.Rpc.Capacity

namespace Ubi2.Rpc

open Ubi2.Runtime Ubi2.Lib Ubi2.Lib.Encode Ubi2.Exec

-- What a transaction commits its sender to: the value, the deposit and the fee.
def PendingTx.cost (p : PendingTx) : Nat :=
  p.value.toNat + (depositOf p.kind).toNat + (feeForGas p.kind.gas).toNat

def totalCost (pending : List PendingTx) : Nat := (pending.map PendingTx.cost).sum

-- What its sender is committed to once a transaction is queued.
def Inner.needOf (g : Inner) (p : PendingTx) : Nat :=
  totalCost (senderPending g.mempool p.from_) + p.cost

-- The balance of the sender covers that, with the streams it receives.
def Coverable (g : Inner) (now : U64) (p : PendingTx) : Prop :=
  g.needOf p ≤ (g.state.ledger.balance p.from_ now).toNat

-- And without them.
def OwnCoverable (g : Inner) (now : U64) (p : PendingTx) : Prop :=
  g.needOf p ≤ ((g.state.account p.from_).balance now).toNat

-- There is room for the transaction, and it carries the next nonce of its sender.
structure Awaited (g : Inner) (p : PendingTx) : Prop where
  room : g.mempool.length < MEMPOOL_MAX_TXS
  senderRoom : (senderPending g.mempool p.from_).length < MEMPOOL_MAX_PER_SENDER
  inTurn : p.nonce = (g.state.account p.from_).nonce +
    BitVec.ofNat 64 (senderPending g.mempool p.from_).length

def FundsRefused (r : Except IngestError Hash) : Prop :=
  ∃ forDeposit have_ need committed,
    r = .error (.Refused (.Insufficient forDeposit have_ need committed))

-- What holds of every submission that decodes, in the state that it is made in.
def EverySubmission (host : NodeHost) (P : Chain → U64 → Bytes → PendingTx → Prop) :
    Chain → List (U64 × Bytes) → Prop
  | _, [] => True
  | chain, (now, raw) :: submissions =>
    (∀ p, host.decodePendingTx raw = some p → P chain now raw p) ∧
      EverySubmission host P (chain.ingestRawTx host now raw).2 submissions

-- No transaction that its sender can cover is refused for lack of balance.
def AcceptsCoverable (host : NodeHost) (chain : Chain) (submissions : List (U64 × Bytes)) :
    Prop :=
  EverySubmission host (fun chain now raw p => Coverable chain.inner now p →
    ¬ FundsRefused (chain.ingestRawTx host now raw).1) chain submissions

-- No sender needs the streams it receives for what it submits.
def InflowUnneeded (host : NodeHost) (chain : Chain) (submissions : List (U64 × Bytes)) :
    Prop :=
  EverySubmission host (fun chain now _ p => Awaited chain.inner p →
    Coverable chain.inner now p → OwnCoverable chain.inner now p) chain submissions

-- A block produced from the mempool drops nothing, and no transaction is refused at its
-- turn for its nonce or for the funds of its sender.
structure Includes (host : NodeHost) (chain : Chain) (timestamp : U64) (view : U32) : Prop where
  passes : AllIncludable host.toHost (chain.inner.nextCtx host timestamp view)
    (chain.inner.mempool.map kernelTxFromPending) chain.inner.start.state
  stored : ∀ b chain', chain.produceBlockAtView host timestamp view = some (b, chain') →
    ∃ sweep, (∀ hash ∈ sweep, hash = sweepHash host (chain.inner.nextCtx host timestamp view)) ∧
      b.txs.map StoredTx.hash = chain.inner.mempool.map PendingTx.hash ++ sweep

-- What a submission finds its sender with is still there when the block is produced, and
-- a balance at the end of its range does not hide a larger need.
structure Lasting (timestamp : U64) (g : Inner) (now : U64) (p : PendingTx) : Prop where
  early : (g.state.account p.from_).balance now ≤ (g.state.account p.from_).balance timestamp
  fits : (g.state.account p.from_).balance now < Word.max ∨ g.needOf p < 2 ^ 128

-- No queued verdict takes the emission that a later transaction of another sender counts
-- on.
def Chain.Unruled (host : NodeHost) (chain : Chain) (timestamp : U64) (view : U32) : Prop :=
  Exec.Unruled host.toHost (chain.inner.nextCtx host timestamp view)
    (chain.inner.mempool.map kernelTxFromPending) chain.inner.start.state

-- The steps of a run that the block can take what it admits: the submissions, and then the
-- transactions of the block.
structure CleanQueue (host : NodeHost) (chain : Chain) (submissions : List (U64 × Bytes))
    (timestamp : U64) (view : U32) : Prop where
  lasting : EverySubmission host (fun chain now _ p => Awaited chain.inner p →
    Lasting timestamp chain.inner now p) chain submissions
  unruled : (chain.ingestAll host submissions).Unruled host timestamp view

-- A transfer moves the value of its envelope, and no signer is an escrow account.
structure Signed (p : PendingTx) : Prop where
  value : ∀ to_ v, p.kind = .Transfer to_ v → v = p.value
  keyed : ∀ id, contractAddress id ≠ p.from_

def DecodesSigned (host : NodeHost) : Prop :=
  ∀ raw p, host.decodePendingTx raw = some p → Signed p

section
variable {host : NodeHost} {chain chain' : Chain} {now timestamp : U64} {view : U32}
variable {g : Inner} {p : PendingTx} {raw : Bytes} {submissions : List (U64 × Bytes)}

theorem totalCost_append (ps qs : List PendingTx) :
    totalCost (ps ++ qs) = totalCost ps + totalCost qs := by
  simp [totalCost]

theorem totalCost_singleton (p : PendingTx) : totalCost [p] = p.cost := by
  rw [totalCost, List.map_singleton, List.sum_singleton]

theorem toNat_debit (p : PendingTx) : p.debit.toNat = min p.cost (2 ^ 128 - 1) := by
  rw [PendingTx.debit, spendableDebit, Word.toNat_satAdd, Word.toNat_satAdd, PendingTx.cost]
  omega

theorem toNat_pendingCommitted (ps : List PendingTx) :
    (pendingCommitted ps).toNat = min (totalCost ps) (2 ^ 128 - 1) := by
  have hfold : ∀ (ps : List PendingTx) (x : U128),
      (ps.foldl (fun acc p => Word.satAdd acc p.debit) x).toNat =
        min (x.toNat + totalCost ps) (2 ^ 128 - 1) := by
    intro ps
    induction ps with
    | nil =>
      intro x
      have hx := x.isLt
      simp only [List.foldl_nil, totalCost, List.map_nil, List.sum_nil]
      omega
    | cons p ps ih =>
      intro x
      have hcons : totalCost (p :: ps) = p.cost + totalCost ps := rfl
      rw [List.foldl_cons, ih, Word.toNat_satAdd, toNat_debit, hcons]
      omega
  rw [pendingCommitted, hfold]
  simp

-- The need that the gate computes is the need, up to the end of its range.
theorem toNat_need (g : Inner) (p : PendingTx) :
    (Word.satAdd (pendingCommitted (senderPending g.mempool p.from_)) p.debit).toNat =
      min (g.needOf p) (2 ^ 128 - 1) := by
  rw [Word.toNat_satAdd, toNat_pendingCommitted, toNat_debit, Inner.needOf]
  omega

theorem EverySubmission.congr {P Q : Chain → U64 → Bytes → PendingTx → Prop}
    (h : ∀ chain now raw p, host.decodePendingTx raw = some p →
      (P chain now raw p ↔ Q chain now raw p)) :
    EverySubmission host P chain submissions ↔ EverySubmission host Q chain submissions := by
  induction submissions generalizing chain with
  | nil => exact Iff.rfl
  | cons s submissions ih =>
    constructor
    · exact fun hall => ⟨fun p hp => (h chain s.1 s.2 p hp).mp (hall.1 p hp), ih.mp hall.2⟩
    · exact fun hall => ⟨fun p hp => (h chain s.1 s.2 p hp).mpr (hall.1 p hp), ih.mpr hall.2⟩

-- A transaction is refused for funds when nothing else is wrong with it, and the balance
-- is less than the need that the gate computes.
theorem fundsRefused_iff (hdecode : host.decodePendingTx raw = some p) :
    FundsRefused (chain.ingestRawTx host now raw).1 ↔ Awaited chain.inner p ∧
      ((chain.inner.state.account p.from_).balance now).toNat <
        min (chain.inner.needOf p) (2 ^ 128 - 1) := by
  rw [← toNat_need, ← BitVec.lt_def]
  simp only [Chain.ingestRawTx, hdecode, submitGate]
  by_cases hroom : MEMPOOL_MAX_TXS ≤ chain.inner.mempool.length
  · rw [if_pos hroom]
    refine ⟨by rintro ⟨_, _, _, _, h⟩; simp at h, fun h => ?_⟩
    exact absurd h.1.room (not_lt.mpr hroom)
  rw [if_neg hroom]
  by_cases hsender : MEMPOOL_MAX_PER_SENDER ≤ (senderPending chain.inner.mempool p.from_).length
  · rw [if_pos hsender]
    refine ⟨by rintro ⟨_, _, _, _, h⟩; simp at h, fun h => ?_⟩
    exact absurd h.1.senderRoom (not_lt.mpr hsender)
  rw [if_neg hsender]
  by_cases hnonce : p.nonce = (chain.inner.state.account p.from_).nonce +
      BitVec.ofNat 64 (senderPending chain.inner.mempool p.from_).length
  swap
  · rw [if_pos hnonce]
    refine ⟨by rintro ⟨_, _, _, _, h⟩; simp at h, fun h => absurd h.1.inTurn hnonce⟩
  rw [if_neg (not_not.mpr hnonce)]
  have hawaited : Awaited chain.inner p := ⟨not_le.mp hroom, not_le.mp hsender, hnonce⟩
  by_cases hfunds : (chain.inner.state.account p.from_).balance now <
      Word.satAdd (pendingCommitted (senderPending chain.inner.mempool p.from_)) p.debit
  · rw [if_pos hfunds]
    exact ⟨fun _ => ⟨hawaited, hfunds⟩, fun _ => ⟨_, _, _, _, rfl⟩⟩
  · rw [if_neg hfunds]
    exact ⟨by rintro ⟨_, _, _, _, h⟩; simp at h, fun h => absurd h.2 hfunds⟩

-- The gate refuses what a sender can cover exactly when it takes its streams to.
theorem acceptsCoverable_iff : AcceptsCoverable host chain submissions ↔
    InflowUnneeded host chain submissions := by
  refine EverySubmission.congr fun chain now raw p hdecode => ?_
  rw [fundsRefused_iff hdecode]
  constructor
  · intro h hawaited hcover
    have hbound := (chain.inner.state.ledger.balance p.from_ now).isLt
    have henough : ¬ _ < min (chain.inner.needOf p) (2 ^ 128 - 1) :=
      fun hlt => h hcover ⟨hawaited, hlt⟩
    rw [Coverable] at hcover
    rw [OwnCoverable]
    omega
  · rintro h hcover ⟨hawaited, hlt⟩
    have hown := h hawaited hcover
    rw [OwnCoverable] at hown
    omega

-- What the mempool is between submissions: each sender's transactions carry its next
-- nonces, and its own balance when the block is produced covers them.
structure Queued (timestamp : U64) (g : Inner) : Prop where
  inTurn : ∀ before p after, g.mempool = before ++ p :: after →
    p.nonce = (g.state.account p.from_).nonce +
      BitVec.ofNat 64 (senderPending before p.from_).length
  covered : ∀ a, totalCost (senderPending g.mempool a) ≤
    ((g.state.account a).balance timestamp).toNat
  signed : ∀ p ∈ g.mempool, Signed p

-- What passes the gate and is lasting is covered when the block is produced.
theorem needOf_le_of_gate (hgate : submitGate g now p = none)
    (hlasting : Lasting timestamp g now p) :
    g.needOf p ≤ ((g.state.account p.from_).balance timestamp).toNat := by
  obtain ⟨-, -, -, hfunds⟩ := submitGate_eq_none.mp hgate
  have hearly := BitVec.le_def.mp hlasting.early
  have hlt := ((g.state.account p.from_).balance now).isLt
  rw [BitVec.le_def, toNat_need] at hfunds
  rcases hlasting.fits with hfits | hfits
  · rw [BitVec.lt_def, Word.toNat_max] at hfits
    omega
  · omega

-- The step lemma of a submission.
theorem queued_ingestRawTx (hsigned : DecodesSigned host)
    (hqueued : Queued timestamp chain.inner)
    (hlasting : ∀ p, host.decodePendingTx raw = some p → Awaited chain.inner p →
      Lasting timestamp chain.inner now p) :
    Queued timestamp (chain.ingestRawTx host now raw).2.inner := by
  rcases ingestRawTx_cases (Prod.eta (chain.ingestRawTx host now raw)).symm with
    ⟨e, -, heq⟩ | ⟨q, hdecode, hgate, -, heq⟩
  · rw [heq]
    exact hqueued
  · obtain ⟨hroom, hsender, hnonce, -⟩ := submitGate_eq_none.mp hgate
    have hlasting := hlasting q hdecode ⟨hroom, hsender, hnonce⟩
    have hneed := needOf_le_of_gate hgate hlasting
    rw [heq]
    refine ⟨?_, ?_, ?_⟩
    · intro before p after hsplit
      have hsplit : chain.inner.mempool ++ [q] = before ++ p :: after := hsplit
      rcases List.eq_nil_or_concat after with rfl | ⟨rest, last, rfl⟩
      · obtain ⟨rfl, hlast⟩ := List.append_inj' hsplit rfl
        cases hlast
        exact hnonce
      · rw [List.concat_eq_append, ← List.cons_append, ← List.append_assoc] at hsplit
        obtain ⟨hmempool, -⟩ := List.append_inj' hsplit rfl
        exact hqueued.inTurn before p rest hmempool
    · intro a
      have hmempool : (chain.enqueue q raw).inner.mempool = chain.inner.mempool ++ [q] := rfl
      have hstate : (chain.enqueue q raw).inner.state = chain.inner.state := rfl
      rw [hmempool, hstate, senderPending, List.filter_append, totalCost_append]
      by_cases ha : q.from_ = a
      · rw [Inner.needOf, ha] at hneed
        have hlast : [q].filter (fun p => p.from_ = a) = [q] := by simp [ha]
        rw [hlast, totalCost_singleton]
        exact hneed
      · have hlast : [q].filter (fun p => p.from_ = a) = [] := by simp [ha]
        rw [hlast]
        exact hqueued.covered a
    · intro p hp
      rcases List.mem_append.mp hp with hp | hp
      · exact hqueued.signed p hp
      · rw [List.mem_singleton.mp hp]
        exact hsigned raw q hdecode

theorem queued_ingestAll (hsigned : DecodesSigned host) (hqueued : Queued timestamp chain.inner)
    (hlasting : EverySubmission host (fun chain now _ p => Awaited chain.inner p →
      Lasting timestamp chain.inner now p) chain submissions) :
    Queued timestamp (chain.ingestAll host submissions).inner := by
  induction submissions generalizing chain with
  | nil => exact hqueued
  | cons s submissions ih =>
    exact ih (queued_ingestRawTx hsigned hqueued hlasting.1) hlasting.2

-- The kernel takes no more for a transaction than the gate sets aside.
theorem cost_kernelTx (h : Signed p) : (kernelTxFromPending p).cost ≤ p.cost := by
  have hdraw : (kernelTxFromPending p).draw.toNat ≤ p.value.toNat + (depositOf p.kind).toNat := by
    cases hk : p.kind with
    | Transfer to_ v =>
      have hv := h.value to_ v hk
      simp only [KernelTx.draw, kernelTxFromPending, hk, hv]
      omega
    | OpenStream to_ rate deposit =>
      simp only [KernelTx.draw, kernelTxFromPending, hk, depositOf]
      omega
    | FundContract id =>
      simp only [KernelTx.draw, kernelTxFromPending, hk]
      omega
    | _ => simp [KernelTx.draw, kernelTxFromPending, hk]
  have hgas : (kernelTxFromPending p).kind.gas = p.kind.gas := rfl
  rw [KernelTx.cost, PendingTx.cost, hgas]
  omega

theorem queueOf_map (pending : List PendingTx) (a : Address) :
    queueOf (pending.map kernelTxFromPending) a =
      (senderPending pending a).map kernelTxFromPending := by
  rw [queueOf, senderPending, List.filter_map]
  rfl

theorem queueCost_map {pending : List PendingTx} (h : ∀ p ∈ pending, Signed p) :
    queueCost (pending.map kernelTxFromPending) ≤ totalCost pending := by
  induction pending with
  | nil => exact le_rfl
  | cons p pending ih =>
    have hp := cost_kernelTx (h p (List.mem_cons_self ..))
    have hrest := ih fun q hq => h q (List.mem_cons_of_mem p hq)
    simp only [queueCost, totalCost, List.map_cons, List.sum_cons] at hrest ⊢
    exact Nat.add_le_add hp hrest

theorem account_start (g : Inner) : g.start.state.account = g.state.account := by
  simp only [Inner.start, blockStart]
  split_ifs <;> rfl

-- The mempool is payable from the state that its block starts in.
theorem Queued.payable (hqueued : Queued timestamp chain.inner) :
    Payable (chain.inner.nextCtx host timestamp view)
      (chain.inner.mempool.map kernelTxFromPending) chain.inner.start.state := by
  refine ⟨?_, ?_, ?_⟩
  · intro before tx after hsplit
    obtain ⟨ps, rest, hmempool, rfl, hrest⟩ := List.map_eq_append_iff.mp hsplit
    obtain ⟨p, qs, rfl, rfl, rfl⟩ := List.map_eq_cons_iff.mp hrest
    rw [queueOf_map, List.length_map, nonceOf, account_start]
    exact hqueued.inTurn ps p qs hmempool
  · intro a
    rw [queueOf_map, account_start]
    refine (queueCost_map fun p hp => ?_).trans (hqueued.covered a)
    exact hqueued.signed p (List.mem_of_mem_filter hp)
  · intro tx htx
    obtain ⟨p, hp, rfl⟩ := List.mem_map.mp htx
    exact (hqueued.signed p hp).keyed

-- All of a payable mempool survives its block.
theorem survivors_of_payable {ctx : BlockCtx} {number i : Nat} {pending : List PendingTx}
    {m m' : Mined} (hpay : Payable ctx (pending.map kernelTxFromPending) m.state)
    (hruled : Exec.Unruled host.toHost ctx (pending.map kernelTxFromPending) m.state)
    (h : mineTxs host ctx number i pending m = some m') :
    survivors host ctx pending m.state = pending := by
  induction pending generalizing m i with
  | nil => rfl
  | cons p pending ih =>
    rw [mineTxs] at h
    rw [survivors]
    cases happly : applyTx host.toHost ctx (kernelTxFromPending p) m.state with
    | none => simp [mineTx, happly] at h
    | some r =>
      obtain ⟨o, s⟩ := r
      obtain ⟨hsome, hrest⟩ := payable_of_applyTx hpay hruled.1 happly
      obtain ⟨o, rfl⟩ := Option.isSome_iff_exists.mp hsome
      obtain ⟨m₁, tx, hmine, rfl, -, -⟩ := mineTx_of_some happly number i
      rw [hmine, Option.bind_some] at h
      rw [Option.elim_some]
      simp only [Option.isSome_some, if_true]
      rw [ih hrest (hruled.2 _ _ happly) h]
      rfl

theorem includes_of_queued (hqueued : Queued timestamp chain.inner)
    (hruled : chain.Unruled host timestamp view) : Includes host chain timestamp view := by
  have hpay : Payable (chain.inner.nextCtx host timestamp view) _ _ := hqueued.payable
  refine ⟨allIncludable hpay hruled, ?_⟩
  intro b chain' hproduce
  obtain ⟨m, hm, hhashes⟩ := hashes_produced hproduce
  have hall : chain.mined host timestamp view = chain.inner.mempool :=
    survivors_of_payable hpay hruled hm
  rw [← hall]
  exact hhashes

-- A transaction that its sender can cover is never refused for lack of balance exactly
-- when no sender needs the streams it receives. What is admitted is includable when every
-- submission is lasting and no queued verdict takes what a later transaction counts on.
theorem admitted_includable (host : NodeHost) (chain : Chain)
    (submissions : List (U64 × Bytes)) (timestamp : U64) (view : U32)
    (hsigned : DecodesSigned host) (hempty : chain.inner.mempool = []) :
    (AcceptsCoverable host chain submissions ↔ InflowUnneeded host chain submissions) ∧
      (CleanQueue host chain submissions timestamp view →
        Includes host (chain.ingestAll host submissions) timestamp view) := by
  refine ⟨acceptsCoverable_iff, fun hclean => ?_⟩
  have hstart : Queued timestamp chain.inner := by
    refine ⟨?_, ?_, ?_⟩
    · intro before p after hsplit
      rw [hempty] at hsplit
      exact absurd hsplit (by simp)
    · intro a
      rw [hempty]
      exact Nat.zero_le _
    · intro p hp
      rw [hempty] at hp
      cases hp
  exact includes_of_queued (queued_ingestAll hsigned hstart hclean.lasting) hclean.unruled

end

theorem decodesSigned_payment : DecodesSigned paymentHost := by
  intro raw p hdecode
  simp only [paymentHost] at hdecode
  split at hdecode
  · rename_i payer
    cases hdecode
    refine ⟨?_, fun id hid => ?_⟩
    · intro to_ v hk
      cases hk
      rfl
    · have hbit := congrArg (fun x => x.getLsbD 64) hid
      simp [payment, contractAddress] at hbit
  · cases hdecode

-- A payment out of what the account has.
theorem admitted_includable_payment :
    AcceptsCoverable paymentHost (payingChain []) [(5#64, [6#8])] ∧
      Includes paymentHost ((payingChain []).ingestAll paymentHost [(5#64, [6#8])]) 10#64 0#32 := by
  have hown : OwnCoverable (payingChain []).inner 5#64 (payment 6#8) := by
    unfold OwnCoverable
    decide +kernel
  obtain ⟨haccepts, hincludes⟩ := admitted_includable paymentHost (payingChain [])
    [(5#64, [6#8])] 10#64 0#32 decodesSigned_payment rfl
  refine ⟨haccepts.mpr ⟨?_, trivial⟩, hincludes ⟨⟨?_, trivial⟩, ?_⟩⟩
  · intro p hdecode _ _
    cases hdecode
    exact hown
  · intro p hdecode _
    cases hdecode
    exact ⟨by decide +kernel, Or.inl (by decide +kernel)⟩
  · have hmempool : ((payingChain []).ingestAll paymentHost [(5#64, [6#8])]).inner.mempool =
        [payment 6#8] := by
      have hgate : submitGate (payingChain []).inner 5#64 (payment 6#8) = none := by
        decide +kernel
      have hdecode : paymentHost.decodePendingTx [6#8] = some (payment 6#8) := rfl
      simp only [Chain.ingestAll, Chain.ingestRawTx, hdecode, hgate]
      rfl
    rw [Chain.Unruled, hmempool]
    exact ⟨fun a _ hregates => hregates.elim, fun _ _ _ => trivial⟩

-- The first account streams a hundredth of a unit each second to the second, which has
-- nothing else.
def inflowChain : Chain :=
  { payingChain [] with
    inner := { (payingChain []).inner with
      state := { ledger := ((({} : Ledger).put
        { ({} : Ledger).account 6#160 with settledBalance := UBI }).openStream 6#160 5#160
          10000000000000000#128 500000000000000000#128 0#64).2 } } }

-- The payment of an account that its streams would cover is refused.
theorem coverable_payment_refused : DecodesSigned paymentHost ∧ inflowChain.inner.mempool = [] ∧
    ¬ AcceptsCoverable paymentHost inflowChain [(10#64, [5#8])] := by
  refine ⟨decodesSigned_payment, rfl, fun haccepts => ?_⟩
  have hcover : Coverable inflowChain.inner 10#64 (payment 5#8) := by
    unfold Coverable
    decide +kernel
  refine haccepts.1 (payment 5#8) rfl hcover ((fundsRefused_iff rfl).mpr ⟨?_, ?_⟩)
  · exact ⟨by decide, by decide, by decide +kernel⟩
  · decide +kernel

end Ubi2.Rpc
