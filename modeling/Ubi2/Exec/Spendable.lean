import Ubi2.Exec.Inclusion
import Ubi2.Runtime.Atomicity

namespace Ubi2.Exec

open Ubi2.Runtime Ubi2.Runtime.Ledger Ubi2.Runtime.MemState Ubi2.Lib

-- Authority over everything.
def anyone : Authority :=
  { spends := fun _ => True, renonces := fun _ => True, gates := fun _ _ _ => True }

section
variable {host : Host} {admits : KernelTx → Prop} {ctx : BlockCtx} {s s' : MemState} {w : Authority}

theorem needs_anyone (tx : KernelTx) (s : MemState) : Needs anyone ctx tx s :=
  Allows.needs ⟨trivial, fun _ _ => trivial, fun _ _ => trivial, fun _ => trivial,
    fun _ => trivial, fun _ _ _ _ => trivial⟩

theorem moves_prepares {tx : KernelTx} (hspends : feeForGas tx.kind.gas ≠ 0#128 → w.spends tx.from_)
    (hrenonces : w.renonces tx.from_) (h : Prepares ctx tx s s') :
    Moves ctx.timestamp w s.ledger s'.ledger := by
  obtain ⟨fee, l, hfee, hconsume⟩ := h
  have hcharge : Moves ctx.timestamp w s.ledger _ :=
    moves_chargeFee s.ledger (a := tx.from_) tx.kind.gas hspends
  rw [hfee] at hcharge
  have hrenonce : Moves ctx.timestamp w l _ :=
    @moves_renonce tx.from_ w l _ (tx.nonce + 1#64) hrenonces
  rw [(consumeNonce_ok hconsume).2]
  exact hcharge.trans hrenonce

-- Whatever a block does, its ledger is changed by moves on the authority of the senders of
-- its transactions.
theorem moves_within
    (hspends : ∀ tx, admits tx → feeForGas tx.kind.gas ≠ 0#128 → w.spends tx.from_)
    (hrenonces : ∀ tx, admits tx → w.renonces tx.from_)
    (hneeds : ∀ tx s₁, admits tx → Prepares ctx tx s s₁ → Needs w ctx tx s₁)
    (hgates : ∀ x, w.gates x true ctx.timestamp) (h : Within host admits ctx s s') :
    Moves ctx.timestamp w s.ledger s'.ledger := by
  have hscan (done : List Address) : Moves ctx.timestamp w s.ledger
      (done.foldl (sweepSybilOne host ctx.blockHash ctx.number) s).ledger :=
    Run.foldl_invariant (P := fun s' : MemState => Moves ctx.timestamp w s.ledger s'.ledger)
      (fun s' a h => h.trans (frame_sweepSybilOne host s' ctx.blockHash ctx.number a).moves)
      done Moves.refl
  cases h with
  | applied htx h =>
    exact moves_applyTx (hspends _ htx) (hrenonces _ htx) (fun s₁ => hneeds _ s₁ htx) h
  | prepared htx h => exact moves_prepares (hspends _ htx) (hrenonces _ htx) h
  | scanning done h => exact hscan done
  | finalizing done h =>
    refine (hscan (pendingHumans s)).trans ?_
    exact Run.foldl_invariant (f := sweepFinalizeOne ctx)
      (P := fun s' : MemState => Moves ctx.timestamp w _ s'.ledger)
      (fun s' a h => Moves.trans h (frame_finalizeRegistration s' a ctx.number ctx.timestamp
        hgates).moves) done Moves.refl
  | refreshed => exact Moves.refl

end

-- The ledger of a genesis is written account by account, and no emission starts earlier.
theorem Genesis.ledger_induction (g : Genesis) {P : Ledger → Prop} (hempty : P {})
    (hput : ∀ (l : Ledger) (x : Account), (x.verified = true → x.verifiedAt = g.time) →
      P l → P (l.put x)) : P g.state.ledger := by
  have haccount : ∀ (s : MemState) (a : Address × U128), P s.ledger →
      P (seedAccount s a).ledger :=
    fun s a h => hput s.ledger { address := a.1, settledBalance := a.2 } nofun h
  have hhuman : ∀ (s : MemState) (a : Address), P s.ledger → P (seedHuman g.time s a).ledger :=
    fun s a h => hput _ _ (fun _ => rfl) (hput s.ledger
      { address := a, verified := true, verifiedAt := g.time, lastSettledAt := g.time }
      (fun _ => rfl) h)
  have hjuror : ∀ (s : MemState) (j : Address × U128), P s.ledger →
      P (s.registerJuror j.1 j.2).ledger := fun _ _ h => h
  exact Run.foldl_invariant (P := fun s : MemState => P s.ledger) hjuror g.jurors
    (Run.foldl_invariant (P := fun s : MemState => P s.ledger) hhuman g.humans
      (Run.foldl_invariant (P := fun s : MemState => P s.ledger) haccount g.accounts hempty))

theorem Genesis.indexed (g : Genesis) : g.state.ledger.Indexed :=
  g.ledger_induction .empty fun _ x _ h => h.put x

theorem ReachableBy.indexed {host : Host} {admits : KernelTx → Prop} {t : U64} {s : MemState}
    (h : ReachableBy host admits t s) : s.ledger.Indexed := by
  induction h with
  | genesis g => exact g.indexed
  | next _ _ hwithin ih =>
    exact ih.moves (moves_within (w := anyone) (fun _ _ _ => trivial) (fun _ _ => trivial)
      (fun tx s₁ _ _ => needs_anyone tx s₁) (fun _ => trivial) hwithin)

-- Where nothing but the funds can be in the way, a debit by transfer, by fee or into a
-- contract goes through exactly when the balance that is displayed covers it.
structure DebitsBalance (s : MemState) (a : Address) (x : U128) (t : U64) : Prop where
  transfer : ∀ to_, (s.ledger.applyTransfer a to_ x (s.account a).nonce t).1 = .ok () ↔
    x ≤ s.ledger.balance a t
  fee : ∀ gas, feeForGas gas = x →
    ((s.ledger.chargeFee a gas t).1 = .ok x ↔ x ≤ s.ledger.balance a t)
  fund : ∀ id c, s.getContract id = some c → c.status ≠ .Terminated →
    ((s.fundContract a id x (s.account a).nonce t).1 = .ok () ↔ x ≤ s.ledger.balance a t)

-- The same of the deposit of a stream.
def StreamsBalance (s : MemState) (a : Address) (x : U128) (t : U64) : Prop :=
  ∀ to_ rate, a ≠ to_ → rate ≠ 0#128 → rate ≤ MAX_RATE → x ≠ 0#128 →
    ((∃ id, (s.ledger.openStream a to_ rate x t).1 = .ok id) ↔ x ≤ s.ledger.balance a t)

section
variable {s : MemState} {a : Address} {x : U128} {t : U64}

theorem transfer_iff (h : s.ledger.Indexed) (to_ : Address) :
    (s.ledger.applyTransfer a to_ x (s.account a).nonce t).1 = .ok () ↔
      x ≤ s.ledger.balance a t := by
  have hnonce : (s.account a).nonce = (s.ledger.account a).nonce := rfl
  rw [fst_applyTransfer, if_neg (not_not.mpr hnonce), h.spendable_eq]
  simp only [← BitVec.lt_def]
  split_ifs with hfunds
  · exact ⟨by rintro ⟨⟩, fun hle => absurd hle (not_le.mpr hfunds)⟩
  · exact ⟨fun _ => not_lt.mp hfunds, fun _ => rfl⟩

theorem debitsBalance (h : s.ledger.Indexed) : DebitsBalance s a x t := by
  refine ⟨transfer_iff h, ?_, ?_⟩
  · rintro gas rfl
    rw [fst_chargeFee, h.spendable_eq]
    simp only [← BitVec.lt_def]
    split_ifs with hfunds
    · exact ⟨by rintro ⟨⟩, fun hle => absurd hle (not_le.mpr hfunds)⟩
    · exact ⟨fun _ => not_lt.mp hfunds, fun _ => rfl⟩
  · intro id c hget hstatus
    rw [← transfer_iff h (contractAddress id)]
    simp only [fundContract, hget, if_neg hstatus]
    cases s.ledger.applyTransfer a (contractAddress id) x (s.account a).nonce t with
    | mk r l =>
      cases r with
      | error e => exact ⟨by rintro ⟨⟩, by rintro ⟨⟩⟩
      | ok u => exact ⟨fun _ => rfl, fun _ => rfl⟩

-- A deposit is taken from what the account has without its incoming streams.
theorem openStream_iff {to_ : Address} {rate : U128} (hself : a ≠ to_) (hrate : rate ≠ 0#128)
    (hmax : rate ≤ MAX_RATE) (hdeposit : x ≠ 0#128) :
    (∃ id, (s.ledger.openStream a to_ rate x t).1 = .ok id) ↔ x ≤ (s.account a).balance t := by
  have hsettled : ((s.ledger.account a).settle t).settledBalance = (s.account a).balance t := rfl
  simp only [openStream, if_neg hself, if_neg hrate, if_neg hdeposit, if_neg (not_lt.mpr hmax),
    hsettled]
  split_ifs with hfunds
  · refine ⟨?_, fun hle => absurd hle (not_le.mpr hfunds)⟩
    rintro ⟨id, hid⟩
    cases hid
  · exact ⟨fun _ => not_lt.mp hfunds, fun _ => ⟨_, rfl⟩⟩

theorem balance_le_displayed (l : Ledger) : (l.account a).balance t ≤ l.balance a t := by
  rw [BitVec.le_def, Account.toNat_balance, toNat_balance, Ledger.worth]
  omega

-- The balance that is displayed is what transfers, fees and contract funding can spend in
-- every reachable state. A stream takes the same deposits unless the incoming streams of its
-- sender are needed for it.
theorem balance_spendable {host : Host} {t₀ : U64} (hs : Reachable host t₀ s) (a : Address)
    (x : U128) (t : U64) :
    DebitsBalance s a x t ∧
      (StreamsBalance s a x t ↔
        ¬ ((s.account a).balance t < x ∧ x ≤ s.ledger.balance a t)) := by
  refine ⟨debitsBalance hs.indexed, ?_⟩
  constructor
  · rintro h ⟨hown, hcovers⟩
    have hne : a ≠ a + 1#160 := by
      intro heq
      have hval := congrArg BitVec.toNat heq
      rw [BitVec.toNat_add] at hval
      have hlt := a.isLt
      have hone : (1#160).toNat = 1 := rfl
      omega
    have hzero : x ≠ 0#128 := by
      rintro rfl
      exact absurd hown (by simp [BitVec.lt_def])
    have hopens := (h _ 1#128 hne (by decide) (by decide) hzero).mpr hcovers
    rw [openStream_iff hne (by decide) (by decide) hzero] at hopens
    exact absurd hopens (not_le.mpr hown)
  · intro h to_ rate hself hrate hmax hdeposit
    rw [openStream_iff hself hrate hmax hdeposit]
    refine ⟨fun hle => hle.trans (balance_le_displayed s.ledger), fun hcovers => ?_⟩
    exact not_lt.mp fun hown => h ⟨hown, hcovers⟩

end

-- A verified human streams to an account that has nothing else.
def streaming : List Event := [act 1#64 1#160 0#64 (.OpenStream 5#160 1#128 100#128)]

-- The balance of the recipient, ten seconds later, covers a deposit that is refused.
theorem inflow_not_deposited : ∃ s, run mockHost devnet.state streaming = some s ∧
    Reachable mockHost 7200#64 s ∧ 5#128 ≤ s.ledger.balance 5#160 7210#64 ∧
    (s.ledger.openStream 5#160 6#160 1#128 5#128 7210#64).1 =
      .error (.InsufficientBalance 0#128 5#128) := by
  have hrun : (run mockHost devnet.state streaming).map (fun s =>
      decide (5#128 ≤ s.ledger.balance 5#160 7210#64 ∧
        (s.ledger.openStream 5#160 6#160 1#128 5#128 7210#64).1 =
          .error (.InsufficientBalance 0#128 5#128))) = some true := by decide +kernel
  obtain ⟨s, hrun, hout⟩ := Option.map_eq_some_iff.mp hrun
  exact ⟨s, hrun, reachable_devnet (by decide) hrun, of_decide_eq_true hout⟩

theorem balance_spendable_streaming : ∃ s, run mockHost devnet.state streaming = some s ∧
    DebitsBalance s 5#160 5#128 7210#64 ∧
      (StreamsBalance s 5#160 5#128 7210#64 ↔
        ¬ ((s.account 5#160).balance 7210#64 < 5#128 ∧
          5#128 ≤ s.ledger.balance 5#160 7210#64)) := by
  obtain ⟨s, hrun⟩ := Option.isSome_iff_exists.mp
    (show (run mockHost devnet.state streaming).isSome = true by decide +kernel)
  exact ⟨s, hrun, balance_spendable (reachable_devnet (by decide) hrun) 5#160 5#128 7210#64⟩

end Ubi2.Exec
