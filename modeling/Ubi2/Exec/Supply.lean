import Ubi2.Exec.Gate
import Ubi2.Exec.Spendable
import Ubi2.Runtime.Ledger.Supply

namespace Ubi2.Exec

open Ubi2.Runtime Ubi2.Runtime.Ledger Ubi2.Runtime.MemState Ubi2.Lib

-- The treasury, which has no key, pays for no transaction.
def SparesTreasury (tx : KernelTx) : Prop :=
  tx.from_ = TREASURY → feeForGas tx.kind.gas = 0#128

-- The humans whose emission is on.
def emitting (s : MemState) : Nat :=
  s.humanity.humans.sum fun h =>
    if h.status = .Verified ∨ h.status = .Challenged then 1 else 0

-- The states of a chain from its genesis, with the time and the seconds for which humans have
-- emitted by then.
inductive Emitted (host : Host) (admits : KernelTx → Prop) (g : Genesis) :
    U64 → MemState → Nat → Prop where
  | genesis : Emitted host admits g g.time g.state 0
  | next {t : U64} {s s' : MemState} {n : Nat} {ctx : BlockCtx} (h : Emitted host admits g t s n)
      (htime : t ≤ ctx.timestamp) (hwithin : Within host admits ctx s s') :
      Emitted host admits g ctx.timestamp s'
        (n + emitting s * (ctx.timestamp.toNat - t.toNat))

-- What the seconds of emission amount to.
def emission (seconds : Nat) : Nat := UBI.toNat * seconds / EMISSION_PERIOD_SECS.toNat

theorem Emitted.reachable {host : Host} {admits : KernelTx → Prop} {g : Genesis} {t : U64}
    {s : MemState} {n : Nat} (h : Emitted host admits g t s n) : ReachableBy host admits t s := by
  induction h with
  | genesis => exact .genesis g
  | next _ htime hwithin ih => exact .next ih htime hwithin

-- The accounts that emit are those of the humans that do.
theorem sum_verified {s : MemState} (hs : s.GateCoherent) :
    s.ledger.accounts.sum (fun x => if x.verified then 1 else 0) = emitting s := by
  let keys := (s.ledger.accounts.rows.map Account.address ++
    s.humanity.humans.rows.map Human.address).dedup
  have hkeys : keys.Nodup := List.nodup_dedup _
  have haccounts := Table.sum_get hkeys (t := s.ledger.accounts)
    (fun x => if x.verified then 1 else 0) fun x hx =>
      List.mem_dedup.mpr (List.mem_append_left _ (List.mem_map_of_mem hx))
  have hhumans := Table.sum_get hkeys (t := s.humanity.humans)
    (fun h => if h.status = .Verified ∨ h.status = .Challenged then 1 else 0) fun h hh =>
      List.mem_dedup.mpr (List.mem_append_right _ (List.mem_map_of_mem hh))
  rw [← haccounts, emitting, ← hhumans]
  congr 1
  refine List.map_congr_left fun a _ => ?_
  have haccount : ((s.ledger.accounts.get a).map fun x => if x.verified then 1 else 0).getD 0 =
      if (s.accountGate a).isSome then 1 else 0 := by
    unfold accountGate MemState.account Ledger.account Ledger.get Account.gate
    cases s.ledger.accounts.get a with
    | none => rfl
    | some x => cases hv : x.verified <;> simp [hv]
  have hhuman : ((s.humanity.humans.get a).map fun h =>
      if h.status = .Verified ∨ h.status = .Challenged then 1 else 0).getD 0 =
      if (s.humanGate a).isSome then 1 else 0 := by
    unfold humanGate getHuman HumanRegistry.getHuman
    cases s.humanity.humans.get a with
    | none => rfl
    | some h =>
      by_cases hv : h.status = .Verified ∨ h.status = .Challenged
      · simp [Human.gate, hv]
      · simp [Human.gate, hv]
  rw [haccount, hhuman, hs a]

-- Authority over every account but the treasury, and over gates that start no emission in
-- the past.
def frugal (now : U64) : Authority :=
  { spends := fun a => a ≠ TREASURY, renonces := fun _ => True
    gates := fun x v t => x.Regated now v t }

theorem frugal_treasury (now : U64) : ¬ (frugal now).spends TREASURY := fun h => h rfl

theorem contractAddress_ne_treasury (id : ContractId) : contractAddress id ≠ TREASURY := by
  intro h
  have hbit := congrArg (fun x => x.getLsbD 64) h
  simp [contractAddress, TREASURY] at hbit

section Steps

variable {host : Host} {ctx : BlockCtx} {tx : KernelTx} {s s' : MemState}

-- A gate that a cleared challenge gives back is the one that the account has.
theorem regated_restored (hs : s.GateCoherent) {a : Address} {h : Human}
    (hget : s.getHuman a = some h) (hstatus : h.status = .Challenged) (now : U64) :
    (s.account a).Regated now true h.verifiedAt := by
  have hgate := hs a
  rw [humanGate, hget, Option.bind_some, Human.gate, if_pos (Or.inr hstatus), accountGate,
    Account.gate] at hgate
  split_ifs at hgate with hv
  · exact Or.inr (Or.inr ⟨hv, Option.some.inj hgate⟩)

theorem needs_frugal (hs : s.GateCoherent) (htx : SparesTreasury tx) :
    Needs (frugal ctx.timestamp) ctx tx s := by
  have hstream (hfee : feeForGas tx.kind.gas ≠ 0#128) : (frugal ctx.timestamp).spends tx.from_ :=
    fun htreasury => hfee (htx htreasury)
  have hescrow (id : ContractId) : (frugal ctx.timestamp).spends (contractAddress id) :=
    contractAddress_ne_treasury id
  unfold Needs
  split
  · rename_i hk
    refine hstream ?_
    rw [hk]
    exact (by decide : feeForGas GAS_STREAM ≠ 0#128)
  · rename_i hk
    refine hstream ?_
    rw [hk]
    exact (by decide : feeForGas GAS_STREAM ≠ 0#128)
  · exact fun c c' _ => ⟨fun _ => Or.inl rfl, fun h hget hstatus =>
      regated_restored hs hget hstatus _⟩
  · exact Or.inr (Or.inl rfl)
  · exact fun id _ => ⟨hescrow id, trivial⟩
  · exact fun id _ => ⟨hescrow id, trivial⟩
  · trivial

theorem moves_frugal (hs : s.GateCoherent) (h : Within host SparesTreasury ctx s s') :
    Moves ctx.timestamp (frugal ctx.timestamp) s.ledger s'.ledger := by
  refine moves_within (fun tx htx hfee htreasury => hfee (htx htreasury)) (fun _ _ => trivial)
    (fun tx s₁ htx hprepares => ?_) (fun _ => Or.inr (Or.inl rfl)) h
  obtain ⟨hhumanity, hgates⟩ := frame_of_prepares hprepares
  refine needs_frugal (fun a => ?_) htx
  rw [hgates, hs a, humanGate, humanGate, getHuman, getHuman, hhumanity]

end Steps

theorem Genesis.booked (g : Genesis) : g.state.ledger.Booked :=
  g.ledger_induction .empty fun _ x _ h => h.put x

-- A genesis has no streams, and no emission to settle.
theorem Genesis.streams (g : Genesis) : g.state.ledger.streams = ∅ :=
  g.ledger_induction (P := fun l => l.streams = ∅) rfl fun _ _ _ h => h

theorem Genesis.unsettled (g : Genesis) :
    ∀ x ∈ g.state.ledger.accounts.rows, x.unsettled g.time = 0 := by
  refine g.ledger_induction (P := fun l => ∀ x ∈ l.accounts.rows, x.unsettled g.time = 0)
    (by simp) fun l x hx h y hy => ?_
  rcases Table.mem_put.mp hy with rfl | ⟨hmem, -⟩
  · exact Account.unsettled_of_le fun hv => (hx hv).ge.trans (le_max_right _ _)
  · exact h y hmem

theorem Genesis.worth_lt (g : Genesis) (a : Address) :
    g.state.ledger.worth a g.time < 2 ^ 128 := by
  have howed : g.state.ledger.owedTo a g.time = 0 := by
    have hnone : g.state.ledger.streamsTo a = [] := by
      refine List.filterMap_eq_nil_iff.mpr fun id _ => ?_
      rw [getStream, g.streams, Table.get_empty]
    rw [owedTo, hnone]
    rfl
  have hunsettled : (g.state.ledger.account a).unsettled g.time = 0 := by
    rw [Ledger.account, Ledger.get]
    cases hget : g.state.ledger.accounts.get a with
    | none => rfl
    | some x => exact g.unsettled x (Table.mem_of_get hget)
  rw [Ledger.worth, howed, Account.worth, Account.toNat_pendingEmission_eq, hunsettled]
  exact (g.state.ledger.account a).settledBalance.isLt

theorem Genesis.total_ripe (g : Genesis) :
    g.state.ledger.total (fun x => x.ripe g.time) EMISSION_PERIOD_SECS.toNat =
      EMISSION_PERIOD_SECS.toNat * g.state.ledger.supply g.time := by
  have hone : ∀ x ∈ g.state.ledger.accounts.rows,
      x.ripe g.time = EMISSION_PERIOD_SECS.toNat * x.worth g.time := by
    intro x hx
    rw [Account.ripe, Account.worth, Account.toNat_pendingEmission_eq, g.unsettled x hx]
    simp
  rw [g.booked.supply_eq g.worth_lt, total, total, g.streams, Table.sum_congr hone, Table.sum_mul]
  simp

theorem Emitted.booked {host : Host} {g : Genesis} {t : U64} {s : MemState} {n : Nat}
    (h : Emitted host SparesTreasury g t s n) : s.ledger.Booked := by
  induction h with
  | genesis => exact g.booked
  | next h _ hwithin ih =>
    exact ih.moves (moves_frugal (gateCoherent_of_reachable h.reachable) hwithin)

-- Time adds what the emitting humans emit.
theorem total_ripe_later {t now : U64} {s : MemState} (hs : s.GateCoherent) (hnow : t ≤ now) :
    s.ledger.total (fun x => x.ripe now) EMISSION_PERIOD_SECS.toNat ≤
      s.ledger.total (fun x => x.ripe t) EMISSION_PERIOD_SECS.toNat +
        UBI.toNat * (emitting s * (now.toNat - t.toNat)) := by
  have hsum := Table.sum_le_sum (t := s.ledger.accounts) fun x =>
    Account.ripe_later (x := x) hnow
  rw [Table.sum_add, Table.sum_mul, sum_verified hs, Nat.mul_assoc,
    Nat.mul_comm (now.toNat - t.toNat)] at hsum
  rw [total, total]
  omega

-- What is held in the end is at most what the genesis held and the emission since.
theorem Emitted.total_ripe_le {host : Host} {g : Genesis} {t : U64} {s : MemState} {n : Nat}
    (h : Emitted host SparesTreasury g t s n) {now : U64} (hnow : t ≤ now) :
    s.ledger.total (fun x => x.ripe now) EMISSION_PERIOD_SECS.toNat ≤
      EMISSION_PERIOD_SECS.toNat * g.state.ledger.supply g.time +
        UBI.toNat * (n + emitting s * (now.toNat - t.toNat)) := by
  induction h generalizing now with
  | genesis =>
    have hlater := total_ripe_later g.gateCoherent hnow
    rw [g.total_ripe] at hlater
    rwa [Nat.zero_add]
  | @next t s s' n ctx h htime hwithin ih =>
    have hcoherent := gateCoherent_of_reachable h.reachable
    have hkept := total_moves (Account.weighs_ripe ctx.timestamp) (frugal_treasury _)
      (fun x v t hregated => Account.ripe_regated hregated) h.booked
      (moves_frugal hcoherent hwithin)
    have hlater := total_ripe_later
      (gateCoherent_of_reachable (h.next htime hwithin).reachable) hnow
    have hbefore := ih htime
    rw [Nat.mul_add]
    omega

-- The same of what the accounts are worth.
theorem Emitted.total_worth_le {host : Host} {g : Genesis} {t : U64} {s : MemState} {n : Nat}
    (h : Emitted host SparesTreasury g t s n) {now : U64} (hnow : t ≤ now) :
    s.ledger.total (fun x => x.worth now) 1 ≤ g.state.ledger.supply g.time +
      emission (n + emitting s * (now.toNat - t.toNat)) := by
  have hripe := h.total_ripe_le hnow
  have hrounded := Table.sum_le_sum (t := s.ledger.accounts) fun x => x.period_mul_worth_le now
  have hperiod : EMISSION_PERIOD_SECS.toNat = 3600 := rfl
  rw [Table.sum_mul] at hrounded
  rw [total] at hripe ⊢
  rw [emission]
  rw [hperiod] at hripe hrounded ⊢
  omega

-- In a chain whose treasury pays for nothing, the balances of all accounts and what the
-- streams have left to accrue never exceed what the genesis held and what its humans have
-- emitted since. While that is less than a word can hold, nothing but emission raises them.
theorem supply_bounded {host : Host} {g : Genesis} {t : U64} {s : MemState} {n : Nat}
    (h : Emitted host SparesTreasury g t s n) :
    (∀ now, t ≤ now → s.ledger.supply now ≤
      g.state.ledger.supply g.time + emission (n + emitting s * (now.toNat - t.toNat))) ∧
    ∀ ctx s', t ≤ ctx.timestamp → Within host SparesTreasury ctx s s' →
      g.state.ledger.supply g.time +
        emission (n + emitting s * (ctx.timestamp.toNat - t.toNat)) < 2 ^ 128 →
      s'.ledger.supply ctx.timestamp ≤ s.ledger.supply ctx.timestamp := by
  refine ⟨fun now hnow => (h.booked.supply_le now).trans (h.total_worth_le hnow), ?_⟩
  intro ctx s' htime hwithin hmax
  have hmoves := moves_frugal (gateCoherent_of_reachable h.reachable) hwithin
  have hunsaturated (a : Address) : s.ledger.worth a ctx.timestamp < 2 ^ 128 :=
    (h.booked.worth_le_total a ctx.timestamp).trans_lt ((h.total_worth_le htime).trans_lt hmax)
  calc s'.ledger.supply ctx.timestamp
      ≤ s'.ledger.total (fun x => x.worth ctx.timestamp) 1 :=
        (h.next htime hwithin).booked.supply_le _
    _ ≤ s.ledger.total (fun x => x.worth ctx.timestamp) 1 :=
        total_moves (Account.weighs_worth ctx.timestamp) (frugal_treasury _)
          (fun x v t hregated => Account.worth_regated hregated) h.booked hmoves
    _ = s.ledger.supply ctx.timestamp := (h.booked.supply_eq hunsaturated).symm

-- Three humans emit for two hours, and one of them pays another.
theorem supply_bounded_devnet :
    ∃ s, run mockHost devnet.state [act 1#64 1#160 0#64 (.Transfer 2#160 UBI)] = some s ∧
      (∀ now, 7200#64 ≤ now → s.ledger.supply now ≤ devnet.state.ledger.supply 0#64 +
        emission (21600 + emitting s * (now.toNat - 7200))) ∧
      ∀ ctx s', 7200#64 ≤ ctx.timestamp → Within mockHost SparesTreasury ctx s s' →
        devnet.state.ledger.supply 0#64 +
          emission (21600 + emitting s * (ctx.timestamp.toNat - 7200)) < 2 ^ 128 →
        s'.ledger.supply ctx.timestamp ≤ s.ledger.supply ctx.timestamp := by
  let tx : KernelTx :=
    { txHash := 0#256, from_ := 1#160, nonce := 0#64, value := 0#128, kind := .Transfer 2#160 UBI }
  let ctx : BlockCtx := { timestamp := 7200#64, number := 1#64, blockHash := 0#256 }
  have hsome : (applyTx mockHost ctx tx devnet.state).isSome = true := by decide +kernel
  obtain ⟨⟨o, s⟩, happly⟩ := Option.isSome_iff_exists.mp hsome
  have hrun : run mockHost devnet.state [act 1#64 1#160 0#64 (.Transfer 2#160 UBI)] = some s := by
    have hstep : step mockHost devnet.state (act 1#64 1#160 0#64 (.Transfer 2#160 UBI)) =
      some (o, s) := happly
    rw [run, hstep]
    rfl
  have hseconds :
      0 + emitting devnet.state * (ctx.timestamp.toNat - devnet.time.toNat) = 21600 := by
    decide +kernel
  have hspares : SparesTreasury tx := fun hfrom => absurd hfrom (by decide)
  have hemitted : Emitted mockHost SparesTreasury devnet 7200#64 s _ :=
    .next .genesis (by decide : devnet.time ≤ ctx.timestamp) (.applied hspares happly)
  rw [hseconds] at hemitted
  exact ⟨s, hrun, supply_bounded hemitted⟩

-- A chain of accounts with the given balances, and of three jurors.
def fundedChain (accounts : List (Address × U128)) : Genesis :=
  { time := 0#64, accounts := accounts
    jurors := [(1#160, 0#128), (2#160, 0#128), (3#160, 0#128)] }

def pay (now : U64) (from_ : Address) (nonce : U64) (value : U128) (kind : KernelKind) : Event :=
  { ctx := { timestamp := now, number := 1#64, blockHash := 0#256 }
    action := .tx
      { txHash := 0#256, from_ := from_, nonce := nonce, value := value, kind := kind } }

-- A contract whose escrow is filled and streamed to, until its balance saturates.
def filledEscrow : List Event :=
  [ pay 0#64 2#160 0#64 0#128 (.DeployContract "" [2#160]),
    pay 0#64 1#160 0#64 (Word.max - 1000000000000000#128) (.FundContract 0),
    pay 0#64 2#160 1#64 0#128 (.OpenStream (contractAddress 0) 100000000000000000#128 UBI) ]

def streamingHost : Host :=
  Host.mock (.new .Human .High) (.new [.OpenStream 5#160 1#128 UBI])

-- A fee that the treasury charges itself is minted; a deposit that is counted until it is
-- drawn counts what has accrued twice; and what an escrow that has saturated receives comes
-- back when it opens a stream.
theorem supply_raised :
    (∃ s, run mockHost (fundedChain [(TREASURY, UBI)]).state
        [pay 0#64 TREASURY 0#64 0#128 (.Transfer 1#160 0#128)] = some s ∧
      (fundedChain [(TREASURY, UBI)]).state.ledger.supply 0#64 < s.ledger.supply 0#64) ∧
    (∃ s, run mockHost (fundedChain [(1#160, UBI)]).state
        [pay 0#64 1#160 0#64 0#128 (.OpenStream 2#160 1#128 10#128)] = some s ∧
      emitting s = 0 ∧
      (fundedChain [(1#160, UBI)]).state.ledger.supply 0#64 <
        (s.ledger.holders.map fun a => (s.ledger.balance a 10#64).toNat).sum +
          s.ledger.streams.sum fun x => x.deposit.toNat - x.drawn.toNat) ∧
    ∃ s o s', run streamingHost (fundedChain [(1#160, Word.max), (2#160, Word.max)]).state
        filledEscrow = some s ∧
      step streamingHost s (pay 1#64 2#160 2#64 0#128 (.InvokeContract 0 0#256)) = some (o, s') ∧
      s.ledger.supply 1#64 < s'.ledger.supply 1#64 := by
  refine ⟨?_, ?_, ?_⟩
  · have h : (run mockHost (fundedChain [(TREASURY, UBI)]).state
        [pay 0#64 TREASURY 0#64 0#128 (.Transfer 1#160 0#128)]).any (fun s =>
          (fundedChain [(TREASURY, UBI)]).state.ledger.supply 0#64 < s.ledger.supply 0#64) := by
      decide +kernel
    obtain ⟨s, hrun, hraised⟩ := (Option.any_eq_true _ _).mp h
    exact ⟨s, hrun, of_decide_eq_true hraised⟩
  · have h : (run mockHost (fundedChain [(1#160, UBI)]).state
        [pay 0#64 1#160 0#64 0#128 (.OpenStream 2#160 1#128 10#128)]).any (fun s =>
          emitting s = 0 ∧ (fundedChain [(1#160, UBI)]).state.ledger.supply 0#64 <
            (s.ledger.holders.map fun a => (s.ledger.balance a 10#64).toNat).sum +
              s.ledger.streams.sum fun x => x.deposit.toNat - x.drawn.toNat) := by
      decide +kernel
    obtain ⟨s, hrun, hraised⟩ := (Option.any_eq_true _ _).mp h
    exact ⟨s, hrun, of_decide_eq_true hraised⟩
  · have h : (run streamingHost (fundedChain [(1#160, Word.max), (2#160, Word.max)]).state
        filledEscrow).any (fun s =>
          (step streamingHost s (pay 1#64 2#160 2#64 0#128 (.InvokeContract 0 0#256))).any
            fun r => s.ledger.supply 1#64 < r.2.ledger.supply 1#64) := by
      decide +kernel
    obtain ⟨s, hrun, hraised⟩ := (Option.any_eq_true _ _).mp h
    obtain ⟨⟨o, s'⟩, hstep, hraised⟩ := (Option.any_eq_true _ _).mp hraised
    exact ⟨s, o, s', hrun, hstep, of_decide_eq_true hraised⟩

end Ubi2.Exec
