import Ubi2.Exec.Reachable
import Ubi2.Runtime.Ledger.Balance

namespace Ubi2.Exec

open Ubi2.Runtime Ubi2.Runtime.Ledger Ubi2.Runtime.MemState Ubi2.Lib

namespace Genesis

private theorem gateCoherent_seedHuman {time : U64} {s : MemState} (a : Address)
    (hs : s.GateCoherent) : (seedHuman time s a).GateCoherent := by
  intro b
  have haccount := accountGate_syncAccountVerified
    (s.put { address := a, verified := true, verifiedAt := time, lastSettledAt := time })
    a true time b
  have hput := account_put s.ledger
    { address := a, verified := true, verifiedAt := time, lastSettledAt := time } b
  have hhuman := humanGate_putHuman s
    { address := a, status := .Verified, verifiedAt := time, livenessRef := 0#256
      vouchesIn := [], reputation := 0#64, assurance := .Std } b
  refine haccount.trans (Eq.trans ?_ hhuman.symm)
  by_cases hb : b = a
  · rw [if_pos hb, if_pos hb.symm]
    rfl
  · rw [if_neg hb, if_neg (fun h => hb h.symm), ← hs b]
    simp only [accountGate, MemState.account, MemState.put] at hput ⊢
    rw [hput, if_neg (fun h => hb h.symm)]

theorem gateCoherent (g : Genesis) : g.state.GateCoherent := by
  have haccount : ∀ (s : MemState) (a : Address × U128), s.humanity = {} ∧
      (∀ b, s.accountGate b = none) →
      (seedAccount s a).humanity = {} ∧ ∀ b, (seedAccount s a).accountGate b = none := by
    rintro s a ⟨hhum, hnone⟩
    refine ⟨hhum, fun b => ?_⟩
    have hput := account_put s.ledger { address := a.1, settledBalance := a.2 } b
    have hb := hnone b
    simp only [accountGate, seedAccount, MemState.account, MemState.put] at hput hb ⊢
    rw [hput]
    split_ifs
    · rfl
    · exact hb
  obtain ⟨hhum, hnone⟩ := Run.foldl_invariant haccount g.accounts
    (s := { zk := g.seedZk }) ⟨rfl, fun _ => rfl⟩
  -- before the humans are seeded no account is verified and no human is known
  have hstart : (g.accounts.foldl seedAccount { zk := g.seedZk }).GateCoherent := by
    intro a
    rw [hnone]
    simp only [humanGate, getHuman, hhum]
    rfl
  exact Run.foldl_invariant (f := fun s j => s.registerJuror j.1 j.2) (P := GateCoherent)
    (fun _ _ hs => hs) g.jurors
    (Run.foldl_invariant (f := seedHuman g.time) (P := GateCoherent)
      (fun _ a hs => gateCoherent_seedHuman a hs) g.humans hstart)

end Genesis

theorem gateCoherent_of_reachable {host : Host} {admits : KernelTx → Prop} {t : U64}
    {s : MemState} (h : ReachableBy host admits t s) : s.GateCoherent :=
  h.invariant Genesis.gateCoherent (fun _ _ => gateCoherent_change)

-- In every reachable state, the emission of an account is on exactly for the verified and
-- the challenged humans, and starts when their records say.
theorem emission_gate_coherent {host : Host} {t : U64} {s : MemState}
    (hs : Reachable host t s) (a : Address) :
    ((s.account a).verified = true ↔
      ∃ h, s.getHuman a = some h ∧ (h.status = .Verified ∨ h.status = .Challenged)) ∧
    ∀ h, s.getHuman a = some h → (h.status = .Verified ∨ h.status = .Challenged) →
      (s.account a).verifiedAt = h.verifiedAt := by
  have hgate := gateCoherent_of_reachable hs a
  simp only [accountGate, humanGate, Account.gate] at hgate
  cases hget : s.getHuman a with
  | none =>
    rw [hget] at hgate
    refine ⟨⟨fun hv => ?_, by rintro ⟨h, hh, -⟩; cases hh⟩, fun h hh => by cases hh⟩
    rw [if_pos hv] at hgate
    cases hgate
  | some h₀ =>
    rw [hget, Option.bind_some, Human.gate] at hgate
    by_cases hstatus : h₀.status = .Verified ∨ h₀.status = .Challenged
    · rw [if_pos hstatus] at hgate
      by_cases hv : (s.account a).verified = true
      · rw [if_pos hv] at hgate
        refine ⟨⟨fun _ => ⟨h₀, rfl, hstatus⟩, fun _ => hv⟩, fun h hh _ => ?_⟩
        cases hh
        exact Option.some.inj hgate
      · rw [if_neg hv] at hgate
        cases hgate
    · rw [if_neg hstatus] at hgate
      refine ⟨⟨fun hv => ?_, ?_⟩, fun h hh hst => ?_⟩
      · rw [if_pos hv] at hgate
        cases hgate
      · rintro ⟨h, hh, hst⟩
        cases hh
        exact absurd hst hstatus
      · cases hh
        exact absurd hst hstatus

-- A verified human that is challenged keeps its emission.
theorem emission_gate_coherent_challenged :
    ∃ s, run mockHost devnet.state [act 1#64 1#160 0#64 (.Challenge 2#160 0#256)] = some s ∧
      ((s.account 2#160).verified = true ↔
        ∃ h, s.getHuman 2#160 = some h ∧ (h.status = .Verified ∨ h.status = .Challenged)) ∧
      ∀ h, s.getHuman 2#160 = some h → (h.status = .Verified ∨ h.status = .Challenged) →
        (s.account 2#160).verifiedAt = h.verifiedAt := by
  obtain ⟨s, hrun⟩ := Option.isSome_iff_exists.mp (show (run mockHost devnet.state
    [act 1#64 1#160 0#64 (.Challenge 2#160 0#256)]).isSome = true by decide +kernel)
  exact ⟨s, hrun, emission_gate_coherent (reachable_devnet (by decide) hrun) 2#160⟩

end Ubi2.Exec
