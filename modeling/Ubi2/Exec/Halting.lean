import Ubi2.Exec.Escrow
import Ubi2.Runtime.Contracts.Halting

namespace Ubi2.Exec

open Ubi2.Runtime Ubi2.Runtime.Ledger Ubi2.Runtime.MemState Ubi2.Lib

-- The effect that the jury of a case commits with the operation of a transaction.
def Resolves (host : Host) (ctx : BlockCtx) (tx : KernelTx) (s : MemState) (id : ContractId)
    (effect : CanonicalEffect) : Prop :=
  match tx.kind with
  | .SubmitEffect caseId submitted =>
    ∃ c, s.getExecCase caseId = some c ∧ c.status = .Open ∧ tx.from_ ∈ c.jury ∧
      c.effectOf tx.from_ = none ∧ c.contract = id ∧
      tallyEffects (c.effects ++ [(tx.from_, submitted)]) c.jury.length QUORUM =
        some (.Committed effect)
  | .InvokeContract contractId triggerRef =>
    contractId = id ∧ ∃ contract, s.getContract contractId = some contract ∧
      contract.status ≠ .Terminated ∧ s.activeJurors ≠ [] ∧
      ∃ c, c = s.invokedCase host.interpreter host.usizeBits contractId contract triggerRef
          (deriveTrigger host triggerRef) tx.from_ (blockEntropy ctx.blockHash ctx.number)
          ctx.number ctx.timestamp ∧
        tallyEffects c.effects c.jury.length QUORUM = some (.Committed effect)
  | _ => False

theorem Resolves.escrows {host : Host} {ctx : BlockCtx} {tx : KernelTx} {s : MemState}
    {id : ContractId} {effect : CanonicalEffect} (h : Resolves host ctx tx s id effect) :
    Escrows tx s id := by
  unfold Resolves at h
  unfold Escrows
  cases hk : tx.kind with
  | SubmitEffect caseId submitted =>
    simp only [hk] at h
    obtain ⟨c, hc, -, -, -, rfl, -⟩ := h
    exact ⟨c, hc, rfl⟩
  | InvokeContract contractId triggerRef =>
    simp only [hk] at h
    exact h.1.symm
  | _ => simp [hk] at h

-- The effect of a transaction that panics, from the state that its operation runs on.
def HaltingEffect (host : Host) (ctx : BlockCtx) (tx : KernelTx) (s : MemState) : Prop :=
  ∃ id effect, Resolves host ctx tx s id effect ∧ s.Accepts id effect ∧
    s.ledger.Halts (contractAddress id) effect.ops

section Panics

variable {host : Host} {ctx : BlockCtx} {tx : KernelTx} {s : MemState}

-- An operation panics exactly when it commits an effect that passes the checks and halts.
theorem hubOp_eq_none_iff (hs : Escrowed s)
    (hmax : ∀ id, tx.contract s = some id → (escrowOf s id).toNat < 2 ^ 128 - 1) :
    hubOp host ctx tx s = none ↔ HaltingEffect host ctx tx s := by
  have hcovered (id : ContractId) (k : PromptContract) (hget : s.getContract id = some k) :
      k.escrow ≤ (s.account (contractAddress id)).settledBalance := by
    have hle := hs.covered id
    rwa [escrowOf, hget] at hle
  have hbelow (id : ContractId) (hid : Escrows tx s id) (k : PromptContract)
      (hget : s.getContract id = some k) : k.escrow.toNat < 2 ^ 128 - 1 := by
    have hlt := hmax id (contract_of_escrows hid)
    rwa [escrowOf, hget] at hlt
  unfold HaltingEffect Resolves
  unfold hubOp
  cases hk : tx.kind with
  | SubmitEffect caseId submitted =>
    have hresolve (c : ExecCase) (hc : s.getExecCase caseId = some c) :=
      resolveCase_eq_none_iff { c with effects := c.effects ++ [(tx.from_, submitted)] } ctx.number
        ctx.timestamp hs.booked (hcovered c.contract)
        (hbelow c.contract (by simp only [Escrows, hk]; exact ⟨c, hc, rfl⟩))
    simp only [Option.map_eq_none_iff, submitEffect_eq_none_iff]
    constructor
    · rintro ⟨c, hc, hopen, hjury, hsub, hnone⟩
      obtain ⟨effect, htally, hhalts⟩ := (hresolve c hc).mp hnone
      exact ⟨c.contract, effect, ⟨c, hc, hopen, hjury, hsub, rfl, htally⟩, hhalts⟩
    · rintro ⟨id, effect, ⟨c, hc, hopen, hjury, hsub, rfl, htally⟩, hhalts⟩
      exact ⟨c, hc, hopen, hjury, hsub, (hresolve c hc).mpr ⟨effect, htally, hhalts⟩⟩
  | InvokeContract contractId triggerRef =>
    have hid : Escrows tx s contractId := by simp only [Escrows, hk]
    have hresolve (c : ExecCase) (hc : c.contract = contractId) :
        ({ s with prompt := { s.prompt with nextExecCaseId := c.id + 1 } } : MemState).resolveCase c
            ctx.number ctx.timestamp = none ↔
          ∃ effect, tallyEffects c.effects c.jury.length QUORUM = some (.Committed effect) ∧
            s.Accepts contractId effect ∧
            s.ledger.Halts (contractAddress contractId) effect.ops := by
      subst hc
      exact resolveCase_eq_none_iff c ctx.number ctx.timestamp hs.booked (hcovered c.contract)
        (hbelow c.contract hid)
    simp only [Option.map_eq_none_iff, invokeContract_eq_none_iff]
    constructor
    · rintro ⟨contract, hget, hterm, hjurors, c, hc, hnone⟩
      obtain ⟨effect, htally, hhalts⟩ := (hresolve c (by rw [hc]; rfl)).mp hnone
      exact ⟨contractId, effect, ⟨rfl, contract, hget, hterm, hjurors, c, hc, htally⟩, hhalts⟩
    · rintro ⟨id, effect, ⟨rfl, contract, hget, hterm, hjurors, c, hc, htally⟩, hhalts⟩
      exact ⟨contract, hget, hterm, hjurors, c, hc,
        (hresolve c (by rw [hc]; rfl)).mpr ⟨effect, htally, hhalts⟩⟩
  | RequestVerification livenessRef =>
    have hsome (evidence : LivenessEvidence) : s.requestVerification host.oracle host.usizeBits
        tx.from_ evidence (blockEntropy ctx.blockHash ctx.number) ctx.number ≠ none := by
      obtain ⟨r, s', hr, -⟩ : ∃ r s', _ = some (r, s') ∧ Frame ctx.timestamp anyone s s' :=
        frame_requestVerification s host.oracle host.usizeBits tx.from_ evidence
          (blockEntropy ctx.blockHash ctx.number) ctx.number
      simp [hr]
    simp [hsome]
  | StopStream id => simp [stopStream_eq]
  | _ => simp

-- A transaction panics exactly when its fee and nonce are taken and its operation halts.
theorem applyTx_eq_none_iff (hs : Escrowed s) (hkeyless : EscrowKeyless tx s)
    (hmax : ∀ id, tx.contract s = some id → (escrowOf s id).toNat < 2 ^ 128 - 1) :
    applyTx host ctx tx s = none ↔ ∃ s₁, Prepares ctx tx s s₁ ∧ HaltingEffect host ctx tx s₁ := by
  have hescrows {s₁ : MemState} (hhalts : HaltingEffect host ctx tx s₁) :
      ∃ id, Escrows tx s₁ id := by
    obtain ⟨id, effect, hresolves, -⟩ := hhalts
    exact ⟨id, hresolves.escrows⟩
  unfold applyTx
  cases hfee : s.ledger.chargeFee tx.from_ tx.kind.gas ctx.timestamp with
  | mk res l =>
    cases res with
    | error e =>
      refine ⟨(by rintro ⟨⟩), ?_⟩
      rintro ⟨s₁, ⟨fee, l', hfee', -⟩, -⟩
      rw [hfee] at hfee'
      cases hfee'
    | ok fee =>
      have hone : afterFee host ctx tx s (.ok fee, l) = none ↔
          applyOne host ctx tx { s with ledger := l } = none := by
        simp only [afterFee]
        generalize applyOne host ctx tx { s with ledger := l } = done
        obtain _ | ⟨_ | _, _⟩ := done
        all_goals simp
      have hcharged := spares_chargeFee hs.booked hkeyless.sender hfee
      have hprepares (s₁ : MemState) : Prepares ctx tx s s₁ ↔
          consumeNonce { s with ledger := l } tx.from_ tx.nonce ctx.timestamp = (.ok (), s₁) := by
        constructor
        · rintro ⟨fee', l', hfee', h⟩
          rw [hfee] at hfee'
          cases hfee'
          exact h
        · intro h
          exact ⟨fee, l, hfee, h⟩
      rw [hone]
      unfold applyOne
      split
      · rename_i to_ value hk
        refine ⟨(by rintro ⟨⟩), ?_⟩
        rintro ⟨s₁, -, hhalts⟩
        obtain ⟨id, hid⟩ := hescrows hhalts
        simp [Escrows, hk] at hid
      · rename_i id hk
        refine ⟨(by rintro ⟨⟩), ?_⟩
        rintro ⟨s₁, -, hhalts⟩
        obtain ⟨id, hid⟩ := hescrows hhalts
        simp [Escrows, hk] at hid
      · cases hconsume : consumeNonce { s with ledger := l } tx.from_ tx.nonce ctx.timestamp with
        | mk res s₁ =>
          cases res with
          | error e =>
            refine ⟨(by rintro ⟨⟩), ?_⟩
            rintro ⟨s₂, hprepared, -⟩
            rw [hprepares, hconsume] at hprepared
            cases hprepared
          | ok u =>
            have hspares : Spares ctx.timestamp s s₁ := by
              refine hcharged.trans ?_
              rw [(consumeNonce_ok hconsume).2]
              exact spares_put hcharged.booked (by simpa [MemState.account] using hkeyless.sender)
            have hmax₁ : ∀ id, tx.contract s₁ = some id →
                (escrowOf s₁ id).toNat < 2 ^ 128 - 1 := by
              rw [contract_congr hspares.prompt, hspares.escrowOf_eq]
              exact hmax
            dsimp only
            rw [hubOp_eq_none_iff (hspares.escrowed hs) hmax₁]
            constructor
            · exact fun hhalts => ⟨s₁, (hprepares s₁).mpr hconsume, hhalts⟩
            · rintro ⟨s₂, hprepared, hhalts⟩
              rw [hprepares, hconsume] at hprepared
              cases hprepared
              exact hhalts

end Panics

-- An effect takes effect as a whole, or is refused and changes nothing.
def AllOrNothing (s : MemState) : Prop :=
  ∀ id effect now res s', s.applyEffect id effect now = some (res, s') →
    (∃ err, res = .error err ∧ s' = s) ∨
    ∃ contract r, res = .ok () ∧ s.Enacts id effect now contract r ∧
      s' = { s with ledger := r.ledger }.putContract r.contract

theorem allOrNothing (s : MemState) : AllOrNothing s := by
  intro id effect now res s' h
  obtain ⟨err, rfl, rfl⟩ | ⟨contract, r, draw, rfl, hget, hvalid, hdraw, hrun, rfl⟩ :=
    applyEffect_cases s h
  · exact Or.inl ⟨err, rfl, rfl⟩
  · exact Or.inr ⟨contract, r, rfl, ⟨hget, ⟨contract, draw, hget, hvalid, hdraw⟩, hrun⟩, rfl⟩

-- The chain stops at a step exactly when its transaction gets to commit an effect that passes
-- the checks and opens a stream to its own escrow account, stops a stream twice or stops one
-- that has ended. All other effects take effect as a whole or change nothing.
theorem chain_halts_iff {host : Host} (g : Genesis) {es : List Event} {s : MemState}
    (hkeyless : EveryStep host EscrowKeylessEvent g.state es)
    (hrun : run host g.state es = some s) {e : Event} (hevent : EscrowKeylessEvent s e)
    (hmax : ∀ id, e.contract s = some id → (escrowOf s id).toNat < 2 ^ 128 - 1) :
    AllOrNothing s ∧
    (step host s e = none ↔ ∃ tx s₁, e.action = .tx tx ∧ Prepares e.ctx tx s s₁ ∧
      HaltingEffect host e.ctx tx s₁) := by
  have hs := escrowed_run g.escrowed hkeyless hrun
  refine ⟨allOrNothing s, ?_⟩
  unfold step
  unfold Event.contract at hmax
  cases haction : e.action with
  | tx tx =>
    rw [haction] at hmax
    have hiff := @applyTx_eq_none_iff host e.ctx tx s hs (hevent tx haction) hmax
    rw [hiff]
    constructor
    · rintro ⟨s₁, hprepared, hhalts⟩
      exact ⟨tx, s₁, rfl, hprepared, hhalts⟩
    · rintro ⟨_, s₁, ⟨⟩, hprepared, hhalts⟩
      exact ⟨s₁, hprepared, hhalts⟩
  | sweeps => simp
  | refresh => simp

-- The interpreters agree on a stream from the escrow account of the contract to itself.
def loopingHost : Host :=
  Host.mock (.new .Human .High) (.new [.OpenStream (contractAddress 0) 1#128 10#128])

def fundedEscrow : List Event :=
  [ pay 0#64 2#160 0#64 0#128 (.DeployContract "" [2#160]),
    pay 0#64 1#160 0#64 1000#128 (.FundContract 0) ]

theorem chain_halts_looping : ∃ s,
    run loopingHost fundedPair.state fundedEscrow = some s ∧
    (AllOrNothing s ∧
      (step loopingHost s (pay 1#64 2#160 1#64 0#128 (.InvokeContract 0 0#256)) = none ↔
        ∃ tx s₁, (pay 1#64 2#160 1#64 0#128 (.InvokeContract 0 0#256)).action = .tx tx ∧
          Prepares (pay 1#64 2#160 1#64 0#128 (.InvokeContract 0 0#256)).ctx tx s s₁ ∧
            HaltingEffect loopingHost (pay 1#64 2#160 1#64 0#128 (.InvokeContract 0 0#256)).ctx tx
              s₁)) ∧
    step loopingHost s (pay 1#64 2#160 1#64 0#128 (.InvokeContract 0 0#256)) = none := by
  have hready : (run loopingHost fundedPair.state fundedEscrow).any (fun s =>
      s.prompt.nextContractId < 2 ^ 64 ∧ (escrowOf s 0).toNat < 2 ^ 128 - 1 ∧
        (step loopingHost s (pay 1#64 2#160 1#64 0#128 (.InvokeContract 0 0#256))).isNone) =
      true := by decide +kernel
  obtain ⟨s, hrun, hs⟩ := (Option.any_eq_true _ _).mp hready
  obtain ⟨hids, hescrow, hhalts⟩ := of_decide_eq_true hs
  refine ⟨s, hrun, chain_halts_iff fundedPair ?_ hrun ?_ ?_, Option.isNone_iff_eq_none.mp hhalts⟩
  · refine ⟨fun tx htx => ?_, fun o s₁ h₁ => ⟨fun tx htx => ?_, fun _ _ _ => trivial⟩⟩
    · cases htx
      exact ⟨ne_contractAddress (by decide), by decide +kernel⟩
    · cases htx
      have hdeployed : (step loopingHost fundedPair.state
          (pay 0#64 2#160 0#64 0#128 (.DeployContract "" [2#160]))).any (fun p =>
            p.2.prompt.nextContractId < 2 ^ 64) = true := by decide +kernel
      have hafter := any_of_some hdeployed h₁
      exact ⟨ne_contractAddress (by decide), of_decide_eq_true hafter⟩
  · intro tx htx
    cases htx
    exact ⟨ne_contractAddress (by decide), hids⟩
  · intro id hid
    cases hid
    exact hescrow

end Ubi2.Exec
