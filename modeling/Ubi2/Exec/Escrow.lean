import Ubi2.Exec.Supply
import Ubi2.Runtime.Contracts.Escrow

namespace Ubi2.Exec

open Ubi2.Runtime Ubi2.Runtime.Ledger Ubi2.Runtime.MemState Ubi2.Lib

-- The escrow on the record of a contract.
def escrowOf (s : MemState) (id : ContractId) : U128 :=
  ((s.getContract id).map PromptContract.escrow).getD 0#128

-- The contract that a transaction funds, invokes or submits an effect to.
def KernelTx.contract (tx : KernelTx) (s : MemState) : Option ContractId :=
  match tx.kind with
  | .FundContract id => some id
  | .InvokeContract id _ => some id
  | .SubmitEffect caseId _ => (s.getExecCase caseId).map ExecCase.contract
  | _ => none

def Event.contract (e : Event) (s : MemState) : Option ContractId :=
  match e.action with
  | .tx tx => tx.contract s
  | _ => none

-- What the fundings and effects of a contract have done to the balance of its escrow account
-- in a run.
def banked (host : Host) (id : ContractId) : MemState → List Event → Int
  | _, [] => 0
  | s, e :: es =>
    match step host s e with
    | none => 0
    | some (_, s') =>
      (if e.contract s = some id then
        ((s'.ledger.balance (contractAddress id) e.ctx.timestamp).toNat : Int) -
          (s.ledger.balance (contractAddress id) e.ctx.timestamp).toNat
      else 0) + banked host id s' es

-- An escrow account, which has no key, sends no transaction, and the ids of contracts fit a
-- word.
structure EscrowKeyless (tx : KernelTx) (s : MemState) : Prop where
  sender : ∀ id, tx.from_ ≠ contractAddress id
  ids : s.prompt.nextContractId < 2 ^ 64

def EscrowKeylessEvent (s : MemState) (e : Event) : Prop :=
  ∀ tx, e.action = .tx tx → EscrowKeyless tx s

-- Besides, an effect that takes effect pays nothing to the escrow account that it is paid
-- from, and nothing that the escrow account has, has lent to streams or receives is cut off.
structure EscrowSafe (host : Host) (ctx : BlockCtx) (tx : KernelTx) (s : MemState) : Prop
    extends EscrowKeyless tx s where
  outward : Charged ctx tx s → tx.nonce = nonceOf s tx.from_ →
    ∀ id effect, Commits host ctx tx s id effect → s.Accepts id effect →
      ∀ op ∈ effect.ops, ¬ op.PaysTo (contractAddress id)
  range : ∀ id, tx.contract s = some id →
    (s.ledger.balance (contractAddress id) ctx.timestamp).toNat +
      s.ledger.deposits (contractAddress id) + tx.draw.toNat < 2 ^ 128 - 1

def EscrowSafeEvent (host : Host) (s : MemState) (e : Event) : Prop :=
  ∀ tx, e.action = .tx tx → EscrowSafe host e.ctx tx s

-- A step changes the recorded escrow of the contract that it handles by what it changes the
-- balance of the escrow account, and no other recorded escrow.
structure InStep (e : Event) (s s' : MemState) (id : ContractId) : Prop where
  handled : e.contract s = some id →
    (s'.ledger.balance (contractAddress id) e.ctx.timestamp).toNat + (escrowOf s id).toNat =
      (s.ledger.balance (contractAddress id) e.ctx.timestamp).toNat + (escrowOf s' id).toNat
  other : e.contract s ≠ some id → escrowOf s' id = escrowOf s id

-- Contracts are given their ids in the order of their deployment.
def Assigned (s : MemState) : Prop :=
  ∀ id c, s.getContract id = some c → id < s.prompt.nextContractId

-- The escrow accounts cover the recorded escrows.
structure Escrowed (s : MemState) : Prop where
  booked : s.ledger.Booked
  assigned : Assigned s
  covered : ∀ id, escrowOf s id ≤ (s.account (contractAddress id)).settledBalance

theorem escrowOf_of_contracts {s s' : MemState} (h : s'.prompt.contracts = s.prompt.contracts) :
    escrowOf s' = escrowOf s := by
  funext id
  rw [escrowOf, escrowOf, getContract, getContract, ContractRegistry.getContract, h]
  rfl

theorem assigned_of_contracts {s s' : MemState} (hs : Assigned s)
    (h : s'.prompt.contracts = s.prompt.contracts)
    (hnext : s'.prompt.nextContractId = s.prompt.nextContractId) : Assigned s' := by
  intro id c hget
  rw [getContract, ContractRegistry.getContract, h] at hget
  rw [hnext]
  exact hs id c hget

theorem escrowOf_put {s s' : MemState} {c : PromptContract}
    (h : s'.prompt.contracts = s.prompt.contracts.put c) (id : ContractId) :
    escrowOf s' id = if c.id = id then c.escrow else escrowOf s id := by
  have hget : s'.getContract id = if c.id = id then some c else s.getContract id := by
    rw [getContract, ContractRegistry.getContract, h]
    exact Table.get_put _ _ _
  rw [escrowOf, hget]
  split_ifs
  · rfl
  · rfl

theorem assigned_put {s s' : MemState} (hs : Assigned s) {c : PromptContract}
    (h : s'.prompt.contracts = s.prompt.contracts.put c)
    (hnext : s.prompt.nextContractId ≤ s'.prompt.nextContractId)
    (hid : c.id < s'.prompt.nextContractId) : Assigned s' := by
  intro id c' hget
  have hput : s'.getContract id = if c.id = id then some c else s.getContract id := by
    rw [getContract, ContractRegistry.getContract, h]
    exact Table.get_put _ _ _
  rw [hput] at hget
  split_ifs at hget with heq
  · exact heq ▸ hid
  · exact (hs id c' hget).trans_le hnext

-- Authority to spend from one account, and over all that is not money.
def spender (a : Address) : Authority := { anyone with spends := fun b => b = a }

-- What the fee and the nonce of a transaction leave to the escrow accounts: all they have.
structure Spares (now : U64) (s s' : MemState) : Prop where
  prompt : s'.prompt = s.prompt
  outgoing : s'.ledger.outgoingIdx = s.ledger.outgoingIdx
  booked : s'.ledger.Booked
  settled : ∀ id, (s.account (contractAddress id)).settledBalance ≤
    (s'.account (contractAddress id)).settledBalance
  keeps : ∀ id, s.ledger.holding (contractAddress id) now < 2 ^ 128 →
    Keeps now (contractAddress id) s.ledger s'.ledger

-- What a step does to the recorded escrows, and to the account of the contract that it handles
-- where this one is safe.
structure Mirrored (now : U64) (contract : Option ContractId) (safe : Prop) (s s' : MemState) :
    Prop where
  escrowed : Escrowed s'
  same : ∀ id, contract ≠ some id → escrowOf s' id = escrowOf s id
  moved : safe → ∀ id, contract = some id →
    s'.ledger.holding (contractAddress id) now + (escrowOf s id).toNat =
        s.ledger.holding (contractAddress id) now + (escrowOf s' id).toNat ∧
      s'.ledger.holding (contractAddress id) now < 2 ^ 128

section Spares

variable {now : U64} {s s' s'' : MemState} {contract : Option ContractId} {safe safe' : Prop}

theorem Spares.refl (h : s.ledger.Booked) : Spares now s s :=
  ⟨rfl, rfl, h, fun _ => le_rfl, fun _ _ => .refl h⟩

theorem Spares.trans (h : Spares now s s') (h' : Spares now s' s'') : Spares now s s'' := by
  refine ⟨h'.prompt.trans h.prompt, h'.outgoing.trans h.outgoing, h'.booked,
    fun id => (h.settled id).trans (h'.settled id), fun id hmax => ?_⟩
  have hkeeps := h.keeps id hmax
  exact hkeeps.trans (h'.keeps id (by rw [hkeeps.holding]; exact hmax))

theorem spares_put (h : s.ledger.Booked) {x : Account} (hx : ∀ id, x.address ≠ contractAddress id) :
    Spares now s (s.put x) := by
  refine ⟨rfl, rfl, h.put x, fun id => ?_, fun id _ => (Keeps.refl h).put_ne (hx id)⟩
  rw [MemState.account, MemState.account, MemState.put, account_put_ne _ (hx id)]

theorem spares_settleIncoming (h : s.ledger.Booked) (a : Address) :
    Spares now s { s with ledger := s.ledger.settleIncoming a now } :=
  ⟨rfl, outgoingIdx_settleIncoming s.ledger a now,
    h.moves (moves_settleIncoming (w := anyone) s.ledger a),
    fun _ => settled_le_settleIncoming s.ledger a, fun _ hmax => keeps_settleIncoming h hmax a⟩

theorem spares_chargeFee {ctx : BlockCtx} (h : s.ledger.Booked) {a : Address} {gas : U64}
    {l : Ledger} {res : Except FeeError U128} (ha : ∀ id, a ≠ contractAddress id)
    (hfee : s.ledger.chargeFee a gas ctx.timestamp = (res, l)) :
    Spares ctx.timestamp s { s with ledger := l } := by
  have hmoves : Moves ctx.timestamp (signer a) s.ledger _ :=
    moves_chargeFee s.ledger gas fun _ => rfl
  have hkeeps := fun id hmax => @keeps_chargeFee ctx.timestamp _ _ h hmax _ gas (ha id)
    (contractAddress_ne_treasury id).symm
  rw [hfee] at hmoves hkeeps
  exact ⟨rfl, outgoingIdx_of_chargeFee hfee, h.moves hmoves,
    fun id => settled_le_of_moves hmoves fun heq => ha id heq.symm, hkeeps⟩

theorem Spares.escrowOf_eq (h : Spares now s s') : escrowOf s' = escrowOf s :=
  escrowOf_of_contracts (congrArg ContractRegistry.contracts h.prompt)

theorem Spares.escrowed (h : Spares now s s') (hs : Escrowed s) : Escrowed s' := by
  refine ⟨h.booked, assigned_of_contracts hs.assigned (congrArg _ h.prompt) (congrArg _ h.prompt),
    fun id => ?_⟩
  rw [h.escrowOf_eq]
  exact (hs.covered id).trans (h.settled id)

-- A step that leaves everything to the escrow accounts, where nothing is cut off.
theorem Spares.mirrored (h : Spares now s s') (hs : Escrowed s)
    (hmax : safe → ∀ id, contract = some id →
      s.ledger.holding (contractAddress id) now < 2 ^ 128) :
    Mirrored now contract safe s s' := by
  refine ⟨h.escrowed hs, fun id _ => by rw [h.escrowOf_eq], fun hsafe id hid => ?_⟩
  rw [(h.keeps id (hmax hsafe id hid)).holding, h.escrowOf_eq]
  exact ⟨rfl, hmax hsafe id hid⟩

theorem Mirrored.after (h : Mirrored now contract safe' s' s'') (hfirst : Spares now s s')
    (hsafe : safe → safe') (hmax : safe → ∀ id, contract = some id →
      s.ledger.holding (contractAddress id) now < 2 ^ 128) :
    Mirrored now contract safe s s'' := by
  refine ⟨h.escrowed, fun id hid => by rw [h.same id hid, hfirst.escrowOf_eq],
    fun hok id hid => ?_⟩
  have hmoved := h.moved (hsafe hok) id hid
  rwa [(hfirst.keeps id (hmax hok id hid)).holding, hfirst.escrowOf_eq] at hmoved

theorem Mirrored.before (h : Mirrored now contract safe s s') (hlast : Spares now s' s'') :
    Mirrored now contract safe s s'' := by
  refine ⟨hlast.escrowed h.escrowed, fun id hid => by rw [hlast.escrowOf_eq, h.same id hid],
    fun hok id hid => ?_⟩
  have hmoved := h.moved hok id hid
  rw [(hlast.keeps id hmoved.2).holding, hlast.escrowOf_eq]
  exact hmoved

-- A step that reaches no escrow account.
theorem mirrored_of_moves {a : Address} (hs : Escrowed s) (ha : ∀ id, a ≠ contractAddress id)
    (hmoves : Moves now (spender a) s.ledger s'.ledger) (hassigned : Assigned s')
    (hsame : escrowOf s' = escrowOf s) : Mirrored now none safe s s' := by
  refine ⟨⟨hs.booked.moves hmoves, hassigned, fun id => ?_⟩, fun id _ => by rw [hsame],
    fun _ id hid => by cases hid⟩
  rw [hsame]
  exact (hs.covered id).trans (settled_le_of_moves hmoves fun heq => ha id heq.symm)

end Spares

section Operations

variable {host : Host} {ctx : BlockCtx} {tx : KernelTx} {s s' : MemState}
variable {r : Except String OpResult}

theorem contract_of_escrows {id : ContractId} (h : Escrows tx s id) : tx.contract s = some id := by
  unfold Escrows at h
  unfold KernelTx.contract
  cases hk : tx.kind with
  | InvokeContract id' triggerRef =>
    simp only [hk] at h
    rw [h]
  | SubmitEffect caseId effect =>
    simp only [hk] at h
    obtain ⟨c, hc, rfl⟩ := h
    simp only [hc, Option.map_some]
  | _ => simp [hk] at h

theorem contract_eq_none (hplain : ∀ id, ¬ Escrows tx s id)
    (hfund : ∀ id, tx.kind ≠ .FundContract id) : tx.contract s = none := by
  unfold KernelTx.contract
  cases hk : tx.kind with
  | FundContract id => exact absurd hk (hfund id)
  | InvokeContract id triggerRef => exact absurd (by simp [Escrows, hk]) (hplain id)
  | SubmitEffect caseId effect =>
    cases hc : s.getExecCase caseId with
    | none => simp only [hc, Option.map_none]
    | some c => exact absurd (by simp [Escrows, hk, hc]) (hplain c.contract)
  | _ => rfl

-- The record of a deployment, as it is stamped.
theorem contracts_renderDeploy (s : MemState) (number : U64) (txHash : Hash) (text : String)
    (textRef : Hash) (parties : List Address) {p : Except String OpResult × MemState}
    (hp : renderDeploy number txHash (s.deployContract text textRef parties) = p) :
    p.2.prompt = s.prompt ∨
    ∃ c : PromptContract, c.id = s.prompt.nextContractId ∧ c.escrow = 0#128 ∧
      p.2.prompt.contracts = s.prompt.contracts.put c ∧
      p.2.prompt.nextContractId = s.prompt.nextContractId + 1 := by
  subst hp
  simp only [deployContract]
  split_ifs
  · exact Or.inl rfl
  · exact Or.inl rfl
  · exact Or.inl rfl
  · right
    have hget : (({ s with prompt :=
        { s.prompt with nextContractId := s.prompt.nextContractId + 1 } } : MemState).putContract
          (PromptContract.new s.prompt.nextContractId text textRef parties)).getContract
            s.prompt.nextContractId =
        some (PromptContract.new s.prompt.nextContractId text textRef parties) :=
      Table.get_put_self s.prompt.contracts
        (PromptContract.new s.prompt.nextContractId text textRef parties)
    simp only [renderDeploy, stampDeploy, hget]
    exact ⟨_, rfl, rfl, Table.put_put _ rfl, rfl⟩

-- An operation that reaches no escrow account leaves the contracts alone, or adds one that has
-- no escrow.
theorem prompt_hubOp (hplain : ∀ id, ¬ Escrows tx s id) (h : hubOp host ctx tx s = some (r, s')) :
    s'.prompt = s.prompt ∨
    ∃ c : PromptContract, c.id = s.prompt.nextContractId ∧ c.escrow = 0#128 ∧
      s'.prompt.contracts = s.prompt.contracts.put c ∧
      s'.prompt.nextContractId = s.prompt.nextContractId + 1 := by
  have hframe {p : MemState} (hp : Frame ctx.timestamp anyone s p) (hs' : s' = p) :
      s'.prompt = s.prompt := by
    rw [hs']
    exact hp.prompt
  unfold hubOp at h
  cases hk : tx.kind with
  | DeployContract text parties =>
    simp only [hk] at h
    exact contracts_renderDeploy s ctx.number tx.txHash text (textCommitment host text) parties
      (Option.some.inj h)
  | InvokeContract id triggerRef => exact absurd (by simp [Escrows, hk]) (hplain id)
  | SubmitEffect caseId effect =>
    simp only [hk] at h
    obtain ⟨res, s₁, hres, rfl⟩ := some_of_map h
    obtain ⟨e, -, rfl⟩ | ⟨c, c', s₂, hc, -⟩ := submitEffect_cases s hres
    · exact Or.inl rfl
    · exact absurd (by simp [Escrows, hk, hc]) (hplain c.contract)
  | Transfer to_ value =>
    simp only [hk] at h
    cases h
    exact Or.inl rfl
  | FundContract id =>
    simp only [hk] at h
    cases h
    exact Or.inl rfl
  | OpenStream to_ rate deposit =>
    simp only [hk] at h
    exact Or.inl (by rw [snd_of_render h])
  | StopStream id =>
    simp only [hk] at h
    obtain ⟨p, -, hr⟩ := Option.map_eq_some_iff.mp h
    exact Or.inl (by rw [snd_of_render (congrArg some hr)])
  | RequestVerification livenessRef =>
    simp only [hk] at h
    obtain ⟨p, hp, hr⟩ := Option.map_eq_some_iff.mp h
    obtain ⟨r₂, s₂, h₂, hmoves⟩ : ∃ r₂ s₂, _ = some (r₂, s₂) ∧ Frame ctx.timestamp anyone s s₂ :=
      frame_requestVerification s host.oracle host.usizeBits tx.from_ _
        (blockEntropy ctx.blockHash ctx.number) ctx.number
    rw [h₂] at hp
    cases hp
    exact Or.inl (hframe hmoves (snd_of_render (congrArg some hr)))
  | Vouch vouchee =>
    simp only [hk] at h
    exact Or.inl (hframe (frame_vouch s tx.from_ vouchee ctx.number) (snd_of_render h))
  | Challenge subject evidenceRef =>
    simp only [hk] at h
    exact Or.inl (hframe (frame_challengeInner s _ _ _ _ _ _ true) (snd_of_render h))
  | SubmitVerdict caseId verdict =>
    simp only [hk] at h
    exact Or.inl (hframe (frame_submitVerdict s (fun _ _ _ _ => trivial)
      (fun _ _ _ _ _ _ => trivial)) (snd_of_render h))
  | SubmitZkPassportProof submission =>
    simp only [hk] at h
    exact Or.inl (hframe (frame_submitZkPassportProof s _ _ tx.from_ submission ctx.timestamp
      ctx.number trivial) (snd_of_render h))
  | RegisterCsca countryCode keyId pubkey =>
    simp only [hk] at h
    exact Or.inl (hframe (frame_governed s _ _) (snd_of_render h))
  | RevokeCsca keyId =>
    simp only [hk] at h
    exact Or.inl (hframe (frame_governed s _ _) (snd_of_render h))
  | PinSelfIdentityRoot root =>
    simp only [hk] at h
    exact Or.inl (hframe (frame_governed s _ _) (snd_of_render h))
  | PinSelfOfacRoot kind root =>
    simp only [hk] at h
    exact Or.inl (hframe (frame_governed s _ _) (snd_of_render h))
  | RetireSelfRoot root =>
    simp only [hk] at h
    exact Or.inl (hframe (frame_governed s _ _) (snd_of_render h))

-- A case that is resolved changes nothing but its contract, by the effect that is committed.
theorem resolveCase_enacts {c c' : ExecCase} {block now : U64} {s₁ : MemState}
    (h : s.resolveCase c block now = some (c', s₁)) :
    s₁ = s ∨ ∃ effect contract run,
      tallyEffects c.effects c.jury.length QUORUM = some (.Committed effect) ∧
        s.Enacts c.contract effect now contract run ∧
        s₁ = { s with ledger := run.ledger }.putContract run.contract := by
  obtain rfl | ⟨effect, ht, ha⟩ := resolveCase_cases s h
  · exact Or.inl rfl
  · obtain ⟨e, hok, -⟩ | ⟨contract, run, draw, -, hget, hvalid, hdraw, hrun, rfl⟩ :=
      applyEffect_cases s ha
    · cases hok
    · exact Or.inr ⟨effect, contract, run, ht, ⟨hget, ⟨contract, draw, hget, hvalid, hdraw⟩, hrun⟩,
        rfl⟩

-- An operation that reaches an escrow account leaves the ledger and the contracts alone, or
-- enacts the effect that it commits.
theorem hubOp_enacts {id : ContractId} (hid : Escrows tx s id)
    (h : hubOp host ctx tx s = some (r, s')) :
    s'.prompt.nextContractId = s.prompt.nextContractId ∧
    (s'.ledger = s.ledger ∧ s'.prompt.contracts = s.prompt.contracts ∨
      ∃ effect contract run, Commits host ctx tx s id effect ∧
        s.Enacts id effect ctx.timestamp contract run ∧ s'.ledger = run.ledger ∧
        s'.prompt.contracts = s.prompt.contracts.put run.contract) := by
  unfold hubOp at h
  cases hk : tx.kind with
  | SubmitEffect caseId submitted =>
    simp only [hk] at h
    simp only [Escrows, hk] at hid
    obtain ⟨c₀, hc₀, rfl⟩ := hid
    obtain ⟨res, s₁, hres, rfl⟩ := some_of_map h
    obtain ⟨e, -, rfl⟩ | ⟨c, c', s₂, hc, -, -, -, hr, -, rfl⟩ := submitEffect_cases s hres
    · exact ⟨rfl, Or.inl ⟨rfl, rfl⟩⟩
    · cases hc₀.symm.trans hc
      obtain rfl | ⟨effect, contract, run, ht, henacts, rfl⟩ := resolveCase_enacts hr
      · exact ⟨rfl, Or.inl ⟨rfl, rfl⟩⟩
      · refine ⟨rfl, Or.inr ⟨effect, contract, run, ?_, henacts, rfl, rfl⟩⟩
        simp only [Commits, hk]
        exact ⟨_, hc, rfl, ht⟩
  | InvokeContract id' triggerRef =>
    simp only [hk] at h
    simp only [Escrows, hk] at hid
    subst hid
    obtain ⟨res, s₁, hres, rfl⟩ := some_of_map h
    obtain ⟨e, -, rfl⟩ | ⟨contract₀, c, c', s₂, hc, -, rfl, hr, -, rfl⟩ :=
      invokeContract_cases s hres
    · exact ⟨rfl, Or.inl ⟨rfl, rfl⟩⟩
    · obtain rfl | ⟨effect, contract, run, ht, henacts, rfl⟩ := resolveCase_enacts hr
      · exact ⟨rfl, Or.inl ⟨rfl, rfl⟩⟩
      · refine ⟨rfl, Or.inr ⟨effect, contract, run, ?_, ⟨henacts.get, henacts.accepts, henacts.ops⟩,
          rfl, rfl⟩⟩
        simp only [Commits, hk]
        exact ⟨contract₀, hc, trivial, tally_const ht⟩
  | _ => simp [Escrows, hk] at hid

-- The contract that a transaction handles is read off the contract registry.
theorem contract_congr (h : s'.prompt = s.prompt) : tx.contract s' = tx.contract s := by
  unfold KernelTx.contract
  cases hk : tx.kind with
  | SubmitEffect caseId effect => simp only [getExecCase, h]
  | _ => rfl

theorem mirrored_enacts {now : U64} {id : ContractId} {effect : CanonicalEffect}
    {contract : PromptContract} {run : EffectRun} {safe : Prop} (hs : Escrowed s)
    (hids : s.prompt.nextContractId < 2 ^ 64) (henacts : s.Enacts id effect now contract run)
    (hsafe : safe → (∀ op ∈ effect.ops, ¬ op.PaysTo (contractAddress id)) ∧
      s.ledger.holding (contractAddress id) now + s.ledger.deposits (contractAddress id) <
        2 ^ 128 - 1) (hledger : s'.ledger = run.ledger)
    (hput : s'.prompt.contracts = s.prompt.contracts.put run.contract)
    (hnext : s'.prompt.nextContractId = s.prompt.nextContractId) :
    Mirrored now (some id) safe s s' := by
  have hid := hs.assigned id contract henacts.get
  have hescrow : escrowOf s id = contract.escrow := by
    rw [escrowOf, henacts.get]
    rfl
  have hafter (id' : ContractId) :
      escrowOf s' id' = if id = id' then run.contract.escrow else escrowOf s id' := by
    rw [escrowOf_put hput, henacts.id_eq]
  have hcovered := hs.covered id
  rw [hescrow] at hcovered
  have hmoves : Moves now (spender (contractAddress id)) s.ledger run.ledger :=
    henacts.moves rfl trivial
  refine ⟨⟨?_, ?_, fun id' => ?_⟩, fun id' hne => ?_, fun hok id' heq => ?_⟩
  · rw [hledger]
    exact hs.booked.moves hmoves
  · exact assigned_put hs.assigned hput hnext.ge (by rw [henacts.id_eq, hnext]; exact hid)
  · rw [hafter, MemState.account, hledger]
    split_ifs with hsame
    · exact hsame ▸ henacts.covered hcovered
    · -- another contract that is deployed has another escrow account
      cases hget : s.getContract id' with
      | none =>
        rw [escrowOf, hget]
        exact BitVec.le_def.mpr (Nat.zero_le _)
      | some c =>
        have hid' := (hs.assigned id' c hget).trans hids
        exact (hs.covered id').trans (settled_le_of_moves hmoves fun haddr =>
          hsame (contractAddress_inj (hid.trans hids) hid' haddr.symm))
  · rw [hafter, if_neg fun h => hne (congrArg some h)]
  · cases heq
    rw [hafter, if_pos rfl, hescrow, hledger]
    exact henacts.mirrors hs.booked (hsafe hok).2 hcovered (hsafe hok).1

theorem mirrored_fundContract {now : U64} {a : Address} {id : ContractId} {amount : U128}
    {nonce : U64} {res : Except ContractError Unit} {safe : Prop} (hs : Escrowed s)
    (ha : ∀ id, a ≠ contractAddress id)
    (hmax : safe → s.ledger.holding (contractAddress id) now + amount.toNat < 2 ^ 128)
    (h : s.fundContract a id amount nonce now = (res, s')) : Mirrored now (some id) safe s s' := by
  have hbelow : safe → ∀ id', some id = some id' →
      s.ledger.holding (contractAddress id') now < 2 ^ 128 := by
    rintro hok id' ⟨⟩
    have hroom := hmax hok
    omega
  unfold fundContract at h
  cases hget : s.getContract id with
  | none =>
    rw [hget] at h
    cases h
    exact (Spares.refl hs.booked).mirrored hs hbelow
  | some contract =>
    rw [hget] at h
    dsimp only at h
    split_ifs at h with hterm
    · cases h
      exact (Spares.refl hs.booked).mirrored hs hbelow
    · cases hpaid : s.ledger.applyTransfer a (contractAddress id) amount nonce now with
      | mk res' l =>
        rw [hpaid] at h
        cases res' with
        | error e =>
          cases h
          rw [applyTransfer_error s.ledger hpaid]
          exact (spares_settleIncoming hs.booked a).mirrored hs hbelow
        | ok u =>
          cases h
          have hid := hs.assigned id contract hget
          have hkey : contract.id = id := Table.key_of_get hget
          have hescrow : escrowOf s id = contract.escrow := by
            rw [escrowOf, hget]
            rfl
          have hcovered := BitVec.le_def.mp (hs.covered id)
          rw [hescrow] at hcovered
          simp only [MemState.account] at hcovered
          have hmoves : Moves now (spender a) s.ledger l := moves_applyTransfer rfl trivial hpaid
          have hreceived := settled_applyTransfer_to (ha id) hpaid
          obtain ⟨s', hs'⟩ : ∃ s' : MemState, s' = ({ s with ledger := l } : MemState).putContract
            { contract with escrow := Word.satAdd contract.escrow amount } := ⟨_, rfl⟩
          rw [← hs']
          have hledger : s'.ledger = l := by rw [hs']; rfl
          have hput : s'.prompt.contracts = s.prompt.contracts.put
              { contract with escrow := Word.satAdd contract.escrow amount } := by rw [hs']; rfl
          have hnext : s'.prompt.nextContractId = s.prompt.nextContractId := by rw [hs']; rfl
          have hafter (id' : ContractId) : escrowOf s' id' =
              if id = id' then Word.satAdd contract.escrow amount else escrowOf s id' := by
            rw [escrowOf_put hput]
            dsimp only
            rw [hkey]
          refine ⟨⟨?_, ?_, fun id' => ?_⟩, fun id' hne => ?_, fun hok id' heq => ?_⟩
          · rw [hledger]
            exact hs.booked.moves hmoves
          · exact assigned_put hs.assigned hput hnext.ge (by rw [hnext]; exact hkey ▸ hid)
          · rw [hafter, MemState.account, hledger]
            split_ifs with hsame
            · subst hsame
              rw [BitVec.le_def]
              rw [Word.toNat_satAdd] at hreceived ⊢
              omega
            · exact (hs.covered id').trans (settled_le_of_moves hmoves fun haddr =>
                ha id' haddr.symm)
          · rw [hafter, if_neg fun h => hne (congrArg some h)]
          · cases heq
            have hroom := hmax hok
            obtain ⟨-, hheld, -⟩ := holding_applyTransfer_to hs.booked hroom (ha id) hpaid
            have hworth : (s.ledger.account (contractAddress id)).settledBalance.toNat ≤
                s.ledger.holding (contractAddress id) now := by
              rw [holding, Account.worth]
              omega
            rw [hafter, if_pos rfl, hescrow, hledger, hheld, Word.toNat_satAdd]
            omega

-- Where the effects of a transaction pay nothing to the account that they are paid from, and
-- nothing that this account has, has lent or receives is cut off.
structure Uncut (host : Host) (ctx : BlockCtx) (tx : KernelTx) (s : MemState) : Prop where
  outward : tx.nonce = nonceOf s tx.from_ → ∀ id effect, Commits host ctx tx s id effect →
    s.Accepts id effect → ∀ op ∈ effect.ops, ¬ op.PaysTo (contractAddress id)
  range : ∀ id, tx.contract s = some id →
    s.ledger.holding (contractAddress id) ctx.timestamp +
      s.ledger.deposits (contractAddress id) + tx.draw.toNat < 2 ^ 128 - 1

theorem Uncut.below (h : Uncut host ctx tx s) (id : ContractId) (hid : tx.contract s = some id) :
    s.ledger.holding (contractAddress id) ctx.timestamp < 2 ^ 128 := by
  have hroom := h.range id hid
  omega

-- A condition that the fee and the nonce leave as it is.
theorem Uncut.spared (h : Uncut host ctx tx s) (hspares : Spares ctx.timestamp s s')
    (hnonce : tx.nonce = nonceOf s' tx.from_ → tx.nonce = nonceOf s tx.from_) :
    Uncut host ctx tx s' := by
  refine ⟨fun hcurrent id effect hcommits haccepts => ?_, fun id hid => ?_⟩
  · exact h.outward (hnonce hcurrent) id effect
      (hcommits.congr hspares.prompt hspares.outgoing)
      (haccepts.congr hspares.prompt hspares.outgoing)
  · rw [contract_congr hspares.prompt] at hid
    have hkeeps := hspares.keeps id (h.below id hid)
    have hroom := h.range id hid
    have hheld := hkeeps.holding
    have hlent := hkeeps.deposits
    omega

theorem mirrored_hubOp (hs : Escrowed s) (hkeyless : EscrowKeyless tx s)
    (hfund : ∀ id, tx.kind ≠ .FundContract id) (h : hubOp host ctx tx s = some (r, s')) :
    Mirrored ctx.timestamp (tx.contract s) ((∀ id effect, Commits host ctx tx s id effect →
      s.Accepts id effect → ∀ op ∈ effect.ops, ¬ op.PaysTo (contractAddress id)) ∧
        ∀ id, tx.contract s = some id → s.ledger.holding (contractAddress id) ctx.timestamp +
          s.ledger.deposits (contractAddress id) + tx.draw.toNat < 2 ^ 128 - 1) s s' := by
  by_cases hreach : ∃ id, Escrows tx s id
  · obtain ⟨id, hid⟩ := hreach
    have hcontract := contract_of_escrows hid
    rw [hcontract]
    obtain ⟨hnext, ⟨hledger, hcontracts⟩ |
      ⟨effect, contract, run, hcommits, henacts, hledger, hput⟩⟩ := hubOp_enacts hid h
    · have hsame := escrowOf_of_contracts hcontracts
      refine ⟨⟨hledger ▸ hs.booked, assigned_of_contracts hs.assigned hcontracts hnext,
        fun id' => ?_⟩, fun id' _ => by rw [hsame], ?_⟩
      · rw [hsame, MemState.account, hledger]
        exact hs.covered id'
      · rintro ⟨-, hmax⟩ id' ⟨⟩
        have hroom := hmax id rfl
        rw [hsame, hledger]
        exact ⟨rfl, by omega⟩
    · refine mirrored_enacts hs hkeyless.ids henacts (fun hok => ?_) hledger hput hnext
      have hroom := hok.2 id rfl
      exact ⟨hok.1 id effect hcommits henacts.accepts, by omega⟩
  · have hplain (id : ContractId) : ¬ Escrows tx s id := fun hid => hreach ⟨id, hid⟩
    rw [contract_eq_none hplain hfund]
    have hallows : Allows (spender tx.from_) ctx tx s :=
      { sender := rfl
        escrowSpends := fun id hid => absurd hid (hplain id)
        escrowRenonces := fun id hid => absurd hid (hplain id)
        revoke := fun _ => trivial
        verify := fun _ => trivial
        restore := fun _ _ _ _ => trivial }
    have hmoves := moves_hubOp hallows.needs h
    obtain hprompt | ⟨c, hid, hescrow, hput, hnext⟩ := prompt_hubOp hplain h
    · have hcontracts := congrArg ContractRegistry.contracts hprompt
      exact mirrored_of_moves hs hkeyless.sender hmoves
        (assigned_of_contracts hs.assigned hcontracts (congrArg _ hprompt))
        (escrowOf_of_contracts hcontracts)
    · have hassigned := assigned_put hs.assigned hput (hnext ▸ Nat.le_succ _)
        (hid ▸ hnext ▸ Nat.lt_succ_self _)
      refine mirrored_of_moves hs hkeyless.sender hmoves hassigned (funext fun id => ?_)
      rw [escrowOf_put hput]
      split_ifs with heq
      · -- no contract had the id of the new one
        rw [hescrow, escrowOf]
        cases hget : s.getContract id with
        | none => rfl
        | some c' => exact absurd (hs.assigned id c' hget) (heq ▸ hid ▸ lt_irrefl _)
      · rfl

theorem mirrored_applyOne (hs : Escrowed s) (hkeyless : EscrowKeyless tx s)
    (h : applyOne host ctx tx s = some (r, s')) :
    Mirrored ctx.timestamp (tx.contract s) (Uncut host ctx tx s) s s' := by
  unfold applyOne at h
  split at h
  · rename_i to_ value hk
    have hnone : tx.contract s = none := by simp only [KernelTx.contract, hk]
    cases hpaid : s.ledger.applyTransfer tx.from_ to_ value tx.nonce ctx.timestamp with
    | mk res l =>
      have hmoves : Moves ctx.timestamp (spender tx.from_) s.ledger l :=
        moves_applyTransfer rfl trivial hpaid
      rw [hpaid] at h
      rw [snd_of_render h, hnone]
      exact mirrored_of_moves hs hkeyless.sender hmoves hs.assigned rfl
  · rename_i id hk
    have hcontract : tx.contract s = some id := by simp only [KernelTx.contract, hk]
    have hdraw : tx.draw = tx.value := by simp only [KernelTx.draw, hk]
    cases hfunded : s.fundContract tx.from_ id tx.value tx.nonce ctx.timestamp with
    | mk res s₁ =>
      rw [hfunded] at h
      rw [snd_of_render h, hcontract]
      refine mirrored_fundContract hs hkeyless.sender (fun hok => ?_) hfunded
      have hroom := hok.range id hcontract
      rw [hdraw] at hroom
      omega
  · rename_i hfund
    cases hconsume : consumeNonce s tx.from_ tx.nonce ctx.timestamp with
    | mk res s₁ =>
      rw [hconsume] at h
      cases res with
      | error e =>
        cases h
        rw [consumeNonce_error hconsume]
        exact (Spares.refl hs.booked).mirrored hs Uncut.below
      | ok u =>
        obtain ⟨hnonce, hs₁⟩ := consumeNonce_ok hconsume
        have hspares : Spares ctx.timestamp s s₁ := by
          rw [hs₁]
          exact spares_put hs.booked (by simpa [MemState.account] using hkeyless.sender)
        have hcontract : tx.contract s₁ = tx.contract s := contract_congr hspares.prompt
        have hmirrored := mirrored_hubOp (hspares.escrowed hs)
          ⟨hkeyless.sender, by rw [hspares.prompt]; exact hkeyless.ids⟩ hfund h
        rw [hcontract] at hmirrored
        refine hmirrored.after hspares (fun hok => ⟨?_, ?_⟩) Uncut.below
        · exact fun id effect hcommits haccepts =>
            hok.outward hnonce id effect (hcommits.congr hspares.prompt hspares.outgoing)
              (haccepts.congr hspares.prompt hspares.outgoing)
        · intro id hid
          exact (hok.spared hspares fun _ => hnonce).range id (by rw [hcontract]; exact hid)

theorem spares_failTx (h : s.ledger.Booked) (hfrom : ∀ id, tx.from_ ≠ contractAddress id) :
    Spares ctx.timestamp s (failTx ctx tx s) :=
  spares_put h (by simpa [MemState.account] using hfrom)

-- The same, of a transaction before its fee is dealt with.
theorem mirrored_applyTx {o : Option OpOutcome} (hs : Escrowed s) (hkeyless : EscrowKeyless tx s)
    (h : applyTx host ctx tx s = some (o, s')) :
    Mirrored ctx.timestamp (tx.contract s) (EscrowSafe host ctx tx s) s s' := by
  have hrange (hsafe : EscrowSafe host ctx tx s) (id : ContractId) (hid : tx.contract s = some id) :
      s.ledger.holding (contractAddress id) ctx.timestamp +
        s.ledger.deposits (contractAddress id) + tx.draw.toNat < 2 ^ 128 - 1 := by
    have hroom := hsafe.range id hid
    have hheld := hs.booked.holding_eq (contractAddress id) ctx.timestamp (by omega)
    omega
  have hbelow (hsafe : EscrowSafe host ctx tx s) (id : ContractId) (hid : tx.contract s = some id) :
      s.ledger.holding (contractAddress id) ctx.timestamp < 2 ^ 128 := by
    have hroom := hrange hsafe id hid
    omega
  obtain ⟨e, l, hfee, -, rfl⟩ | ⟨fee, l, r, s₁, hfee, hone, -, rfl⟩ := applyTx_cases h
  · exact (spares_chargeFee hs.booked hkeyless.sender hfee).mirrored hs hbelow
  · have hspares := spares_chargeFee hs.booked hkeyless.sender hfee
    have hcontract : tx.contract { s with ledger := l } = tx.contract s := contract_congr rfl
    have hmirrored := mirrored_applyOne (hspares.escrowed hs) ⟨hkeyless.sender, hkeyless.ids⟩ hone
    rw [hcontract] at hmirrored
    have hdone : Mirrored ctx.timestamp (tx.contract s) (EscrowSafe host ctx tx s) s s₁ := by
      refine hmirrored.after hspares (fun hsafe => ⟨fun hnonce id effect hcommits haccepts => ?_,
        fun id hid => ?_⟩) hbelow
      · rw [nonceOf_of_chargeFee hfee] at hnonce
        exact hsafe.outward ⟨fee, by rw [hfee]⟩ hnonce id effect
          (hcommits.congr hspares.prompt hspares.outgoing)
          (haccepts.congr hspares.prompt hspares.outgoing)
      · rw [hcontract] at hid
        have hkeeps := hspares.keeps id (hbelow hsafe id hid)
        have hroom := hrange hsafe id hid
        have hheld := hkeeps.holding
        have hlent := hkeeps.deposits
        omega
    cases r with
    | ok result => exact hdone
    | error e => exact hdone.before (spares_failTx hdone.escrowed.booked hkeyless.sender)

end Operations

section Run

variable {host : Host} {s s' : MemState} {e : Event} {es : List Event} {o : Option OpOutcome}

theorem EscrowSafeEvent.keyless (h : EscrowSafeEvent host s e) : EscrowKeylessEvent s e :=
  fun tx htx => (h tx htx).toEscrowKeyless

theorem mirrored_step (hs : Escrowed s) (hkeyless : EscrowKeylessEvent s e)
    (h : step host s e = some (o, s')) :
    Mirrored e.ctx.timestamp (e.contract s) (EscrowSafeEvent host s e) s s' := by
  unfold step at h
  unfold Event.contract
  cases haction : e.action with
  | tx tx =>
    rw [haction] at h
    have hmirrored := mirrored_applyTx hs (hkeyless tx haction) h
    exact ⟨hmirrored.escrowed, hmirrored.same, fun hsafe => hmirrored.moved (hsafe tx haction)⟩
  | sweeps =>
    rw [haction] at h
    cases h
    have hframe : Frame e.ctx.timestamp (spender TREASURY) s (runSweeps host e.ctx s) :=
      frame_runSweeps host s e.ctx fun _ => trivial
    have hcontracts := congrArg ContractRegistry.contracts hframe.prompt
    exact mirrored_of_moves hs (fun id => (contractAddress_ne_treasury id).symm) hframe.moves
      (assigned_of_contracts hs.assigned hcontracts (congrArg _ hframe.prompt))
      (escrowOf_of_contracts hcontracts)
  | refresh =>
    rw [haction] at h
    cases h
    exact mirrored_of_moves hs (fun id => (contractAddress_ne_treasury id).symm) .refl hs.assigned
      rfl

-- The step of the two records of one escrow.
theorem inStep_step (hs : Escrowed s) (hsafe : EscrowSafeEvent host s e)
    (h : step host s e = some (o, s')) (id : ContractId) : InStep e s s' id := by
  have hmirrored := mirrored_step hs hsafe.keyless h
  refine ⟨fun hid => ?_, hmirrored.same id⟩
  obtain ⟨hmoved, hmax⟩ := hmirrored.moved hsafe id hid
  have hbelow : s.ledger.holding (contractAddress id) e.ctx.timestamp < 2 ^ 128 := by
    cases haction : e.action with
    | tx tx =>
      rw [Event.contract, haction] at hid
      have hrange := (hsafe tx haction).range id hid
      have hheld := hs.booked.holding_eq (contractAddress id) e.ctx.timestamp
        (by omega)
      omega
    | sweeps => simp [Event.contract, haction] at hid
    | refresh => simp [Event.contract, haction] at hid
  rw [hmirrored.escrowed.booked.toNat_balance_eq hmax, hs.booked.toNat_balance_eq hbelow]
  exact hmoved

theorem escrowed_run (hs : Escrowed s) (hkeyless : EveryStep host EscrowKeylessEvent s es)
    (hrun : run host s es = some s') : Escrowed s' :=
  EveryStep.invariant (I := Escrowed)
    (fun _ _ _ _ he hs hstep => (mirrored_step hs he hstep).escrowed) hkeyless hrun hs

-- Over a run, a recorded escrow changes by what is banked.
theorem escrowOf_run (hs : Escrowed s) (hsafe : EveryStep host (EscrowSafeEvent host) s es)
    (hrun : run host s es = some s') (id : ContractId) :
    ((escrowOf s' id).toNat : Int) = (escrowOf s id).toNat + banked host id s es := by
  induction es generalizing s with
  | nil =>
    cases hrun
    simp [banked]
  | cons e es ih =>
    rw [run] at hrun
    rw [banked]
    cases he : step host s e with
    | none => simp [he] at hrun
    | some p =>
      obtain ⟨o, s₁⟩ := p
      rw [he] at hrun
      have hstep := inStep_step hs hsafe.1 he id
      have hafter := (mirrored_step hs hsafe.1.keyless he).escrowed
      have hrest := ih hafter (hsafe.2 o s₁ he) hrun
      dsimp only
      split_ifs with hid
      · have hmoved := hstep.handled hid
        omega
      · rw [hstep.other hid] at hrest
        omega

-- Every step of a run is in step.
def InSteps (host : Host) : MemState → List Event → Prop :=
  EveryStep host fun s e => ∀ o s', step host s e = some (o, s') → ∀ id, InStep e s s' id

theorem inSteps_run (hs : Escrowed s) (hsafe : EveryStep host (EscrowSafeEvent host) s es) :
    InSteps host s es := by
  induction es generalizing s with
  | nil => trivial
  | cons e es ih =>
    refine ⟨fun o s' hstep => inStep_step hs hsafe.1 hstep, fun o s' hstep => ?_⟩
    exact ih (mirrored_step hs hsafe.1.keyless hstep).escrowed (hsafe.2 o s' hstep)

-- The recorded escrows are what is banked, and the escrow accounts cover them at any time.
def Backed (host : Host) (s₀ : MemState) (es : List Event) : Prop :=
  ∀ s, run host s₀ es = some s → ∀ id,
    ((escrowOf s id).toNat : Int) = banked host id s₀ es ∧
      ∀ now, escrowOf s id ≤ s.ledger.balance (contractAddress id) now

-- The displayed balance of an account is no less than what it has settled.
theorem settled_le_displayed (l : Ledger) (a : Address) (now : U64) :
    (l.account a).settledBalance ≤ l.balance a now :=
  ((l.account a).settledBalance_le_balance now).trans (balance_le_displayed l)

end Run

theorem Genesis.prompt (g : Genesis) : g.state.prompt = {} := by
  have hjurors : ∀ s : MemState,
      (g.jurors.foldl (fun s j => s.registerJuror j.1 j.2) s).prompt = s.prompt :=
    Run.foldl_keeps (f := fun s j => s.registerJuror j.1 j.2) MemState.prompt (fun _ _ => rfl)
      g.jurors
  have hhumans : ∀ s : MemState, (g.humans.foldl (seedHuman g.time) s).prompt = s.prompt :=
    Run.foldl_keeps (f := seedHuman g.time) MemState.prompt (fun _ _ => rfl) g.humans
  have haccounts : ∀ s : MemState, (g.accounts.foldl seedAccount s).prompt = s.prompt :=
    Run.foldl_keeps (f := seedAccount) MemState.prompt (fun _ _ => rfl) g.accounts
  simp only [Genesis.state, hjurors, hhumans, haccounts]

-- A genesis has no contracts.
theorem Genesis.getContract (g : Genesis) (id : ContractId) : g.state.getContract id = none := by
  rw [MemState.getContract, g.prompt]
  rfl

theorem Genesis.escrowed (g : Genesis) : Escrowed g.state := by
  refine ⟨g.booked, fun id c hget => ?_, fun id => ?_⟩
  · simp [g.getContract] at hget
  · rw [escrowOf, g.getContract]
    exact BitVec.le_def.mpr (Nat.zero_le _)

-- Whatever its effects do, the balance of an escrow account that sends nothing covers the escrow
-- on the record.
theorem escrow_covered {host : Host} (g : Genesis) {es : List Event} {s : MemState}
    (hkeyless : EveryStep host EscrowKeylessEvent g.state es)
    (hrun : run host g.state es = some s) (id : ContractId) (now : U64) :
    escrowOf s id ≤ s.ledger.balance (contractAddress id) now :=
  ((escrowed_run g.escrowed hkeyless hrun).covered id).trans
    (settled_le_displayed s.ledger (contractAddress id) now)

-- In a run where no escrow account is paid by its own effects, sends a transaction or reaches
-- the largest balance, the balance of the escrow account of each contract covers the escrow on
-- its record, which is what fundings and effects have left of it. Each of them changes both by
-- the same amount, and nothing else changes the record.
theorem escrow_in_step {host : Host} (g : Genesis) {es : List Event}
    (hsafe : EveryStep host (EscrowSafeEvent host) g.state es) :
    Backed host g.state es ∧ InSteps host g.state es := by
  refine ⟨fun s hrun id => ⟨?_, escrow_covered g (hsafe.imp fun _ _ h => h.keyless) hrun id⟩,
    inSteps_run g.escrowed hsafe⟩
  have hbanked := escrowOf_run g.escrowed hsafe hrun id
  have hnone : escrowOf g.state id = 0#128 := by
    rw [escrowOf, g.getContract]
    rfl
  rw [hnone] at hbanked
  simpa using hbanked

theorem ne_contractAddress {a : Address} (h : a.getLsbD 64 = false) (id : ContractId) :
    a ≠ contractAddress id := by
  rintro rfl
  simp [contractAddress] at h

def payingHost : Host := Host.mock (.new .Human .High) (.new [.Transfer 5#160 10#128])

-- A contract is deployed, funded and invoked, and pays an account.
def paidEscrow : List Event :=
  [ pay 0#64 2#160 0#64 0#128 (.DeployContract "" [2#160]),
    pay 0#64 1#160 0#64 1000#128 (.FundContract 0),
    pay 1#64 2#160 1#64 0#128 (.InvokeContract 0 0#256) ]

private theorem escrowSafe_paying {ctx : BlockCtx} {tx : KernelTx} {s : MemState}
    (hfrom : tx.from_.getLsbD 64 = false) (hkind : ∀ caseId e, tx.kind ≠ .SubmitEffect caseId e)
    (hready : s.prompt.nextContractId < 2 ^ 64 ∧ (∀ id, tx.contract s = some id →
      (s.ledger.balance (contractAddress id) ctx.timestamp).toNat +
        s.ledger.deposits (contractAddress id) + tx.draw.toNat < 2 ^ 128 - 1)) :
    EscrowSafe payingHost ctx tx s := by
  refine ⟨⟨ne_contractAddress hfrom, hready.1⟩, fun _ _ id effect hcommits _ op hop hpays => ?_,
    hready.2⟩
  unfold Commits at hcommits
  cases hk : tx.kind with
  | SubmitEffect caseId e => exact hkind caseId e hk
  | InvokeContract contractId triggerRef =>
    simp only [hk] at hcommits
    obtain ⟨_, _, _, rfl⟩ := hcommits
    simp only [payingHost, Host.mock, CanonicalEffect.new, List.mem_singleton] at hop
    subst hop
    exact ne_contractAddress (by decide) id hpays.1
  | _ => simp [hk] at hcommits

-- What holds of the state that a step leads to, by evaluation.
theorem any_of_some {α : Type} {p : α → Bool} {x : Option α} {a : α} (h : x.any p = true)
    (hx : x = some a) : p a = true := by
  rw [hx] at h
  exact h

def fundedPair : Genesis := fundedChain [(1#160, UBI), (2#160, UBI)]

theorem escrow_in_step_paid :
    (Backed payingHost fundedPair.state paidEscrow ∧
      InSteps payingHost fundedPair.state paidEscrow) ∧
    ∃ s, run payingHost fundedPair.state paidEscrow = some s ∧ escrowOf s 0 = 990#128 := by
  refine ⟨escrow_in_step fundedPair ?_, ?_⟩
  · refine ⟨fun tx htx => ?_, fun o s₁ h₁ => ⟨fun tx htx => ?_, fun o s₂ h₂ =>
      ⟨fun tx htx => ?_, fun _ _ _ => trivial⟩⟩⟩
    · cases htx
      refine escrowSafe_paying (by decide) (by intro _ _ h; cases h)
        ⟨by decide +kernel, fun id hid => ?_⟩
      cases hid
    · cases htx
      have hready : (step payingHost fundedPair.state
          (pay 0#64 2#160 0#64 0#128 (.DeployContract "" [2#160]))).any (fun p =>
            p.2.prompt.nextContractId < 2 ^ 64 ∧
              (p.2.ledger.balance (contractAddress 0) 0#64).toNat +
                p.2.ledger.deposits (contractAddress 0) + 1000 < 2 ^ 128 - 1) = true := by
        decide +kernel
      have hafter := any_of_some hready h₁
      obtain ⟨hids, hrange⟩ := of_decide_eq_true hafter
      refine escrowSafe_paying (by decide) (by intro _ _ h; cases h) ⟨hids, fun id hid => ?_⟩
      cases hid
      exact hrange
    · cases htx
      have hready : ((step payingHost fundedPair.state
          (pay 0#64 2#160 0#64 0#128 (.DeployContract "" [2#160]))).bind fun p =>
            step payingHost p.2 (pay 0#64 1#160 0#64 1000#128 (.FundContract 0))).any (fun p =>
            p.2.prompt.nextContractId < 2 ^ 64 ∧
              (p.2.ledger.balance (contractAddress 0) 1#64).toNat +
                p.2.ledger.deposits (contractAddress 0) + 0 < 2 ^ 128 - 1) = true := by
        decide +kernel
      have hboth : ((step payingHost fundedPair.state
          (pay 0#64 2#160 0#64 0#128 (.DeployContract "" [2#160]))).bind fun p =>
            step payingHost p.2 (pay 0#64 1#160 0#64 1000#128 (.FundContract 0))) =
          some (o, s₂) := by
        rw [h₁]
        exact h₂
      have hafter := any_of_some hready hboth
      obtain ⟨hids, hrange⟩ := of_decide_eq_true hafter
      refine escrowSafe_paying (by decide) (by intro _ _ h; cases h) ⟨hids, fun id hid => ?_⟩
      cases hid
      exact hrange
  · have hrun : (run payingHost fundedPair.state paidEscrow).any (fun s => escrowOf s 0 = 990#128) =
        true := by decide +kernel
    obtain ⟨s, hs, hescrow⟩ := (Option.any_eq_true _ _).mp hrun
    exact ⟨s, hs, of_decide_eq_true hescrow⟩

end Ubi2.Exec
