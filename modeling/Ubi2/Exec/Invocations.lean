import Ubi2.Exec.Escrow
import Ubi2.Exec.Registers
import Ubi2.Exec.Restorable

namespace Ubi2.Exec

open Ubi2.Runtime Ubi2.Runtime.Ledger Ubi2.Runtime.MemState Ubi2.Lib

-- An invocation that was carried out.
structure Invocation where
  contract : ContractId
  triggerRef : Hash
  invoker : Address
  block : U64
deriving DecidableEq

def invocationOf (ctx : BlockCtx) (tx : KernelTx) : Option Invocation :=
  match tx.kind with
  | .InvokeContract id triggerRef => some ⟨id, triggerRef, tx.from_, ctx.number⟩
  | _ => none

def invoked (e : Event) (o : Option OpOutcome) : List Invocation :=
  match e.action with
  | .tx tx => if o.any OpOutcome.success then (invocationOf e.ctx tx).toList else []
  | _ => []

-- Those of a run, in their order.
def invocations (host : Host) : MemState → List Event → List Invocation
  | _, [] => []
  | s, e :: es =>
    match step host s e with
    | none => []
    | some (o, s') => invoked e o ++ invocations host s' es

def invocationIn (c : ExecCase) : Invocation := ⟨c.contract, c.triggerRef, c.invoker, c.openedAt⟩

-- What a contract is deployed with for good.
def termsOf (c : PromptContract) : ContractId × String × Hash × List Address :=
  (c.id, c.text, c.textRef, c.parties)

-- All of the jury has given this answer, which is the outcome or leads to none.
structure Concluded (c : ExecCase) (answer : CanonicalEffect) : Prop where
  effects : c.effects = c.jury.map fun juror => (juror, answer)
  resolved : c.resolvedAt = some c.openedAt
  outcome : c.status = .Aborted ∨
    (c.status = .Committed answer ∧ answer.isAbort = false ∧ QUORUM ≤ c.jury.length)

-- The case is decided by what the interpreter makes of the text of its contract.
structure Answered (host : Host) (jurors : List Address) (contracts : List PromptContract)
    (c : ExecCase) : Prop where
  jury : c.jury.Nodup ∧ c.jury ≠ []
  jurors : ∀ juror ∈ c.jury, juror ∈ jurors
  answer : ∃ contract ∈ contracts, ∃ view : ContractStateView, contract.id = c.contract ∧
    view.contractId = c.contract ∧ view.parties = contract.parties ∧
    Concluded c (host.interpreter.interpret (strBytes contract.text) view
      (deriveTrigger host c.triggerRef))

-- What the invocations make of the contract registry: a case for each, in their order.
structure Logged (host : Host) (jurors : List Address) (s : MemState) (is : List Invocation) :
    Prop where
  next : s.prompt.nextExecCaseId = is.length
  journal : ∀ k, (s.getExecCase k).map invocationIn = is[k]?
  cases : ∀ c ∈ s.prompt.execCases.rows, Answered host jurors s.prompt.contracts.rows c
  assigned : Assigned s

-- Contracts keep their terms, and cases stay as they are.
structure Lasts (s s' : MemState) : Prop where
  contracts : ∀ c ∈ s.prompt.contracts.rows, ∃ c' ∈ s'.prompt.contracts.rows,
    termsOf c' = termsOf c
  cases : ∀ c ∈ s.prompt.execCases.rows, c ∈ s'.prompt.execCases.rows

section
variable {host : Host} {ctx : BlockCtx} {tx : KernelTx} {s s' s'' : MemState}
variable {jurors : List Address} {is : List Invocation} {now block : U64} {c c' : ExecCase}
variable {contract x : PromptContract} {answer : CanonicalEffect}

namespace Lasts

theorem refl : Lasts s s := ⟨fun c hc => ⟨c, hc, rfl⟩, fun _ hc => hc⟩

theorem trans (h : Lasts s s') (h' : Lasts s' s'') : Lasts s s'' := by
  refine ⟨fun c hc => ?_, fun c hc => h'.cases c (h.cases c hc)⟩
  obtain ⟨c', hc', hterms⟩ := h.contracts c hc
  obtain ⟨c'', hc'', hterms'⟩ := h'.contracts c' hc'
  exact ⟨c'', hc'', hterms'.trans hterms⟩

theorem of_prompt (h : s'.prompt = s.prompt) : Lasts s s' := by
  refine ⟨?_, ?_⟩
  · rw [h]
    exact fun c hc => ⟨c, hc, rfl⟩
  · rw [h]
    exact fun _ hc => hc

-- A contract is written back with the terms it had.
theorem of_put (hput : s'.prompt.contracts = s.prompt.contracts.put x)
    (hterms : ∀ c, s.getContract x.id = some c → termsOf x = termsOf c)
    (hcases : ∀ c ∈ s.prompt.execCases.rows, c ∈ s'.prompt.execCases.rows) : Lasts s s' := by
  refine ⟨fun c hc => ?_, hcases⟩
  rw [hput]
  by_cases hid : c.id = x.id
  · refine ⟨x, Table.mem_put.mpr (Or.inl rfl), hterms c ?_⟩
    rw [← hid]
    exact Table.get_of_mem hc
  · exact ⟨c, Table.mem_put.mpr (Or.inr ⟨hc, hid⟩), rfl⟩

end Lasts

theorem terms_applyOp {e : Address} {r r' : EffectRun} {op : Op}
    (h : applyOp e now r op = some r') : termsOf r'.contract = termsOf r.contract := by
  unfold applyOp at h
  split at h
  · split at h <;> cases h
    rfl
  · split at h <;> cases h
    rfl
  · split at h <;> cases h
    rfl
  · split at h <;> cases h
    rfl
  · cases h
    rfl
  · cases h

theorem terms_applyOps {e : Address} {r r' : EffectRun} {ops : List Op}
    (h : MemState.applyOps e now r ops = some r') : termsOf r'.contract = termsOf r.contract := by
  induction ops generalizing r with
  | nil =>
    cases h
    rfl
  | cons op ops ih =>
    rw [MemState.applyOps] at h
    cases hop : applyOp e now r op with
    | none => simp [hop] at h
    | some r₁ =>
      rw [hop] at h
      exact (ih h).trans (terms_applyOp hop)

-- What an operation may do to the contracts, as long as it enters no case.
structure Enacted (s s' : MemState) : Prop where
  execCases : s'.prompt.execCases = s.prompt.execCases
  next : s'.prompt.nextExecCaseId = s.prompt.nextExecCaseId
  assigned : Assigned s'
  lasts : Lasts s s'

theorem Enacted.of_prompt (hs : Assigned s) (h : s'.prompt = s.prompt) : Enacted s s' := by
  refine ⟨by rw [h], by rw [h], ?_, .of_prompt h⟩
  exact assigned_of_contracts hs (by rw [h]) (by rw [h])

theorem Enacted.of_put (hs : Assigned s) (hget : s.getContract x.id = some contract)
    (hterms : termsOf x = termsOf contract) (h : s'.prompt = s.prompt.putContract x) :
    Enacted s s' := by
  have hput : s'.prompt.contracts = s.prompt.contracts.put x := by
    rw [h]
    rfl
  refine ⟨by rw [h]; rfl, by rw [h]; rfl, ?_, ?_⟩
  · refine assigned_put hs hput (by rw [h]; exact le_rfl) ?_
    rw [h]
    exact hs x.id contract hget
  · refine .of_put hput (fun c hc => ?_) (by rw [h]; exact fun _ hc => hc)
    rw [hget] at hc
    rw [← Option.some.inj hc]
    exact hterms

theorem enacted_resolveCase (hs : Assigned s) (h : s.resolveCase c block now = some (c', s')) :
    Enacted s s' := by
  obtain rfl | ⟨effect, -, happly⟩ := resolveCase_cases s h
  · exact .of_prompt hs rfl
  · obtain ⟨e, -, rfl⟩ | ⟨contract, r, draw, -, hget, -, -, hr, rfl⟩ := applyEffect_cases s happly
    · exact .of_prompt hs rfl
    · have hterms : termsOf r.contract = termsOf contract := terms_applyOps hr
      have hid : r.contract.id = contract.id := (Prod.mk.inj hterms).1
      refine .of_put (x := r.contract) hs ?_ hterms rfl
      rw [hid, Table.key_of_get hget]
      exact hget

-- A jury that gives one answer decides its case.
theorem concluded_resolveCase (hanswer : c.effects = c.jury.map fun juror => (juror, answer))
    (hblock : c.openedAt = block) (h : s.resolveCase c block now = some (c', s')) :
    Concluded c' answer ∧ c'.id = c.id ∧ c'.jury = c.jury ∧ invocationIn c' = invocationIn c := by
  unfold resolveCase at h
  cases htally : tallyEffects c.effects c.jury.length QUORUM with
  | none => simp [htally] at h
  | some t =>
    rw [htally] at h
    rw [hanswer] at htally
    cases t with
    | Pending =>
      have hdecided : quorumTally id (fun _ => true)
          ((c.jury.map fun juror => (juror, answer)).map fun e => (e.1, e.2.effectHash))
          c.jury.length QUORUM ≠ .Pending := quorumTally_ne_pending (by decide) (by simp)
      unfold tallyEffects at htally
      dsimp only at htally
      split at htally
      · exact absurd ‹_› hdecided
      · cases htally
      · split at htally <;> cases htally
    | NoQuorum =>
      cases h
      exact ⟨⟨hanswer, congrArg some hblock.symm, Or.inl rfl⟩, rfl, rfl, rfl⟩
    | Committed effect =>
      have heffect : effect = answer := tally_const htally
      have hquorum : QUORUM ≤ c.jury.length := by
        have hsupport := (tallyEffects_committed htally).trans (digestSupport_le_length _ _)
        rwa [List.length_map] at hsupport
      dsimp only at h
      split_ifs at h with habort
      · cases h
        exact ⟨⟨hanswer, congrArg some hblock.symm, Or.inl rfl⟩, rfl, rfl, rfl⟩
      · rw [heffect] at habort
        split at h
        · cases h
        · cases h
          refine ⟨⟨hanswer, congrArg some hblock.symm, Or.inr ⟨?_, ?_, hquorum⟩⟩, rfl, rfl, rfl⟩
          · rw [heffect]
          · simpa using habort
        · cases h
          exact ⟨⟨hanswer, congrArg some hblock.symm, Or.inl rfl⟩, rfl, rfl, rfl⟩

theorem enacted_deployContract {text : String} {textRef : Hash} {parties : List Address}
    {number : U64} {txHash : Hash} {p : Except String OpResult × MemState} (hs : Assigned s)
    (hp : renderDeploy number txHash (s.deployContract text textRef parties) = p) :
    Enacted s p.2 := by
  subst hp
  simp only [deployContract]
  split_ifs
  · exact .of_prompt hs rfl
  · exact .of_prompt hs rfl
  · exact .of_prompt hs rfl
  · have hget : (({ s with prompt :=
        { s.prompt with nextContractId := s.prompt.nextContractId + 1 } } : MemState).putContract
          (PromptContract.new s.prompt.nextContractId text textRef parties)).getContract
            s.prompt.nextContractId =
        some (PromptContract.new s.prompt.nextContractId text textRef parties) :=
      Table.get_put_self s.prompt.contracts
        (PromptContract.new s.prompt.nextContractId text textRef parties)
    simp only [renderDeploy, stampDeploy, hget]
    have hput := Table.put_put s.prompt.contracts
      (a := PromptContract.new s.prompt.nextContractId text textRef parties)
      (b := { PromptContract.new s.prompt.nextContractId text textRef parties with
        deployBlock := number, deployTx := txHash }) rfl
    refine ⟨rfl, rfl, ?_, ?_⟩
    · exact assigned_put hs hput (Nat.le_succ _) (Nat.lt_succ_self _)
    · refine .of_put hput (fun c hc => ?_) fun _ hc => hc
      exact absurd (hs _ c hc) (Nat.lt_irrefl _)

theorem enacted_fundContract {funder : Address} {id : ContractId} {amount : U128} {nonce : U64}
    (hs : Assigned s) : Enacted s (s.fundContract funder id amount nonce now).2 := by
  unfold fundContract
  cases hget : s.getContract id with
  | none => exact .of_prompt hs rfl
  | some contract =>
    dsimp only
    split_ifs
    · exact .of_prompt hs rfl
    · split
      · exact .of_prompt hs rfl
      · have hid : contract.id = id := Table.key_of_get hget
        rw [← hid] at hget
        exact .of_put (x := { contract with escrow := Word.satAdd contract.escrow amount }) hs
          hget rfl rfl

theorem Answered.lasts (h : Answered host jurors s.prompt.contracts.rows c) (hlasts : Lasts s s') :
    Answered host jurors s'.prompt.contracts.rows c := by
  refine ⟨h.jury, h.jurors, ?_⟩
  obtain ⟨contract, hmem, view, hid, hview, hparties, hconcluded⟩ := h.answer
  obtain ⟨contract', hmem', hterms⟩ := hlasts.contracts contract hmem
  obtain ⟨hid', htext⟩ := Prod.mk.inj hterms
  obtain ⟨htext', href⟩ := Prod.mk.inj htext
  refine ⟨contract', hmem', view, hid'.trans hid, hview, ?_, ?_⟩
  · rw [hparties, (Prod.mk.inj href).2]
  · rw [htext']
    exact hconcluded

theorem Answered.decided {contracts : List PromptContract}
    (h : Answered host jurors contracts c) : c.status ≠ .Open := by
  intro hopen
  obtain ⟨contract, -, view, -, -, -, hconcluded⟩ := h.answer
  rcases hconcluded.outcome with haborted | ⟨hcommitted, -, -⟩
  · rw [haborted] at hopen
    cases hopen
  · rw [hcommitted] at hopen
    cases hopen

namespace Logged

variable (h : Logged host jurors s is)
include h

theorem enacted (henacted : Enacted s s') : Logged host jurors s' is := by
  refine ⟨henacted.next.trans h.next, fun k => ?_, fun c hc => ?_, henacted.assigned⟩
  · rw [getExecCase, ContractRegistry.getExecCase, henacted.execCases]
    exact h.journal k
  · rw [henacted.execCases] at hc
    exact (h.cases c hc).lasts henacted.lasts

-- The next case is the record of the next invocation.
theorem entered (hid : c.id = s.prompt.nextExecCaseId)
    (hc : Answered host jurors s'.prompt.contracts.rows c)
    (hcases : s'.prompt.execCases = s.prompt.execCases.put c)
    (hnext : s'.prompt.nextExecCaseId = c.id + 1) (hassigned : Assigned s') (hlasts : Lasts s s') :
    Logged host jurors s' (is ++ [invocationIn c]) := by
  refine ⟨?_, fun k => ?_, fun x hx => ?_, hassigned⟩
  · rw [hnext, hid, h.next, List.length_append, List.length_singleton]
  · have hget : s'.getExecCase k = if c.id = k then some c else s.getExecCase k := by
      rw [getExecCase, ContractRegistry.getExecCase, hcases]
      exact Table.get_put _ _ _
    rw [hget]
    rw [h.next] at hid
    by_cases hk : c.id = k
    · rw [if_pos hk, ← hk, hid, List.getElem?_concat_length]
      rfl
    · rw [if_neg hk, h.journal k]
      rw [hid] at hk
      by_cases hlt : k < is.length
      · rw [List.getElem?_append_left hlt]
      · rw [List.getElem?_eq_none (Nat.le_of_not_lt hlt), List.getElem?_eq_none]
        rw [List.length_append, List.length_singleton]
        exact Nat.lt_of_le_of_ne (Nat.le_of_not_lt hlt) hk
  · rw [hcases, Table.mem_put] at hx
    rcases hx with rfl | ⟨hx, -⟩
    · exact hc
    · exact (h.cases x hx).lasts hlasts

-- There is no open case that an effect could be submitted to.
theorem refuses {caseId : ExecCaseId} {juror : Address} {effect : CanonicalEffect}
    {res : Except ContractError ExecStatus}
    (hsubmit : s.submitEffect caseId juror effect block now = some (res, s')) :
    res.toOption = none ∧ s' = s := by
  obtain ⟨e, rfl, rfl⟩ | ⟨c, c', s₁, hget, hopen, -⟩ := submitEffect_cases s hsubmit
  · exact ⟨rfl, rfl⟩
  · exact absurd hopen (h.cases c (Table.mem_of_get hget)).decided

theorem invoked {id : ContractId} {triggerRef : Hash} {invoker : Address} {usizeBits : Nat}
    {entropy : U64} {res : Except ContractError ExecCaseId} (hjurors : s.activeJurors = jurors)
    (hinvoke : s.invokeContract host.interpreter usizeBits id triggerRef
      (deriveTrigger host triggerRef) invoker entropy block now = some (res, s')) :
    Logged host jurors s' (is ++
      if res.toOption.isSome then [⟨id, triggerRef, invoker, block⟩] else []) ∧ Lasts s s' := by
  obtain ⟨e, rfl, rfl⟩ | ⟨contract, c, c', s₁, hget, -, hc, hr, rfl, rfl⟩ :=
    invokeContract_cases s hinvoke
  · rw [show (Except.error e : Except ContractError ExecCaseId).toOption.isSome = false from rfl,
      if_neg Bool.false_ne_true, List.append_nil]
    exact ⟨h, .refl⟩
  have hnone : s.activeJurors ≠ [] := by
    intro hnone
    unfold invokeContract at hinvoke
    rw [hget] at hinvoke
    dsimp only at hinvoke
    split_ifs at hinvoke
    · cases hinvoke
    · cases hinvoke
  have hid : c.id = s.prompt.nextExecCaseId := by
    rw [hc]
    rfl
  obtain ⟨s₀, hs₀⟩ : ∃ s₀ : MemState,
      s₀ = { s with prompt := { s.prompt with nextExecCaseId := c.id + 1 } } := ⟨_, rfl⟩
  rw [← hs₀] at hr
  have henacted : Enacted s₀ s₁ := by
    refine enacted_resolveCase ?_ hr
    rw [hs₀]
    exact assigned_of_contracts h.assigned rfl rfl
  have hanswer : c.effects = c.jury.map fun juror =>
      (juror, host.interpreter.interpret (strBytes contract.text) (s.stateView contract now)
        (deriveTrigger host triggerRef)) := by
    rw [hc]
    rfl
  obtain ⟨hconcluded, hid', hjury, hrecord⟩ :=
    concluded_resolveCase hanswer (by rw [hc]; rfl) hr
  have hcases : (s₁.putExecCase c').prompt.execCases = s.prompt.execCases.put c' := by
    have hsame := henacted.execCases
    rw [hs₀] at hsame
    exact congrArg (fun t => Table.put t c') hsame
  have hlasts : Lasts s (s₁.putExecCase c') := by
    have hcontracts := henacted.lasts.contracts
    rw [hs₀] at hcontracts
    refine ⟨hcontracts, fun x hx => ?_⟩
    rw [hcases, Table.mem_put]
    refine Or.inr ⟨hx, fun heq => ?_⟩
    -- the id is not in use
    have hjournal := h.journal c.id
    rw [← hid', ← heq, getExecCase, ContractRegistry.getExecCase, Table.get_of_mem hx, heq, hid',
      hid, h.next, List.getElem?_eq_none le_rfl] at hjournal
    cases hjournal
  have hanswered : Answered host jurors (s₁.putExecCase c').prompt.contracts.rows c' := by
    refine ⟨⟨?_, ?_⟩, fun juror hjuror => ?_, ?_⟩
    · rw [hjury, hc]
      exact nodup_selectJury _ _ _ _
    · rw [hjury, hc]
      exact selectJury_ne_nil hnone (by decide)
    · rw [hjury, hc] at hjuror
      rw [← hjurors]
      exact mem_of_mem_selectJury hjuror
    · obtain ⟨contract', hmem', hterms⟩ := hlasts.contracts contract (Table.mem_of_get hget)
      obtain ⟨hcontract, htext⟩ := Prod.mk.inj hterms
      obtain ⟨htext, href⟩ := Prod.mk.inj htext
      have hfound : contract.id = c'.contract := by
        have hnamed : c'.contract = c.contract := congrArg Invocation.contract hrecord
        rw [hnamed, hc]
        exact Table.key_of_get hget
      have htrigger : c'.triggerRef = triggerRef := by
        have hnamed : c'.triggerRef = c.triggerRef := congrArg Invocation.triggerRef hrecord
        rw [hnamed, hc]
        rfl
      refine ⟨contract', hmem', s.stateView contract now, hcontract.trans hfound, hfound, ?_, ?_⟩
      · exact (Prod.mk.inj href).2.symm
      · rw [htext, htrigger]
        exact hconcluded
  have hentry : invocationIn c' = ⟨id, triggerRef, invoker, block⟩ := by
    rw [hrecord, hc]
    rfl
  refine ⟨?_, hlasts⟩
  rw [show (Except.ok c.id : Except ContractError ExecCaseId).toOption.isSome = true from rfl,
    if_pos rfl, ← hentry]
  refine h.entered (hid'.trans hid) hanswered hcases ?_ ?_ hlasts
  · rw [hid']
    have hnext := henacted.next
    rw [hs₀] at hnext
    exact hnext
  · exact assigned_of_contracts henacted.assigned rfl rfl

end Logged

-- An operation enters the case of its own invocation only, and no submission is taken.
theorem logged_operates {r : Except String OpResult} (hs : Logged host jurors s is)
    (hjurors : s.activeJurors = jurors) (h : Operates host ctx tx s r s') :
    (Logged host jurors s'
      (is ++ if r.toOption.isSome then (invocationOf ctx tx).toList else []) ∧ Lasts s s') ∧
    ∀ caseId effect, tx.kind = .SubmitEffect caseId effect →
      r.toOption.isSome = false ∧ s'.prompt = s.prompt := by
  have hsilent (hnone : invocationOf ctx tx = none) (henacted : Enacted s s') :
      Logged host jurors s' (is ++ if r.toOption.isSome then (invocationOf ctx tx).toList else []) ∧
        Lasts s s' := by
    refine ⟨?_, henacted.lasts⟩
    rw [hnone, Option.toList_none, ite_self, List.append_nil]
    exact hs.enacted henacted
  have hleft := leaves_operates h
  unfold Operates at h
  cases hk : tx.kind with
  | DeployContract text parties =>
    simp only [hk, hubOp] at h
    have henacted := enacted_deployContract hs.assigned (Option.some.inj h)
    exact ⟨hsilent (by rw [invocationOf, hk]) henacted, by rintro _ _ ⟨⟩⟩
  | FundContract id =>
    simp only [hk] at h
    have hs' := snd_of_render (congrArg some h)
    refine ⟨hsilent (by rw [invocationOf, hk]) ?_, by rintro _ _ ⟨⟩⟩
    rw [hs']
    exact enacted_fundContract hs.assigned
  | InvokeContract id triggerRef =>
    simp only [hk, hubOp] at h
    obtain ⟨⟨res, s₁⟩, hinvoke, hr⟩ := Option.map_eq_some_iff.mp h
    have hinvoked := hs.invoked hjurors hinvoke
    have hinvocation : invocationOf ctx tx = some ⟨id, triggerRef, tx.from_, ctx.number⟩ := by
      rw [invocationOf, hk]
    refine ⟨?_, by rintro _ _ ⟨⟩⟩
    rw [hinvocation]
    cases res with
    | error e =>
      cases hr
      exact hinvoked
    | ok caseId =>
      cases hr
      exact hinvoked
  | SubmitEffect caseId effect =>
    simp only [hk, hubOp] at h
    obtain ⟨⟨res, s₁⟩, hsubmit, hr⟩ := Option.map_eq_some_iff.mp h
    obtain ⟨hrefused, rfl⟩ := hs.refuses hsubmit
    cases res with
    | error e =>
      cases hr
      exact ⟨hsilent (by rw [invocationOf, hk]) (.of_prompt hs.assigned rfl),
        fun _ _ _ => ⟨rfl, rfl⟩⟩
    | ok status => cases hrefused
  | _ =>
    refine ⟨hsilent (by rw [invocationOf, hk]) (.of_prompt hs.assigned ?_), by rintro _ _ ⟨⟩⟩
    exact hleft.prompt (by rw [hk]; rfl)

variable {e : Event} {es : List Event} {o : Option OpOutcome}

theorem logged_step (hs : Logged host jurors s is) (hjurors : s.activeJurors = jurors)
    (h : step host s e = some (o, s')) :
    (Logged host jurors s' (is ++ invoked e o) ∧ Lasts s s') ∧
    ∀ tx caseId effect, e.action = .tx tx → tx.kind = .SubmitEffect caseId effect →
      o.any OpOutcome.success = false ∧ s'.prompt = s.prompt := by
  have hsame (hnone : invoked e o = []) (hprompt : s'.prompt = s.prompt) :
      Logged host jurors s' (is ++ invoked e o) ∧ Lasts s s' := by
    rw [hnone, List.append_nil]
    exact ⟨hs.enacted (.of_prompt hs.assigned hprompt), .of_prompt hprompt⟩
  unfold step at h
  cases haction : e.action with
  | sweeps =>
    rw [haction] at h
    cases h
    exact ⟨hsame (by rw [invoked, haction]) (leaves_runSweeps.prompt rfl), by rintro _ _ _ ⟨⟩⟩
  | refresh =>
    rw [haction] at h
    cases h
    exact ⟨hsame (by rw [invoked, haction]) rfl, by rintro _ _ _ ⟨⟩⟩
  | tx tx =>
    rw [haction] at h
    have hinvoked : invoked e o =
        if o.any OpOutcome.success then (invocationOf e.ctx tx).toList else [] := by
      rw [invoked, haction]
    obtain ⟨ho, hleaves⟩ | ⟨s₀, r, s₁, hbefore, hoperates, hafter, ho⟩ := applyTx_operates h
    · refine ⟨hsame ?_ (hleaves.prompt rfl), fun _ _ _ _ _ => ⟨ho, hleaves.prompt rfl⟩⟩
      rw [hinvoked, ho]
      rfl
    · have hprompt : s₀.prompt = s.prompt := hbefore.prompt rfl
      have hjurors₀ : s₀.activeJurors = jurors := by
        rw [← hjurors, activeJurors, activeJurors, hbefore.humanity rfl]
      have henacted₀ : Enacted s s₀ := .of_prompt hs.assigned hprompt
      obtain ⟨⟨hlogged, hlasts⟩, hrefuses⟩ :=
        logged_operates (hs.enacted henacted₀) hjurors₀ hoperates
      have henacted₁ : Enacted s₁ s' := .of_prompt hlogged.assigned (hafter.prompt rfl)
      refine ⟨⟨?_, (henacted₀.lasts.trans hlasts).trans henacted₁.lasts⟩, ?_⟩
      · rw [hinvoked, ho]
        exact hlogged.enacted henacted₁
      · rintro tx' caseId effect ⟨⟩ hk
        obtain ⟨hr, hkept⟩ := hrefuses caseId effect hk
        exact ⟨ho.trans hr, (hafter.prompt rfl).trans (hkept.trans hprompt)⟩

theorem activeJurors_step (h : step host s e = some (o, s')) :
    s'.activeJurors = s.activeJurors := by
  rw [activeJurors, activeJurors, HumanRegistry.activeJurors, jurors_step h]
  rfl

theorem logged_run (hs : Logged host jurors s is) (hjurors : s.activeJurors = jurors)
    (h : run host s es = some s') :
    Logged host jurors s' (is ++ invocations host s es) ∧ Lasts s s' ∧
      s'.activeJurors = jurors := by
  induction es generalizing s is with
  | nil =>
    cases h
    rw [invocations, List.append_nil]
    exact ⟨hs, .refl, hjurors⟩
  | cons e es ih =>
    rw [run] at h
    rw [invocations]
    cases he : step host s e with
    | none => simp [he] at h
    | some p =>
      obtain ⟨o, s₁⟩ := p
      rw [he] at h
      obtain ⟨⟨hlogged, hlasts⟩, -⟩ := logged_step hs hjurors he
      obtain ⟨hrest, hlater, hjurors'⟩ := ih hlogged ((activeJurors_step he).trans hjurors) h
      rw [← List.append_assoc]
      exact ⟨hrest, hlasts.trans hlater, hjurors'⟩

theorem Genesis.logged (g : Genesis) : Logged host g.state.activeJurors g.state [] := by
  have hprompt : g.state.prompt = {} := g.unseeded.1
  refine ⟨by rw [hprompt]; rfl, fun k => ?_, fun c hc => ?_, fun id c hc => ?_⟩
  · rw [getExecCase, hprompt]
    rfl
  · rw [hprompt] at hc
    cases hc
  · have hnone : g.state.prompt.getContract id = none := by
      rw [hprompt]
      rfl
    exact absurd (hc.symm.trans hnone) (Option.some_ne_none c)

end

-- At least a quorum of different members of the jury has submitted the operations of the effect.
def SignedByJury (c : ExecCase) (e : CanonicalEffect) : Prop :=
  ∃ signers : List Address, signers.Nodup ∧ QUORUM ≤ signers.length ∧
    ∀ juror ∈ signers, juror ∈ c.jury ∧ ∃ effect, (juror, effect) ∈ c.effects ∧ effect.ops = e.ops

section
variable {host : Host} {jurors : List Address} {s : MemState} {is : List Invocation}
variable {caseId : ExecCaseId} {c : ExecCase} {e : CanonicalEffect}

theorem Answered.signed {contracts : List PromptContract}
    (h : Answered host jurors contracts c) (hstatus : c.status = .Committed e) :
    SignedByJury c e := by
  obtain ⟨contract, -, view, -, -, -, hconcluded⟩ := h.answer
  rcases hconcluded.outcome with haborted | ⟨hcommitted, -, hquorum⟩
  · rw [haborted] at hstatus
    cases hstatus
  · rw [hcommitted] at hstatus
    cases hstatus
    refine ⟨c.jury, h.jury.1, hquorum, fun juror hjuror => ⟨hjuror, _, ?_, rfl⟩⟩
    rw [hconcluded.effects]
    exact List.mem_map.mpr ⟨juror, hjuror, rfl⟩

-- Calls on any case, known or not, leave the state as it is.
theorem Logged.submitAll (h : Logged host jurors s is) (calls : List Submission) :
    s.submitAll caseId calls = some s := by
  cases hget : s.getExecCase caseId with
  | none =>
    induction calls with
    | nil => rfl
    | cons x calls ih => simp [MemState.submitAll, submitEffect, hget, ih]
  | some c => exact submitAll_closed hget (h.cases c (Table.mem_of_get hget)).decided calls

end

-- The execution cases of a chain are its invocations, in their order. Each is decided in its own
-- block by what the interpreter makes of the text of the contract, and stays as it was decided: no
-- effect that is submitted afterwards is ever taken.
theorem cases_decided_at_once {host : Host} (g : Genesis) {es : List Event} {s : MemState}
    (hrun : run host g.state es = some s) :
    (∀ k, (s.getExecCase k).map invocationIn = (invocations host g.state es)[k]?) ∧
    (∀ c ∈ s.prompt.execCases.rows,
      Answered host g.state.activeJurors s.prompt.contracts.rows c) ∧
    (∀ es' s', run host s es' = some s' → Lasts s s') ∧
    ∀ e o s', step host s e = some (o, s') → ∀ tx caseId effect, e.action = .tx tx →
      tx.kind = .SubmitEffect caseId effect →
        o.any OpOutcome.success = false ∧ s'.prompt = s.prompt := by
  obtain ⟨hlogged, -, hjurors⟩ := logged_run g.logged rfl hrun
  refine ⟨hlogged.journal, hlogged.cases, fun es' s' hrun' => ?_, fun e o s' hstep => ?_⟩
  · exact (logged_run hlogged hjurors hrun').2.1
  · exact (logged_step hlogged hjurors hstep).2

-- The case of a payment, and an effect that one of its jury submits on it.
theorem cases_decided_at_once_paid :
    ∃ s c o s', run payingHost fundedPair.state paidEscrow = some s ∧ s.getExecCase 0 = some c ∧
      invocationIn c = ⟨0, 0#256, 2#160, 1#64⟩ ∧
      c.status = .Committed (.new [.Transfer 5#160 10#128]) ∧
      Answered payingHost fundedPair.state.activeJurors s.prompt.contracts.rows c ∧
      step payingHost s (pay 1#64 1#160 1#64 0#128 (.SubmitEffect 0 .noop)) = some (o, s') ∧
      o.any OpOutcome.success = false ∧ s'.prompt = s.prompt := by
  have hpaid : (run payingHost fundedPair.state paidEscrow).bind (fun s => (s.getExecCase 0).bind
      fun c => (step payingHost s (pay 1#64 1#160 1#64 0#128 (.SubmitEffect 0 .noop))).map
        fun _ => (invocations payingHost fundedPair.state paidEscrow, c.status)) =
      some ([⟨0, 0#256, 2#160, 1#64⟩], .Committed (.new [.Transfer 5#160 10#128])) := by
    decide +kernel
  obtain ⟨s, hrun, hs⟩ := Option.bind_eq_some_iff.mp hpaid
  obtain ⟨c, hget, hc⟩ := Option.bind_eq_some_iff.mp hs
  obtain ⟨⟨o, s'⟩, hstep, hr⟩ := Option.map_eq_some_iff.mp hc
  obtain ⟨hinvocations, hstatus⟩ := Prod.mk.inj hr
  obtain ⟨hjournal, hcases, -, hrefuses⟩ := cases_decided_at_once fundedPair hrun
  have hfirst := hjournal 0
  rw [hget, hinvocations] at hfirst
  obtain ⟨ho, hprompt⟩ := hrefuses _ o s' hstep _ 0 .noop rfl rfl
  exact ⟨s, c, o, s', hrun, hget, Option.some.inj hfirst, hstatus,
    hcases c (Table.mem_of_get hget), hstep, ho, hprompt⟩

end Ubi2.Exec
