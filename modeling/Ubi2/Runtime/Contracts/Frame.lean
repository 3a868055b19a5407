import Ubi2.Runtime.Contracts
import Ubi2.Runtime.Ledger.Simulation

namespace Ubi2.Runtime.MemState

open Lib Ledger

-- What an operation of the contract layer may do outside the contract registry.
structure PromptFrame (now : U64) (w : Authority) (s s' : MemState) : Prop where
  moves : Moves now w s.ledger s'.ledger
  humanity : s'.humanity = s.humanity
  zk : s'.zk = s.zk
  validators : s'.epochValidators = s.epochValidators

namespace PromptFrame

variable {now : U64} {w : Authority} {s s' s'' : MemState}

theorem refl : PromptFrame now w s s := ⟨Moves.refl, rfl, rfl, rfl⟩

theorem trans (h : PromptFrame now w s s') (h' : PromptFrame now w s' s'') :
    PromptFrame now w s s'' :=
  ⟨h.moves.trans h'.moves, h'.humanity.trans h.humanity, h'.zk.trans h.zk,
    h'.validators.trans h.validators⟩

end PromptFrame

variable (s : MemState) {now : U64} {w : Authority}

theorem promptFrame_ledger {l : Ledger} (h : Moves now w s.ledger l) :
    PromptFrame now w s { s with ledger := l } :=
  ⟨h, rfl, rfl, rfl⟩

theorem promptFrame_putContract (c : PromptContract) :
    PromptFrame now w s (s.putContract c) :=
  ⟨Moves.refl, rfl, rfl, rfl⟩

theorem promptFrame_putExecCase (c : ExecCase) : PromptFrame now w s (s.putExecCase c) :=
  ⟨Moves.refl, rfl, rfl, rfl⟩

-- A transfer moves money and then steps the nonce, or fails.
theorem moves_applyTransfer {l l' : Ledger} {a b : Address} {v : U128} {nonce : U64}
    {r : Except TransferError Unit} (hs : w.spends a) (hn : w.renonces a)
    (h : l.applyTransfer a b v nonce now = (r, l')) : Moves now w l l' := by
  cases r with
  | error e =>
    rw [applyTransfer_error l h]
    exact moves_settleIncoming l a
  | ok u =>
    obtain ⟨l₁, hmoves, -, rfl⟩ := applyTransfer_ok l hs h
    exact hmoves.trans (Moves.single (Move.renonce l₁ a _ hn))

section Effect

variable {escrow : Address} {r r' : EffectRun}

private theorem applyOp_transfer {to_ : Address} {amount : U128}
    (h : (match r.ledger.applyTransfer escrow to_ amount r.escrowNonce now with
      | (.error _, _) => none
      | (.ok (), l) => some
          { ledger := l
            contract := { r.contract with escrow := Word.satSub r.contract.escrow amount }
            escrowNonce := r.escrowNonce + 1#64 : EffectRun }) = some r') :
    ∃ l, r.ledger.applyTransfer escrow to_ amount r.escrowNonce now = (.ok (), l) ∧
      r' = { ledger := l
             contract := { r.contract with escrow := Word.satSub r.contract.escrow amount }
             escrowNonce := r.escrowNonce + 1#64 } := by
  cases hres : r.ledger.applyTransfer escrow to_ amount r.escrowNonce now with
  | mk res l =>
    rw [hres] at h
    cases res with
    | error e => cases h
    | ok u => exact ⟨l, rfl, (Option.some.inj h).symm⟩

-- Everything an operation of the apply phase can do.
theorem applyOp_cases {op : Op} (h : applyOp escrow now r op = some r') :
    (∃ to_ amount l, (op = .Transfer to_ amount ∨ op = .Refund to_ amount) ∧
      r.ledger.applyTransfer escrow to_ amount r.escrowNonce now = (.ok (), l) ∧
      r' = { ledger := l
             contract := { r.contract with escrow := Word.satSub r.contract.escrow amount }
             escrowNonce := r.escrowNonce + 1#64 }) ∨
    (∃ to_ rate deposit id l, op = .OpenStream to_ rate deposit ∧
      r.ledger.openStream escrow to_ rate deposit now = (.ok id, l) ∧
      r' = { r with
        ledger := l
        contract := { r.contract with escrow := Word.satSub r.contract.escrow deposit } }) ∨
    (∃ id refund l, op = .StopStream id ∧
      r.ledger.stopStream id escrow now = some (.ok refund, l) ∧
      r' = { r with
        ledger := l
        contract := { r.contract with escrow := Word.satAdd r.contract.escrow refund } }) ∨
    (∃ key value, op = .SetVar key value ∧
      r' = { r with
        contract := { r.contract with vars := r.contract.vars.put (key, value) } }) := by
  cases op with
  | Transfer to_ amount =>
    obtain ⟨l, hl, hr⟩ := applyOp_transfer h
    exact Or.inl ⟨to_, amount, l, Or.inl rfl, hl, hr⟩
  | Refund to_ amount =>
    obtain ⟨l, hl, hr⟩ := applyOp_transfer h
    exact Or.inl ⟨to_, amount, l, Or.inr rfl, hl, hr⟩
  | OpenStream to_ rate deposit =>
    simp only [applyOp] at h
    cases hres : r.ledger.openStream escrow to_ rate deposit now with
    | mk res l =>
      rw [hres] at h
      cases res with
      | error e => cases h
      | ok id =>
        exact Or.inr (Or.inl ⟨to_, rate, deposit, id, l, rfl, hres, (Option.some.inj h).symm⟩)
  | StopStream id =>
    simp only [applyOp] at h
    cases hres : r.ledger.stopStream id escrow now with
    | none => simp [hres] at h
    | some p =>
      obtain ⟨res, l⟩ := p
      rw [hres] at h
      cases res with
      | error e => cases h
      | ok refund =>
        exact Or.inr (Or.inr (Or.inl ⟨id, refund, l, rfl, hres, (Option.some.inj h).symm⟩))
  | SetVar key value =>
    exact Or.inr (Or.inr (Or.inr ⟨key, value, rfl, (Option.some.inj h).symm⟩))
  | Abort reasonHash => cases h

theorem moves_applyOp {op : Op} (hs : w.spends escrow) (hn : w.renonces escrow)
    (h : applyOp escrow now r op = some r') : Moves now w r.ledger r'.ledger := by
  obtain ⟨to_, amount, l, -, hl, rfl⟩ | ⟨to_, rate, deposit, id, l, -, hl, rfl⟩ |
    ⟨id, refund, l, -, hl, rfl⟩ | ⟨key, value, -, rfl⟩ := applyOp_cases h
  · exact moves_applyTransfer hs hn hl
  · have hopen : Moves now w _ _ := moves_openStream r.ledger (b := to_) rate deposit hs
    rw [hl] at hopen
    exact hopen
  · exact moves_stopStream r.ledger hs hl
  · exact Moves.refl

theorem moves_applyOps {ops : List Op} (hs : w.spends escrow) (hn : w.renonces escrow)
    (h : applyOps escrow now r ops = some r') : Moves now w r.ledger r'.ledger := by
  induction ops generalizing r with
  | nil =>
    cases h
    exact Moves.refl
  | cons op ops ih =>
    rw [applyOps] at h
    cases hop : applyOp escrow now r op with
    | none => simp [hop] at h
    | some r₁ =>
      rw [hop] at h
      exact (moves_applyOp hs hn hop).trans (ih h)

end Effect

-- An effect that is not applied changes nothing. An effect that is applied has run all
-- of its operations from the settled escrow account.
theorem applyEffect_cases {id : ContractId} {effect : CanonicalEffect}
    {res : Except EffectError Unit} {s' : MemState}
    (h : s.applyEffect id effect now = some (res, s')) :
    (∃ e, res = .error e ∧ s' = s) ∨
    (∃ contract r draw, res = .ok () ∧ s.getContract id = some contract ∧
      validateOps contract (s.ledger.outgoing (contractAddress id)) 0#128 effect.ops = .ok draw ∧
      draw ≤ contract.escrow ∧
      applyOps (contractAddress id) now
        (s.effectStart contract (contractAddress id) now) effect.ops = some r ∧
      s' = { s with ledger := r.ledger }.putContract r.contract) := by
  unfold applyEffect at h
  cases hc : s.getContract id with
  | none =>
    rw [hc] at h
    cases h
    exact Or.inl ⟨_, rfl, rfl⟩
  | some contract =>
    rw [hc] at h
    dsimp only at h
    cases hv : validateOps contract (s.ledger.outgoing (contractAddress id)) 0#128 effect.ops with
    | error e =>
      rw [hv] at h
      cases h
      exact Or.inl ⟨e, rfl, rfl⟩
    | ok draw =>
      rw [hv] at h
      dsimp only at h
      by_cases hdraw : contract.escrow < draw
      · rw [if_pos hdraw] at h
        cases h
        exact Or.inl ⟨_, rfl, rfl⟩
      · rw [if_neg hdraw] at h
        cases hr : applyOps (contractAddress id) now
            (s.effectStart contract (contractAddress id) now) effect.ops with
        | none => simp [hr] at h
        | some r =>
          rw [hr] at h
          cases h
          exact Or.inr ⟨contract, r, draw, rfl, rfl, hv, not_lt.mp hdraw, hr, rfl⟩

theorem promptFrame_applyEffect {id : ContractId} {effect : CanonicalEffect}
    {res : Except EffectError Unit} {s' : MemState} (hs : w.spends (contractAddress id))
    (hn : w.renonces (contractAddress id))
    (h : s.applyEffect id effect now = some (res, s')) : PromptFrame now w s s' := by
  obtain ⟨e, -, rfl⟩ | ⟨contract, r, draw, -, -, -, -, hr, rfl⟩ := applyEffect_cases s h
  · exact .refl
  · have hsettle : Moves now w _ _ := Moves.single (Move.settle s.ledger (contractAddress id))
    have hrun := moves_applyOps (w := w) hs hn hr
    exact (promptFrame_ledger s (hsettle.trans hrun)).trans (promptFrame_putContract _ _)

-- Resolving a case either leaves the state alone or applies the committed effect.
theorem resolveCase_cases {c c' : ExecCase} {block : U64} {s' : MemState}
    (h : s.resolveCase c block now = some (c', s')) :
    s' = s ∨ ∃ effect, tallyEffects c.effects c.jury.length QUORUM = some (.Committed effect) ∧
      s.applyEffect c.contract effect now = some (.ok (), s') := by
  unfold resolveCase at h
  cases ht : tallyEffects c.effects c.jury.length QUORUM with
  | none => simp [ht] at h
  | some t =>
    rw [ht] at h
    cases t with
    | Pending =>
      cases h
      exact Or.inl rfl
    | NoQuorum =>
      cases h
      exact Or.inl rfl
    | Committed effect =>
      dsimp only at h
      split_ifs at h with habort
      · cases h
        exact Or.inl rfl
      · cases ha : s.applyEffect c.contract effect now with
        | none => simp [ha] at h
        | some p =>
          obtain ⟨res, s₁⟩ := p
          rw [ha] at h
          cases res with
          | ok u =>
            cases h
            exact Or.inr ⟨effect, rfl, ha⟩
          | error e =>
            cases h
            obtain ⟨_, -, rfl⟩ | ⟨_, _, _, hok, _⟩ := applyEffect_cases s ha
            · exact Or.inl rfl
            · cases hok

theorem promptFrame_resolveCase {c c' : ExecCase} {block : U64} {s' : MemState}
    (hs : w.spends (contractAddress c.contract)) (hn : w.renonces (contractAddress c.contract))
    (h : s.resolveCase c block now = some (c', s')) : PromptFrame now w s s' := by
  obtain rfl | ⟨effect, -, ha⟩ := resolveCase_cases s h
  · exact .refl
  · exact promptFrame_applyEffect s hs hn ha

theorem promptFrame_deployContract (text : String) (textRef : Hash) (parties : List Address) :
    PromptFrame now w s (s.deployContract text textRef parties).2 := by
  simp only [deployContract]
  split_ifs
  all_goals try exact .refl
  exact ⟨Moves.refl, rfl, rfl, rfl⟩

theorem promptFrame_fundContract {funder : Address} {id : ContractId} {amount : U128}
    {nonce : U64} (hs : w.spends funder) (hn : w.renonces funder) :
    PromptFrame now w s (s.fundContract funder id amount nonce now).2 := by
  unfold fundContract
  cases s.getContract id with
  | none => exact .refl
  | some contract =>
    dsimp only
    split_ifs
    · exact .refl
    · cases hres : s.ledger.applyTransfer funder (contractAddress id) amount nonce now with
      | mk res l =>
        have hmoves := promptFrame_ledger s (moves_applyTransfer hs hn hres)
        cases res with
        | error e => exact hmoves
        | ok u => exact hmoves.trans (promptFrame_putContract _ _)

-- A submission is refused and changes nothing, or joins its case and resolves it.
theorem submitEffect_cases {caseId : ExecCaseId} {interpreter : Address}
    {effect : CanonicalEffect} {block : U64} {res : Except ContractError ExecStatus}
    {s' : MemState} (h : s.submitEffect caseId interpreter effect block now = some (res, s')) :
    (∃ e, res = .error e ∧ s' = s) ∨
    (∃ c c' s₁, s.getExecCase caseId = some c ∧ c.status = .Open ∧ interpreter ∈ c.jury ∧
      c.effectOf interpreter = none ∧
      s.resolveCase { c with effects := c.effects ++ [(interpreter, effect)] } block now =
        some (c', s₁) ∧
      res = .ok c'.status ∧ s' = s₁.putExecCase c') := by
  unfold submitEffect at h
  cases hc : s.getExecCase caseId with
  | none =>
    rw [hc] at h
    cases h
    exact Or.inl ⟨_, rfl, rfl⟩
  | some c =>
    rw [hc] at h
    dsimp only at h
    by_cases hopen : c.status = .Open
    swap
    · rw [if_pos hopen] at h
      cases h
      exact Or.inl ⟨_, rfl, rfl⟩
    by_cases hjury : interpreter ∈ c.jury
    swap
    · rw [if_neg (not_not.mpr hopen), if_pos hjury] at h
      cases h
      exact Or.inl ⟨_, rfl, rfl⟩
    rw [if_neg (not_not.mpr hopen), if_neg (not_not.mpr hjury)] at h
    cases hsub : c.effectOf interpreter with
    | some e =>
      rw [hsub] at h
      cases h
      exact Or.inl ⟨_, rfl, rfl⟩
    | none =>
      simp only [hsub, Option.isSome_none, Bool.false_eq_true, if_false] at h
      cases hr : s.resolveCase { c with effects := c.effects ++ [(interpreter, effect)] }
          block now with
      | none => simp [hr] at h
      | some p =>
        obtain ⟨c', s₁⟩ := p
        rw [hr] at h
        cases h
        exact Or.inr ⟨c, c', s₁, rfl, hopen, hjury, hsub, hr, rfl, rfl⟩

theorem promptFrame_submitEffect {caseId : ExecCaseId} {interpreter : Address}
    {effect : CanonicalEffect} {block : U64} {res : Except ContractError ExecStatus}
    {s' : MemState}
    (hs : ∀ c, s.getExecCase caseId = some c → w.spends (contractAddress c.contract))
    (hn : ∀ c, s.getExecCase caseId = some c → w.renonces (contractAddress c.contract))
    (h : s.submitEffect caseId interpreter effect block now = some (res, s')) :
    PromptFrame now w s s' := by
  obtain ⟨e, -, rfl⟩ | ⟨c, c', s₁, hc, -, -, -, hr, -, rfl⟩ := submitEffect_cases s h
  · exact .refl
  · have hresolve := promptFrame_resolveCase s
      (c := { c with effects := c.effects ++ [(interpreter, effect)] })
      (hs c hc) (hn c hc) hr
    exact hresolve.trans (promptFrame_putExecCase _ _)

-- An invocation is refused and changes nothing, or opens its case and resolves it.
theorem invokeContract_cases {interpreter : ContractInterpreter} {usizeBits : Nat}
    {id : ContractId} {triggerRef : Hash} {trigger : Bytes} {invoker : Address}
    {entropy block : U64} {res : Except ContractError ExecCaseId} {s' : MemState}
    (h : s.invokeContract interpreter usizeBits id triggerRef trigger invoker entropy block
      now = some (res, s')) :
    (∃ e, res = .error e ∧ s' = s) ∨
    (∃ contract c c' s₁, s.getContract id = some contract ∧ contract.status ≠ .Terminated ∧
      c = s.invokedCase interpreter usizeBits id contract triggerRef trigger invoker
        entropy block now ∧
      ({ s with prompt := { s.prompt with nextExecCaseId := c.id + 1 } } : MemState).resolveCase
        c block now = some (c', s₁) ∧
      res = .ok c.id ∧ s' = s₁.putExecCase c') := by
  unfold invokeContract at h
  cases hc : s.getContract id with
  | none =>
    rw [hc] at h
    cases h
    exact Or.inl ⟨_, rfl, rfl⟩
  | some contract =>
    rw [hc] at h
    dsimp only at h
    by_cases hterm : contract.status = .Terminated
    · rw [if_pos hterm] at h
      cases h
      exact Or.inl ⟨_, rfl, rfl⟩
    by_cases hnone : s.activeJurors = []
    · rw [if_neg hterm, if_pos hnone] at h
      cases h
      exact Or.inl ⟨_, rfl, rfl⟩
    rw [if_neg hterm, if_neg hnone] at h
    split at h
    · cases h
    · rename_i c' s₁ hr
      cases h
      exact Or.inr ⟨contract, _, c', s₁, rfl, hterm, rfl, hr, rfl, rfl⟩

theorem promptFrame_invokeContract {interpreter : ContractInterpreter} {usizeBits : Nat}
    {id : ContractId} {triggerRef : Hash} {trigger : Bytes} {invoker : Address}
    {entropy block : U64} {res : Except ContractError ExecCaseId} {s' : MemState}
    (hs : w.spends (contractAddress id)) (hn : w.renonces (contractAddress id))
    (h : s.invokeContract interpreter usizeBits id triggerRef trigger invoker entropy block
      now = some (res, s')) : PromptFrame now w s s' := by
  obtain ⟨e, -, rfl⟩ | ⟨contract, c, c', s₁, -, -, rfl, hr, -, rfl⟩ := invokeContract_cases s h
  · exact .refl
  · generalize hcase : s.invokedCase interpreter usizeBits id contract triggerRef trigger invoker
      entropy block now = c at hr
    have hid : c.contract = id := by rw [← hcase]; rfl
    have hopened : PromptFrame now w s
        { s with prompt := { s.prompt with nextExecCaseId := c.id + 1 } } :=
      ⟨Moves.refl, rfl, rfl, rfl⟩
    exact (hopened.trans (promptFrame_resolveCase _ (hid ▸ hs) (hid ▸ hn) hr)).trans
      (promptFrame_putExecCase _ _)

end Ubi2.Runtime.MemState
