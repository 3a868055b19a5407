import Ubi2.Exec.Run
import Ubi2.Runtime.Lifecycle.Change

namespace Ubi2.Exec

open Ubi2.Runtime Ubi2.Runtime.Ledger Ubi2.Runtime.MemState Ubi2.Lib

-- The outgoing index only learns the streams that an account opens.
theorem outgoingIdx_settleStream (l : Ledger) (id : StreamId) (now : U64) :
    (l.settleStream id now).2.outgoingIdx = l.outgoingIdx := by
  cases h : l.getStream id with
  | none => rw [settleStream_of_none l h]
  | some s =>
    have hid : s.id = id := getStream_id l h
    have hget : (l.put (((l.account s.to_).settle now).credit (s.owed now))).getStream
        (s.drawTo now).id = some s := by
      simpa [hid] using h
    rw [settleStream_of_some l h, putStream_of_some _ hget]
    rfl

theorem outgoingIdx_settleIncoming (l : Ledger) (a : Address) (now : U64) :
    (l.settleIncoming a now).outgoingIdx = l.outgoingIdx := by
  simp only [settleIncoming]
  generalize l.incoming a = ids
  induction ids generalizing l with
  | nil => rfl
  | cons id ids ih => rw [List.foldl_cons, ih, outgoingIdx_settleStream]

theorem outgoingIdx_chargeFee (l : Ledger) (a : Address) (gas now : U64) :
    (l.chargeFee a gas now).2.outgoingIdx = l.outgoingIdx := by
  simp only [chargeFee]
  split_ifs
  · exact outgoingIdx_settleIncoming l a now
  · exact outgoingIdx_settleIncoming l a now
  · exact outgoingIdx_settleIncoming l a now

theorem consumeNonce_ok {s s' : MemState} {a : Address} {nonce now : U64}
    (h : consumeNonce s a nonce now = (.ok (), s')) :
    nonce = (s.account a).nonce ∧
      s' = s.put { (s.account a).settle now with nonce := nonce + 1#64 } := by
  simp only [consumeNonce, Account.settle_nonce] at h
  by_cases hnonce : nonce = (s.account a).nonce
  · rw [if_neg (not_not.mpr hnonce)] at h
    obtain ⟨-, rfl⟩ := Prod.mk.inj h
    exact ⟨hnonce, by rw [← hnonce]⟩
  · rw [if_pos hnonce] at h
    cases h

theorem consumeNonce_error {s s' : MemState} {a : Address} {nonce now : U64} {e : String}
    (h : consumeNonce s a nonce now = (.error e, s')) : s' = s := by
  simp only [consumeNonce] at h
  split_ifs at h
  · exact (Prod.mk.inj h).2.symm
  · cases h

-- What a transaction does: its fee is not charged and nothing follows, or its operation
-- runs on what the fee leaves, and the nonce is patched when it fails.
theorem applyTx_cases {host : Host} {ctx : BlockCtx} {tx : KernelTx} {s s' : MemState}
    {o : Option OpOutcome} (h : applyTx host ctx tx s = some (o, s')) :
    (∃ e l, s.ledger.chargeFee tx.from_ tx.kind.gas ctx.timestamp = (.error e, l) ∧
      o = none ∧ s' = { s with ledger := l }) ∨
    ∃ fee l r s₁, s.ledger.chargeFee tx.from_ tx.kind.gas ctx.timestamp = (.ok fee, l) ∧
      applyOne host ctx tx { s with ledger := l } = some (r, s₁) ∧
      o.isSome ∧ s' = match r with
        | .ok _ => s₁
        | .error _ => failTx ctx tx s₁ := by
  unfold applyTx at h
  generalize s.ledger.chargeFee tx.from_ tx.kind.gas ctx.timestamp = p at h ⊢
  obtain ⟨res, l⟩ := p
  cases res with
  | error e =>
    cases h
    exact Or.inl ⟨e, l, rfl, rfl, rfl⟩
  | ok fee =>
    simp only [afterFee] at h
    cases hone : applyOne host ctx tx { s with ledger := l } with
    | none =>
      rw [hone] at h
      cases h
    | some p =>
      obtain ⟨r, s₁⟩ := p
      rw [hone] at h
      refine Or.inr ⟨fee, l, r, s₁, rfl, hone, ?_⟩
      cases r with
      | ok result =>
        cases h
        exact ⟨rfl, rfl⟩
      | error e =>
        cases h
        exact ⟨rfl, rfl⟩

-- The contract whose escrow account a transaction can reach.
def Escrows (tx : KernelTx) (s : MemState) (id : ContractId) : Prop :=
  match tx.kind with
  | .SubmitEffect caseId _ => ∃ c, s.getExecCase caseId = some c ∧ id = c.contract
  | .InvokeContract contractId _ => id = contractId
  | _ => False

-- The authority an operation needs for what it can do.
structure Allows (w : Authority) (ctx : BlockCtx) (tx : KernelTx) (s : MemState) : Prop where
  sender : w.spends tx.from_
  escrowSpends : ∀ id, Escrows tx s id → w.spends (contractAddress id)
  escrowRenonces : ∀ id, Escrows tx s id → w.renonces (contractAddress id)
  revoke : ∀ x, w.gates x false 0#64
  verify : ∀ x, w.gates x true ctx.timestamp
  restore : ∀ a h, s.getHuman a = some h → h.status = .Challenged →
    w.gates (s.account a) true h.verifiedAt

-- Exactly the authority that the operation of a transaction uses.
def Needs (w : Authority) (ctx : BlockCtx) (tx : KernelTx) (s : MemState) : Prop :=
  match tx.kind with
  | .OpenStream .. | .StopStream _ => w.spends tx.from_
  | .SubmitVerdict caseId v => ∀ c c', s.Votes caseId tx.from_ v c c' →
      (c'.upholds → w.gates (s.account c'.subject) false 0#64) ∧
      ∀ h, s.getHuman c'.subject = some h → h.status = .Challenged →
        w.gates (s.account c'.subject) true h.verifiedAt
  | .SubmitZkPassportProof _ => w.gates (s.account tx.from_) true ctx.timestamp
  | .InvokeContract .. | .SubmitEffect .. => ∀ id, Escrows tx s id →
      w.spends (contractAddress id) ∧ w.renonces (contractAddress id)
  | _ => True

theorem Allows.needs {w : Authority} {ctx : BlockCtx} {tx : KernelTx} {s : MemState}
    (h : Allows w ctx tx s) : Needs w ctx tx s := by
  unfold Needs
  split
  · exact h.sender
  · exact h.sender
  · exact fun c c' _ => ⟨fun _ => h.revoke _, fun h₀ => h.restore _ h₀⟩
  · exact h.verify _
  · exact fun id hid => ⟨h.escrowSpends id hid, h.escrowRenonces id hid⟩
  · exact fun id hid => ⟨h.escrowSpends id hid, h.escrowRenonces id hid⟩
  · trivial

theorem render_snd {ε α : Type} (display : ε → String) (result : α → OpResult)
    (r : Except ε α × MemState) : (render display result r).2 = r.2 := by
  obtain ⟨r, s⟩ := r
  cases r <;> rfl

theorem ledger_stampDeploy (s : MemState) (id : ContractId) (number : U64) (txHash : Hash) :
    (stampDeploy s id number txHash).ledger = s.ledger := by
  simp only [stampDeploy]
  cases s.getContract id <;> rfl

theorem ledger_renderDeploy (number : U64) (txHash : Hash)
    (r : Except ContractError ContractId × MemState) :
    (renderDeploy number txHash r).2.ledger = r.2.ledger := by
  obtain ⟨r, s⟩ := r
  cases r with
  | ok id => exact ledger_stampDeploy s id number txHash
  | error e => rfl

section Hub

variable {host : Host} {ctx : BlockCtx} {tx : KernelTx} {s s' : MemState} {w : Authority}
variable {r : Except String OpResult}

theorem snd_of_render {ε α : Type} {display : ε → String} {result : α → OpResult}
    {p : Except ε α × MemState} (h : some (render display result p) = some (r, s')) :
    s' = p.2 := by
  rw [← render_snd display result p, Option.some.inj h]

theorem moves_of_render {ε α : Type} {display : ε → String} {result : α → OpResult}
    {p : Except ε α × MemState} (hp : Moves ctx.timestamp w s.ledger p.2.ledger)
    (h : some (render display result p) = some (r, s')) :
    Moves ctx.timestamp w s.ledger s'.ledger := by
  rw [snd_of_render h]
  exact hp

private theorem moves_of_map {ε α : Type} {display : ε → String} {result : α → OpResult}
    {o : Option (Except ε α × MemState)}
    (ho : ∀ p s₁, o = some (p, s₁) → Moves ctx.timestamp w s.ledger s₁.ledger)
    (h : o.map (render display result) = some (r, s')) :
    Moves ctx.timestamp w s.ledger s'.ledger := by
  cases o with
  | none => cases h
  | some p => exact moves_of_render (ho p.1 p.2 rfl) h

-- Every hub operation is a run of moves on its sender's authority, on that of the
-- escrow it reaches, and on the gates the humanity layer sets.
theorem moves_hubOp (ha : Needs w ctx tx s) (h : hubOp host ctx tx s = some (r, s')) :
    Moves ctx.timestamp w s.ledger s'.ledger := by
  unfold hubOp at h
  unfold Needs at ha
  cases hk : tx.kind with
  | Transfer to_ value =>
    simp only [hk] at h
    cases h
    exact Moves.refl
  | FundContract id =>
    simp only [hk] at h
    cases h
    exact Moves.refl
  | OpenStream to_ rate deposit =>
    simp only [hk] at h ha
    exact moves_of_render (moves_openStream s.ledger rate deposit ha) h
  | StopStream id =>
    simp only [hk] at h ha
    cases hstop : s.ledger.stopStream id tx.from_ ctx.timestamp with
    | none => simp [hstop] at h
    | some p =>
      rw [hstop] at h
      exact moves_of_render (moves_stopStream s.ledger ha hstop) h
  | RequestVerification livenessRef =>
    simp only [hk] at h
    refine moves_of_map ?_ h
    intro p s₁ hp
    obtain ⟨r₂, s₂, h₂, hframe⟩ : ∃ r₂ s₂, _ = some (r₂, s₂) ∧ Frame ctx.timestamp w s s₂ :=
      frame_requestVerification s host.oracle host.usizeBits tx.from_ _
        (blockEntropy ctx.blockHash ctx.number) ctx.number
    rw [h₂] at hp
    cases hp
    exact hframe.moves
  | Vouch vouchee =>
    simp only [hk] at h
    exact moves_of_render (frame_vouch s tx.from_ vouchee ctx.number).moves h
  | Challenge subject evidenceRef =>
    simp only [hk] at h
    exact moves_of_render (frame_challengeInner s _ _ _ _ _ _ true).moves h
  | SubmitVerdict caseId verdict =>
    simp only [hk] at h ha
    exact moves_of_render (frame_submitVerdict s (fun c c' hvotes => (ha c c' hvotes).1)
      (fun c c' h₀ hvotes => (ha c c' hvotes).2 h₀)).moves h
  | SubmitZkPassportProof submission =>
    simp only [hk] at h ha
    exact moves_of_render
      (frame_submitZkPassportProof s _ _ tx.from_ submission ctx.timestamp ctx.number
        ha).moves h
  | RegisterCsca countryCode keyId pubkey =>
    simp only [hk] at h
    exact moves_of_render (frame_governed s _ _).moves h
  | RevokeCsca keyId =>
    simp only [hk] at h
    exact moves_of_render (frame_governed s _ _).moves h
  | PinSelfIdentityRoot root =>
    simp only [hk] at h
    exact moves_of_render (frame_governed s _ _).moves h
  | PinSelfOfacRoot kind root =>
    simp only [hk] at h
    exact moves_of_render (frame_governed s _ _).moves h
  | RetireSelfRoot root =>
    simp only [hk] at h
    exact moves_of_render (frame_governed s _ _).moves h
  | DeployContract text parties =>
    simp only [hk] at h
    have hl := congrArg (fun p => p.2.ledger) (Option.some.inj h)
    simp only [ledger_renderDeploy] at hl
    rw [← hl]
    exact (promptFrame_deployContract s text _ parties).moves
  | InvokeContract id triggerRef =>
    simp only [hk] at h ha
    have hid : Escrows tx s id := by simp only [Escrows, hk]
    refine moves_of_map ?_ h
    intro p s₁ hp
    exact (promptFrame_invokeContract s (ha id hid).1 (ha id hid).2 hp).moves
  | SubmitEffect caseId effect =>
    simp only [hk] at h ha
    have hid : ∀ c, s.getExecCase caseId = some c → Escrows tx s c.contract := by
      intro c hc
      simp only [Escrows, hk]
      exact ⟨c, hc, rfl⟩
    refine moves_of_map ?_ h
    intro p s₁ hp
    exact (promptFrame_submitEffect s (fun c hc => (ha _ (hid c hc)).1)
      (fun c hc => (ha _ (hid c hc)).2) hp).moves

end Hub

section Sweeps

variable (host : Host) {now : U64} {w : Authority} (s : MemState)

private theorem frame_foldl {α : Type} {f : MemState → α → MemState}
    (hf : ∀ s x, Frame now w s (f s x)) (xs : List α) : Frame now w s (xs.foldl f s) := by
  induction xs generalizing s with
  | nil => exact .refl
  | cons x xs ih => exact (hf s x).trans (ih _)

theorem frame_sweepSybilOne (blockHash : Hash) (nowBlock : U64) (subject : Address) :
    Frame now w s (sweepSybilOne host blockHash nowBlock s subject) := by
  unfold sweepSybilOne
  split_ifs
  · exact .refl
  · exact frame_challengeInner s _ _ _ _ _ _ false

-- The sweeps only set the gates of the humans they finalize.
theorem frame_runSweeps (ctx : BlockCtx) (hg : ∀ x, w.gates x true ctx.timestamp) :
    Frame now w s (runSweeps host ctx s) := by
  have hscan : Frame now w s (sweepSybilScan host s ctx.blockHash ctx.number) :=
    frame_foldl s (fun s a => frame_sweepSybilOne host s ctx.blockHash ctx.number a) _
  exact hscan.trans (frame_foldl _
    (fun s a => frame_finalizeRegistration s a ctx.number ctx.timestamp hg) _)

end Sweeps

end Ubi2.Exec
