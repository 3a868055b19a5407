import Ubi2.Exec.Passports
import Ubi2.Exec.Spendable
import Ubi2.Runtime.Restorable

namespace Ubi2.Exec

open Ubi2.Runtime Ubi2.Runtime.Ledger Ubi2.Runtime.MemState Ubi2.Lib

-- The registers beside the ledger that an operation may write.
structure Registers where
  humanity : Bool := false
  zk : Bool := false
  prompt : Bool := false

def KernelKind.writes : KernelKind → Registers
  | .Transfer .. | .OpenStream .. | .StopStream .. => {}
  | .RequestVerification .. | .Vouch .. | .Challenge .. | .SubmitVerdict .. => { humanity := true }
  | .SubmitZkPassportProof .. => { humanity := true, zk := true }
  | .RegisterCsca .. | .RevokeCsca .. | .PinSelfIdentityRoot .. | .PinSelfOfacRoot ..
  | .RetireSelfRoot .. => { zk := true }
  | .DeployContract .. | .FundContract .. | .InvokeContract .. | .SubmitEffect .. =>
    { prompt := true }

-- The registers that are not written stay as they are.
structure Leaves (w : Registers) (s s' : MemState) : Prop where
  humanity : w.humanity = false → s'.humanity = s.humanity
  zk : w.zk = false → s'.zk = s.zk
  prompt : w.prompt = false → s'.prompt = s.prompt
  validators : s'.epochValidators = s.epochValidators

-- What the kind of a transaction runs on the registers. A funding is no hub operation.
def Operates (host : Host) (ctx : BlockCtx) (tx : KernelTx) (s : MemState)
    (r : Except String OpResult) (s' : MemState) : Prop :=
  match tx.kind with
  | .FundContract id => render ContractError.display (fun _ => .None)
      (s.fundContract tx.from_ id tx.value tx.nonce ctx.timestamp) = (r, s')
  | _ => hubOp host ctx tx s = some (r, s')

namespace Leaves

variable {w : Registers} {s s' s'' : MemState} {now : U64} {a : Authority}

theorem refl : Leaves w s s := ⟨fun _ => rfl, fun _ => rfl, fun _ => rfl, rfl⟩

theorem trans (h : Leaves w s s') (h' : Leaves w s' s'') : Leaves w s s'' :=
  ⟨fun hw => (h'.humanity hw).trans (h.humanity hw), fun hw => (h'.zk hw).trans (h.zk hw),
    fun hw => (h'.prompt hw).trans (h.prompt hw), h'.validators.trans h.validators⟩

theorem ledger (l : Ledger) : Leaves w s { s with ledger := l } :=
  ⟨fun _ => rfl, fun _ => rfl, fun _ => rfl, rfl⟩

theorem of_frame (h : Frame now a s s') (hw : w.humanity = true)
    (hzk : w.zk = false → s'.zk = s.zk) : Leaves w s s' := by
  refine ⟨fun hno => ?_, hzk, fun _ => h.prompt, h.validators⟩
  rw [hw] at hno
  cases hno

theorem of_promptFrame (h : PromptFrame now a s s') (hw : w.prompt = true) : Leaves w s s' := by
  refine ⟨fun _ => h.humanity, fun _ => h.zk, fun hno => ?_, h.validators⟩
  rw [hw] at hno
  cases hno

theorem governed {change : ZkRegistry → Except CscaGovError ZkRegistry} (caller : Address)
    (hw : w.zk = true) : Leaves w s (s.governed caller change).2 := by
  unfold MemState.governed
  split_ifs
  · exact refl
  · cases change s.zk with
    | error e => exact refl
    | ok zk =>
      refine ⟨fun _ => rfl, fun hno => ?_, fun _ => rfl, rfl⟩
      rw [hw] at hno
      cases hno

end Leaves

section
variable {host : Host} {ctx : BlockCtx} {tx : KernelTx} {s s' : MemState}
variable {r : Except String OpResult} {o : Option OpOutcome}

private theorem leaves_render {ε α : Type} {display : ε → String} {result : α → OpResult}
    {w : Registers} {p : Except ε α × MemState} (hp : Leaves w s p.2)
    (h : render display result p = (r, s')) : Leaves w s s' := by
  rw [snd_of_render (congrArg some h)]
  exact hp

private theorem result_of_render {ε α : Type} {display : ε → String} {v result : OpResult}
    {p : Except ε α × MemState} (h : render display (fun _ => v) p = (.ok result, s')) :
    result = v := by
  obtain ⟨res, s₁⟩ := p
  cases res with
  | error e => cases h
  | ok a =>
    cases h
    rfl

theorem leaves_renderDeploy {number : U64} {txHash : Hash}
    {p : Except ContractError ContractId × MemState} :
    Leaves { prompt := true } p.2 (renderDeploy number txHash p).2 := by
  obtain ⟨res, s₁⟩ := p
  cases res with
  | error e => exact .refl
  | ok id =>
    simp only [renderDeploy, stampDeploy]
    cases s₁.getContract id with
    | none => exact .refl
    | some c => exact ⟨fun _ => rfl, fun _ => rfl, by rintro ⟨⟩, rfl⟩

theorem leaves_hubOp (h : hubOp host ctx tx s = some (r, s')) : Leaves tx.kind.writes s s' := by
  unfold hubOp at h
  cases hk : tx.kind with
  | Transfer to_ value =>
    simp only [hk] at h
    cases h
    exact .refl
  | FundContract id =>
    simp only [hk] at h
    cases h
    exact .refl
  | OpenStream to_ rate deposit =>
    simp only [hk] at h
    exact leaves_render (.ledger _) (Option.some.inj h)
  | StopStream id =>
    simp only [hk] at h
    obtain ⟨p, -, hp⟩ := Option.map_eq_some_iff.mp h
    exact leaves_render (.ledger _) hp
  | RequestVerification livenessRef =>
    simp only [hk] at h
    obtain ⟨p, hp, hr⟩ := Option.map_eq_some_iff.mp h
    obtain ⟨r₂, s₂, h₂, hframe⟩ : ∃ r₂ s₂, _ = some (r₂, s₂) ∧ Frame ctx.timestamp anyone s s₂ :=
      frame_requestVerification s host.oracle host.usizeBits tx.from_ _
        (blockEntropy ctx.blockHash ctx.number) ctx.number
    have hzk := zk_requestVerification s hp
    rw [h₂] at hp
    cases hp
    exact leaves_render (.of_frame hframe rfl fun _ => hzk) hr
  | Vouch vouchee =>
    simp only [hk] at h
    have hframe : Frame ctx.timestamp anyone s _ := frame_vouch s tx.from_ vouchee ctx.number
    exact leaves_render (.of_frame hframe rfl fun _ => zk_vouch s _ _ _) (Option.some.inj h)
  | Challenge subject evidenceRef =>
    simp only [hk] at h
    have hframe : Frame ctx.timestamp anyone s (s.challenge host.usizeBits tx.from_ subject
        evidenceRef (blockEntropy ctx.blockHash ctx.number) ctx.number).2 :=
      frame_challengeInner s _ _ _ _ _ _ true
    exact leaves_render (.of_frame hframe rfl fun _ => zk_challengeInner s _ _ _ _ _ _ true)
      (Option.some.inj h)
  | SubmitVerdict caseId verdict =>
    simp only [hk] at h
    have hframe : Frame ctx.timestamp anyone s (s.submitVerdict caseId tx.from_ verdict
        ctx.number).2 := frame_submitVerdict s (fun _ _ _ _ => trivial) fun _ _ _ _ _ _ => trivial
    exact leaves_render (.of_frame hframe rfl fun _ => zk_submitVerdict s _ _ _ _)
      (Option.some.inj h)
  | SubmitZkPassportProof submission =>
    simp only [hk] at h
    have hframe : Frame ctx.timestamp anyone s _ := frame_submitZkPassportProof s host.verifier
      host.userIdentifierHash tx.from_ submission ctx.timestamp ctx.number trivial
    exact leaves_render (.of_frame hframe rfl (by rintro ⟨⟩)) (Option.some.inj h)
  | RegisterCsca countryCode keyId pubkey =>
    simp only [hk] at h
    exact leaves_render (.governed tx.from_ rfl) (Option.some.inj h)
  | RevokeCsca keyId =>
    simp only [hk] at h
    exact leaves_render (.governed tx.from_ rfl) (Option.some.inj h)
  | PinSelfIdentityRoot root =>
    simp only [hk] at h
    exact leaves_render (.governed tx.from_ rfl) (Option.some.inj h)
  | PinSelfOfacRoot kind root =>
    simp only [hk] at h
    exact leaves_render (.governed tx.from_ rfl) (Option.some.inj h)
  | RetireSelfRoot root =>
    simp only [hk] at h
    exact leaves_render (.governed tx.from_ rfl) (Option.some.inj h)
  | DeployContract text parties =>
    simp only [hk] at h
    have hdeploy : PromptFrame ctx.timestamp anyone s _ :=
      promptFrame_deployContract s text (textCommitment host text) parties
    have hs' := congrArg Prod.snd (Option.some.inj h)
    rw [← show _ = s' from hs']
    exact (Leaves.of_promptFrame hdeploy rfl).trans leaves_renderDeploy
  | InvokeContract id triggerRef =>
    simp only [hk] at h
    obtain ⟨p, hp, hr⟩ := Option.map_eq_some_iff.mp h
    have hframe : PromptFrame ctx.timestamp anyone s _ :=
      promptFrame_invokeContract s trivial trivial hp
    exact leaves_render (.of_promptFrame hframe rfl) hr
  | SubmitEffect caseId effect =>
    simp only [hk] at h
    obtain ⟨p, hp, hr⟩ := Option.map_eq_some_iff.mp h
    have hframe : PromptFrame ctx.timestamp anyone s _ :=
      promptFrame_submitEffect s (fun _ _ => trivial) (fun _ _ => trivial) hp
    exact leaves_render (.of_promptFrame hframe rfl) hr

theorem leaves_operates (h : Operates host ctx tx s r s') : Leaves tx.kind.writes s s' := by
  unfold Operates at h
  split at h
  · rename_i id hk
    have hframe : PromptFrame ctx.timestamp anyone s (s.fundContract tx.from_ id tx.value tx.nonce
        ctx.timestamp).2 := promptFrame_fundContract s trivial trivial
    rw [hk]
    exact leaves_render (.of_promptFrame hframe rfl) h
  · exact leaves_hubOp h

-- A transaction that succeeds or fails in its operation runs it between two changes of the ledger.
theorem applyTx_operates (h : applyTx host ctx tx s = some (o, s')) :
    (o.any OpOutcome.success = false ∧ Leaves {} s s') ∨
    ∃ s₀ r s₁, Leaves {} s s₀ ∧ Operates host ctx tx s₀ r s₁ ∧ Leaves {} s₁ s' ∧
      o.any OpOutcome.success = r.toOption.isSome := by
  have hone : ∀ {l : Ledger} {r : Except String OpResult} {s₁ : MemState},
      applyOne host ctx tx { s with ledger := l } = some (r, s₁) →
      (r.toOption.isSome = false ∧ Leaves {} s s₁) ∨
      ∃ s₀, Leaves {} s s₀ ∧ Operates host ctx tx s₀ r s₁ := by
    intro l r s₁ hone
    unfold applyOne at hone
    split at hone
    · rename_i to_ value hk
      have hledger : Leaves {} s s₁ := leaves_render (.ledger _) (Option.some.inj hone)
      cases r with
      | error e => exact Or.inl ⟨rfl, hledger⟩
      | ok result =>
        refine Or.inr ⟨s₁, hledger, ?_⟩
        simp only [Operates, hk, hubOp]
        rw [result_of_render (Option.some.inj hone)]
    · rename_i id hk
      refine Or.inr ⟨{ s with ledger := l }, .ledger l, ?_⟩
      simp only [Operates, hk]
      exact Option.some.inj hone
    · rename_i htransfer hfund
      cases hconsume : consumeNonce { s with ledger := l } tx.from_ tx.nonce ctx.timestamp with
      | mk res s₂ =>
        rw [hconsume] at hone
        cases res with
        | error e =>
          cases hone
          rw [consumeNonce_error hconsume]
          exact Or.inl ⟨rfl, .ledger l⟩
        | ok u =>
          refine Or.inr ⟨s₂, ?_, ?_⟩
          · rw [(consumeNonce_ok hconsume).2]
            exact .ledger _
          · unfold Operates
            split
            · exact absurd ‹_› (hfund _)
            · exact hone
  unfold applyTx at h
  generalize s.ledger.chargeFee tx.from_ tx.kind.gas ctx.timestamp = p at h
  obtain ⟨res, l⟩ := p
  cases res with
  | error e =>
    cases h
    exact Or.inl ⟨rfl, .ledger l⟩
  | ok fee =>
    simp only [afterFee] at h
    cases hrun : applyOne host ctx tx { s with ledger := l } with
    | none =>
      rw [hrun] at h
      cases h
    | some p =>
      obtain ⟨r, s₁⟩ := p
      rw [hrun] at h
      have hend : Leaves {} s₁ s' ∧ o.any OpOutcome.success = r.toOption.isSome := by
        cases r with
        | ok result =>
          cases h
          exact ⟨.refl, rfl⟩
        | error e =>
          cases h
          exact ⟨.ledger _, rfl⟩
      rcases hone hrun with ⟨hr, hleaves⟩ | ⟨s₀, hleaves, hoperates⟩
      · exact Or.inl ⟨hend.2.trans hr, hleaves.trans hend.1⟩
      · exact Or.inr ⟨s₀, r, s₁, hleaves, hoperates, hend.1, hend.2⟩

theorem leaves_sweepSybilOne (subject : Address) :
    Leaves { humanity := true } s (sweepSybilOne host ctx.blockHash ctx.number s subject) := by
  have hframe : Frame ctx.timestamp anyone s _ :=
    frame_sweepSybilOne host s ctx.blockHash ctx.number subject
  refine .of_frame hframe rfl fun _ => ?_
  unfold sweepSybilOne
  split_ifs
  · rfl
  · exact zk_challengeInner s _ _ _ _ _ _ _

theorem leaves_sweepFinalizeOne (subject : Address) :
    Leaves { humanity := true } s (sweepFinalizeOne ctx s subject) := by
  have hframe : Frame ctx.timestamp anyone s (sweepFinalizeOne ctx s subject) :=
    frame_finalizeRegistration s subject ctx.number ctx.timestamp fun _ => trivial
  exact .of_frame hframe rfl fun _ => zk_finalizeRegistration s _ _ _

theorem leaves_runSweeps : Leaves { humanity := true } s (runSweeps host ctx s) := by
  have hscan : Leaves { humanity := true } s
      (sweepSybilScan host s ctx.blockHash ctx.number) :=
    Run.foldl_invariant (P := fun s₁ : MemState => Leaves { humanity := true } s s₁)
      (fun s₁ a h => h.trans (leaves_sweepSybilOne a)) _ .refl
  exact Run.foldl_invariant (P := fun s₁ : MemState => Leaves { humanity := true } s s₁)
    (fun s₁ a h => h.trans (leaves_sweepFinalizeOne a)) _ hscan

-- The jurors are those of the genesis.
theorem jurors_step {e : Event} (h : step host s e = some (o, s')) :
    s'.humanity.jurors = s.humanity.jurors := by
  have hchanges : Changes (fun _ _ => True) s s' := changes_step (fun _ _ _ _ => trivial) h
  exact jurors_changes s hchanges

end

end Ubi2.Exec
