import Ubi2.Exec.Inclusion
import Ubi2.Exec.Supply
import Ubi2.Exec.Vouching
import Ubi2.Runtime.Restorable

namespace Ubi2.Exec

open Ubi2.Runtime Ubi2.Runtime.Ledger Ubi2.Runtime.MemState Ubi2.Lib

-- The effect that a transaction submits is under its own hash.
def KernelKind.Hashed : KernelKind → Prop
  | .SubmitEffect _ effect => effect.Hashed
  | _ => True

-- So is every effect that the jury of an invocation answers with.
def Host.Hashes (host : Host) : Prop :=
  ∀ text view trigger, (host.interpreter.interpret text view trigger).Hashed

section
variable {host : Host} {ctx : BlockCtx} {tx : KernelTx} {s s' : MemState}
variable {r : Except String OpResult} {o : Option OpOutcome}

private theorem settles_of_render {ε α : Type} {display : ε → String} {result : α → OpResult}
    {p : Except ε α × MemState} (hp : Settles s p.2)
    (h : some (render display result p) = some (r, s')) : Settles s s' := by
  rw [snd_of_render h]
  exact hp

private theorem settles_governed {change : ZkRegistry → Except CscaGovError ZkRegistry}
    {caller : Address} (hscope : (s.governed caller change).2.zk.selfScope = s.zk.selfScope) :
    Settles s (s.governed caller change).2 := by
  have hframe : Frame 0#64 anyone s _ := frame_governed s caller change
  exact .of_frame hframe hscope

private theorem settles_renderDeploy {number : U64} {txHash : Hash}
    {p : Except ContractError ContractId × MemState} (h : Settles s p.2) :
    Settles s (renderDeploy number txHash p).2 := by
  obtain ⟨res, s₁⟩ := p
  cases res with
  | error e => exact h
  | ok id =>
    simp only [renderDeploy, stampDeploy]
    cases hget : s₁.getContract id with
    | none => exact h
    | some c =>
      refine h.trans ⟨rfl, rfl, fun hs => ?_⟩
      exact ContractRegistry.Faithful.putContract hs (hs.parties c (Table.mem_of_get hget))

theorem settles_hubOp (hhost : host.Hashes) (htx : tx.kind.Hashed)
    (h : hubOp host ctx tx s = some (r, s')) : Settles s s' := by
  unfold hubOp at h
  cases hk : tx.kind with
  | Transfer to_ value =>
    simp only [hk] at h
    cases h
    exact .refl
  | FundContract id =>
    simp only [hk] at h
    cases h
    exact .refl
  | OpenStream to_ rate deposit =>
    simp only [hk] at h
    exact settles_of_render ⟨rfl, rfl, id⟩ h
  | StopStream id =>
    simp only [hk] at h
    obtain ⟨p, -, hp⟩ := Option.map_eq_some_iff.mp h
    exact settles_of_render ⟨rfl, rfl, fun hs => hs⟩ (congrArg some hp)
  | RequestVerification livenessRef =>
    simp only [hk] at h
    obtain ⟨p, hp, hr⟩ := Option.map_eq_some_iff.mp h
    have hzk := zk_requestVerification s hp
    obtain ⟨r₂, s₂, h₂, hframe⟩ : ∃ r₂ s₂, _ = some (r₂, s₂) ∧ Frame ctx.timestamp anyone s s₂ :=
      frame_requestVerification s host.oracle host.usizeBits tx.from_ _
        (blockEntropy ctx.blockHash ctx.number) ctx.number
    rw [h₂] at hp
    cases hp
    exact settles_of_render (.of_frame hframe (by rw [hzk])) (congrArg some hr)
  | Vouch vouchee =>
    simp only [hk] at h
    have hframe : Frame ctx.timestamp anyone s _ := frame_vouch s tx.from_ vouchee ctx.number
    exact settles_of_render (.of_frame hframe (by rw [zk_vouch])) h
  | Challenge subject evidenceRef =>
    simp only [hk] at h
    have hframe : Frame ctx.timestamp anyone s (s.challenge host.usizeBits tx.from_ subject
        evidenceRef (blockEntropy ctx.blockHash ctx.number) ctx.number).2 :=
      frame_challengeInner s _ _ _ _ _ _ true
    exact settles_of_render (.of_frame hframe (congrArg _ (zk_challengeInner s _ _ _ _ _ _ true))) h
  | SubmitVerdict caseId verdict =>
    simp only [hk] at h
    have hframe : Frame ctx.timestamp anyone s (s.submitVerdict caseId tx.from_ verdict
        ctx.number).2 := frame_submitVerdict s (fun _ _ _ _ => trivial) fun _ _ _ _ _ _ => trivial
    exact settles_of_render (.of_frame hframe (by rw [zk_submitVerdict])) h
  | SubmitZkPassportProof submission =>
    simp only [hk] at h
    have hframe : Frame ctx.timestamp anyone s _ := frame_submitZkPassportProof s host.verifier
      host.userIdentifierHash tx.from_ submission ctx.timestamp ctx.number trivial
    exact settles_of_render (.of_frame hframe (scope_submitZkPassportProof s _ _ _ _ _ _)) h
  | RegisterCsca countryCode keyId pubkey =>
    simp only [hk] at h
    refine settles_of_render (settles_governed ?_) h
    exact scope_governed s tx.from_ (fun zk zk' hzk => by cases hzk; rfl)
  | RevokeCsca keyId =>
    simp only [hk] at h
    exact settles_of_render (settles_governed (scope_revokeCsca s tx.from_ keyId)) h
  | PinSelfIdentityRoot root =>
    simp only [hk] at h
    refine settles_of_render (settles_governed ?_) h
    exact scope_governed s tx.from_ (fun zk zk' hzk => by cases hzk; rfl)
  | PinSelfOfacRoot kind root =>
    simp only [hk] at h
    refine settles_of_render (settles_governed ?_) h
    exact scope_governed s tx.from_ (fun zk zk' hzk => by cases hzk; rfl)
  | RetireSelfRoot root =>
    simp only [hk] at h
    refine settles_of_render (settles_governed ?_) h
    exact scope_governed s tx.from_ (fun zk zk' hzk => by cases hzk; rfl)
  | DeployContract text parties =>
    simp only [hk] at h
    have hframe : PromptFrame ctx.timestamp anyone s _ :=
      promptFrame_deployContract s text (textCommitment host text) parties
    have hdeploy : Settles s (s.deployContract text (textCommitment host text) parties).2 :=
      .of_promptFrame hframe fun hs => faithful_deployContract hs text _ parties
    have hs' := congrArg Prod.snd (Option.some.inj h)
    rw [← show _ = s' from hs']
    exact settles_renderDeploy hdeploy
  | InvokeContract id triggerRef =>
    simp only [hk] at h
    obtain ⟨p, hp, hr⟩ := Option.map_eq_some_iff.mp h
    have hframe : PromptFrame ctx.timestamp anyone s _ :=
      promptFrame_invokeContract s trivial trivial hp
    exact settles_of_render
      (.of_promptFrame hframe fun hs => faithful_invokeContract hs hhost hp) (congrArg some hr)
  | SubmitEffect caseId effect =>
    simp only [hk] at h htx
    obtain ⟨p, hp, hr⟩ := Option.map_eq_some_iff.mp h
    have hframe : PromptFrame ctx.timestamp anyone s _ :=
      promptFrame_submitEffect s (fun _ _ => trivial) (fun _ _ => trivial) hp
    exact settles_of_render
      (.of_promptFrame hframe fun hs => faithful_submitEffect hs htx hp) (congrArg some hr)

theorem settles_applyOne (hhost : host.Hashes) (htx : tx.kind.Hashed)
    (h : applyOne host ctx tx s = some (r, s')) : Settles s s' := by
  unfold applyOne at h
  split at h
  · exact settles_of_render ⟨rfl, rfl, id⟩ h
  · rename_i id hk
    have hframe : PromptFrame ctx.timestamp anyone s (s.fundContract tx.from_ id tx.value tx.nonce
        ctx.timestamp).2 := promptFrame_fundContract s trivial trivial
    exact settles_of_render
      (.of_promptFrame hframe fun hs => faithful_fundContract hs _ _ _ _) h
  · cases hconsume : consumeNonce s tx.from_ tx.nonce ctx.timestamp with
    | mk res s₁ =>
      rw [hconsume] at h
      cases res with
      | error e =>
        cases h
        rw [consumeNonce_error hconsume]
        exact .refl
      | ok u =>
        have hnonce : Settles s s₁ := by
          rw [(consumeNonce_ok hconsume).2]
          exact ⟨rfl, rfl, fun hs => hs⟩
        exact hnonce.trans (settles_hubOp hhost htx h)

theorem settles_prepares (h : Prepares ctx tx s s') : Settles s s' := by
  obtain ⟨fee, l, -, hconsume⟩ := h
  rw [(consumeNonce_ok hconsume).2]
  exact ⟨rfl, rfl, fun hs => hs⟩

theorem settles_applyTx (hhost : host.Hashes) (htx : tx.kind.Hashed)
    (h : applyTx host ctx tx s = some (o, s')) : Settles s s' := by
  obtain ⟨e, l, -, -, rfl⟩ | ⟨fee, l, r, s₁, -, hone, -, rfl⟩ := applyTx_cases h
  · exact ⟨rfl, rfl, fun hs => hs⟩
  · have hcharged : Settles s { s with ledger := l } := ⟨rfl, rfl, fun hs => hs⟩
    have hrun := hcharged.trans (settles_applyOne hhost htx hone)
    cases r with
    | ok result => exact hrun
    | error e => exact hrun.trans ⟨rfl, rfl, fun hs => hs⟩

private theorem settles_scan (done : List Address) :
    Settles s (done.foldl (sweepSybilOne host ctx.blockHash ctx.number) s) := by
  refine Run.foldl_invariant (P := fun s₁ : MemState => Settles s s₁) (fun s₁ a h => ?_) done .refl
  have hframe : Frame ctx.timestamp anyone s₁ _ :=
    frame_sweepSybilOne host s₁ ctx.blockHash ctx.number a
  refine h.trans (.of_frame hframe ?_)
  unfold sweepSybilOne
  split_ifs
  · rfl
  · exact congrArg _ (zk_challengeInner s₁ _ _ _ _ _ _ _)

private theorem settles_finalize (done : List Address) :
    Settles s (done.foldl (sweepFinalizeOne ctx) s) := by
  refine Run.foldl_invariant (P := fun s₁ : MemState => Settles s s₁) (fun s₁ a h => ?_) done .refl
  have hframe : Frame ctx.timestamp anyone s₁ (sweepFinalizeOne ctx s₁ a) :=
    frame_finalizeRegistration s₁ a ctx.number ctx.timestamp fun _ => trivial
  exact h.trans (.of_frame hframe (congrArg _ (zk_finalizeRegistration s₁ _ _ _)))

theorem settles_runSweeps : Settles s (runSweeps host ctx s) :=
  (settles_scan _).trans (settles_finalize _)

-- What holds of every state of a chain, and keeps it restorable.
structure Rebuildable (s : MemState) : Prop extends s.Restorable where
  booked : s.ledger.Booked
  vouching : s.Vouching

-- The validators are the only part of a state that is replaced as a whole.
theorem Rebuildable.refreshed (hs : Rebuildable s) : Rebuildable s.refreshEpochValidators := by
  have hchange : Change (fun _ _ => True) s s.refreshEpochValidators := .frame rfl rfl
  exact ⟨⟨hs.linked, hs.mirror, hs.active, hs.prompt, sortDedup_sortDedup _⟩, hs.booked,
    vouching_change hchange hs.vouching⟩

theorem Rebuildable.within (hs : Rebuildable s) (hhost : host.Hashes)
    (h : Within host (fun tx => tx.kind.Hashed) ctx s s') :
    Rebuildable s' ∧ s'.zk.selfScope = s.zk.selfScope := by
  have hmoves : Moves ctx.timestamp anyone s.ledger s'.ledger :=
    moves_within (fun _ _ _ => trivial) (fun _ _ => trivial)
      (fun tx s₁ _ _ => needs_anyone tx s₁) (fun _ => trivial) h
  have hchanges := changes_within h
  have hvouching := vouching_changes hchanges hs.vouching
  have hjurors := jurors_changes s hchanges
  have hsettled : Settles s s' → Rebuildable s' ∧ s'.zk.selfScope = s.zk.selfScope := by
    intro hsettles
    refine ⟨⟨⟨hs.linked.moves hs.booked hmoves, hvouching.mirror, ?_, hsettles.prompt hs.prompt, ?_⟩,
      hs.booked.moves hmoves, hvouching⟩, hsettles.scope⟩
    · rw [hjurors]
      exact hs.active
    · rw [hsettles.validators]
      exact hs.validators
  cases h with
  | applied htx h => exact hsettled (settles_applyTx hhost htx h)
  | prepared htx h => exact hsettled (settles_prepares h)
  | scanning done h => exact hsettled (settles_scan done)
  | finalizing done h => exact hsettled ((settles_scan _).trans (settles_finalize done))
  | refreshed => exact ⟨hs.refreshed, rfl⟩

end

namespace Genesis

theorem active (g : Genesis) : ∀ j ∈ g.state.humanity.jurors.rows, j.active = true := by
  have hnone (s : MemState) (hs : s.humanity.jurors = ∅) :
      ∀ j ∈ s.humanity.jurors.rows, j.active = true := by
    intro j hj
    rw [hs] at hj
    cases hj
  have haccounts : (g.accounts.foldl seedAccount { zk := g.seedZk }).humanity.jurors = ∅ :=
    Run.foldl_keeps (f := seedAccount) (fun s : MemState => s.humanity.jurors) (fun _ _ => rfl)
      g.accounts _
  have hhumans : (g.humans.foldl (seedHuman g.time)
      (g.accounts.foldl seedAccount { zk := g.seedZk })).humanity.jurors = ∅ :=
    (Run.foldl_keeps (f := seedHuman g.time) (fun s : MemState => s.humanity.jurors)
      (fun _ _ => rfl) g.humans _).trans haccounts
  refine Run.foldl_invariant (f := fun s j => s.registerJuror j.1 j.2)
    (P := fun s : MemState => ∀ j ∈ s.humanity.jurors.rows, j.active = true)
    (fun s j hs i hi => ?_) g.jurors (hnone _ hhumans)
  rcases Table.mem_put.mp hi with rfl | ⟨hmem, -⟩
  · rfl
  · exact hs i hmem

-- Nothing but accounts, humans, jurors and the trust roots is seeded.
theorem unseeded (g : Genesis) : g.state.prompt = {} ∧ g.state.epochValidators = [] ∧
    g.state.zk.selfScope = g.scope := by
  have hkeeps : (g.state.prompt, g.state.epochValidators, g.state.zk) =
      (({} : ContractRegistry), ([] : List Address), g.seedZk) := by
    have hjurors := Run.foldl_keeps (f := fun (s : MemState) j => s.registerJuror j.1 j.2)
      (fun s : MemState => (s.prompt, s.epochValidators, s.zk)) (fun _ _ => rfl) g.jurors
      (g.humans.foldl (seedHuman g.time) (g.accounts.foldl seedAccount { zk := g.seedZk }))
    have hhumans := Run.foldl_keeps (f := seedHuman g.time)
      (fun s : MemState => (s.prompt, s.epochValidators, s.zk)) (fun _ _ => rfl) g.humans
      (g.accounts.foldl seedAccount { zk := g.seedZk })
    have haccounts := Run.foldl_keeps (f := seedAccount)
      (fun s : MemState => (s.prompt, s.epochValidators, s.zk)) (fun _ _ => rfl) g.accounts
      { zk := g.seedZk }
    exact hjurors.trans (hhumans.trans haccounts)
  have hscope : g.seedZk.selfScope = g.scope := by
    have hofac := Run.foldl_keeps (f := seedOfacRoot) ZkRegistry.selfScope (fun _ _ => rfl)
      g.ofacRoots (g.identityRoots.foldl seedIdentityRoot
        { cscaGovernance := g.governance, selfScope := g.scope })
    have hidentity := Run.foldl_keeps (f := seedIdentityRoot) ZkRegistry.selfScope
      (fun _ _ => rfl) g.identityRoots { cscaGovernance := g.governance, selfScope := g.scope }
    exact hofac.trans hidentity
  simp only [Prod.mk.injEq] at hkeeps
  exact ⟨hkeeps.1, hkeeps.2.1, by rw [hkeeps.2.2, hscope]⟩

theorem rebuildable (g : Genesis) : Rebuildable g.state := by
  obtain ⟨hprompt, hvalidators, -⟩ := g.unseeded
  refine ⟨⟨?_, g.vouching.1.mirror, g.active, ?_, ?_⟩, g.booked, g.vouching.1⟩
  · exact g.ledger_induction .empty fun _ x _ h => h.put x
  · rw [hprompt]
    exact .empty
  · rw [hvalidators]
    rfl

end Genesis

-- A step of a run is part of the processing of a block.
theorem within_step {host : Host} {admits : KernelTx → Prop} {s s' : MemState} {e : Event}
    {o : Option OpOutcome} (htx : ∀ tx, e.action = .tx tx → admits tx)
    (hstep : step host s e = some (o, s')) : Within host admits e.ctx s s' := by
  unfold step at hstep
  cases haction : e.action with
  | tx tx =>
    rw [haction] at hstep
    exact .applied (htx tx haction) hstep
  | sweeps =>
    rw [haction] at hstep
    cases hstep
    exact within_runSweeps host admits e.ctx s
  | refresh =>
    rw [haction] at hstep
    cases hstep
    exact .refreshed s

-- The effects that transactions submit come under their own hashes.
def HashedEvent (e : Event) : Prop := ∀ tx, e.action = .tx tx → tx.kind.Hashed

theorem Rebuildable.run {host : Host} (hhost : host.Hashes) {es : List Event} {s s' : MemState}
    (hes : ∀ e ∈ es, HashedEvent e) (hs : Rebuildable s) (hrun : run host s es = some s') :
    Rebuildable s' ∧ s'.zk.selfScope = s.zk.selfScope := by
  induction es generalizing s with
  | nil =>
    cases hrun
    exact ⟨hs, rfl⟩
  | cons e es ih =>
    rw [Exec.run] at hrun
    cases hstep : step host s e with
    | none => simp [hstep] at hrun
    | some p =>
      obtain ⟨o, s₁⟩ := p
      rw [hstep] at hrun
      have hwithin := within_step (hes e List.mem_cons_self) hstep
      obtain ⟨hs₁, hscope₁⟩ := hs.within hhost hwithin
      obtain ⟨hs', hscope'⟩ := ih (fun e' he' => hes e' (List.mem_cons_of_mem e he')) hs₁ hrun
      exact ⟨hs', hscope'.trans hscope₁⟩

end Ubi2.Exec
