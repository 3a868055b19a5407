import Ubi2.Exec.Moves
import Ubi2.Runtime.Lifecycle.Gate

namespace Ubi2.Exec

open Ubi2.Runtime Ubi2.Runtime.Ledger Ubi2.Runtime.MemState Ubi2.Lib

-- What the node seeds the state with: funded accounts, verified humans whose emission
-- starts at the genesis time, jurors with their stakes, and the trust roots.
structure Genesis where
  time : U64
  accounts : List (Address × U128) := []
  humans : List Address := []
  jurors : List (Address × U128) := []
  governance : Option Address := none
  identityRoots : List Hash := []
  ofacRoots : List (U8 × Hash) := []
  scope : Option Hash := none

namespace Genesis

def seedAccount (s : MemState) (a : Address × U128) : MemState :=
  s.put { address := a.1, settledBalance := a.2 }

def seedHuman (time : U64) (s : MemState) (a : Address) : MemState :=
  (s.put { address := a, verified := true, verifiedAt := time, lastSettledAt := time
    }).seedVerifiedHuman a time

def seedIdentityRoot (zk : ZkRegistry) (root : Hash) : ZkRegistry :=
  { zk with selfIdentityRoots :=
    zk.selfIdentityRoots.put { root := root, pinnedAtBlock := 0#64 } }

def seedOfacRoot (zk : ZkRegistry) (e : U8 × Hash) : ZkRegistry :=
  { zk with selfOfacRoots :=
    zk.selfOfacRoots.put { kind := e.1, root := e.2, pinnedAtBlock := 0#64 } }

def seedZk (g : Genesis) : ZkRegistry :=
  let zk : ZkRegistry := { cscaGovernance := g.governance, selfScope := g.scope }
  g.ofacRoots.foldl seedOfacRoot (g.identityRoots.foldl seedIdentityRoot zk)

def state (g : Genesis) : MemState :=
  let s : MemState := { zk := g.seedZk }
  let s := g.accounts.foldl seedAccount s
  let s := g.humans.foldl (seedHuman g.time) s
  g.jurors.foldl (fun s j => s.registerJuror j.1 j.2) s

-- A registry of verified humans with no vouches and no cases.
structure Seeded (r : HumanRegistry) : Prop where
  cases : r.cases = ∅
  nextCaseId : r.nextCaseId = 0
  forward : r.vouchesOutIdx = ∅
  reverse : r.vouchersOfIdx = ∅
  humans : ∀ a h, r.getHuman a = some h → h.status = .Verified ∧ h.vouchesIn = []

theorem seeded (g : Genesis) : Seeded g.state.humanity := by
  have haccounts : ∀ s : MemState,
      (g.accounts.foldl seedAccount s).humanity = s.humanity :=
    Run.foldl_keeps (f := seedAccount) MemState.humanity (fun _ _ => rfl) g.accounts
  have hhuman : ∀ (s : MemState) (a : Address), Seeded s.humanity →
      Seeded (seedHuman g.time s a).humanity := by
    intro s a hs
    refine ⟨hs.cases, hs.nextCaseId, hs.forward, hs.reverse, fun b h hget => ?_⟩
    have hput : (seedHuman g.time s a).humanity.getHuman b =
        if a = b then _ else s.humanity.getHuman b := Table.get_put _ _ _
    rw [hput] at hget
    split_ifs at hget
    · cases hget
      exact ⟨rfl, rfl⟩
    · exact hs.humans b h hget
  have hjuror : ∀ (s : MemState) (j : Address × U128), Seeded s.humanity →
      Seeded (s.registerJuror j.1 j.2).humanity :=
    fun s j hs => ⟨hs.cases, hs.nextCaseId, hs.forward, hs.reverse, hs.humans⟩
  have hstart : Seeded (g.accounts.foldl seedAccount { zk := g.seedZk }).humanity := by
    rw [haccounts]
    exact ⟨rfl, rfl, rfl, rfl, fun a h hget => by cases hget⟩
  exact Run.foldl_invariant (P := fun s : MemState => Seeded s.humanity) hjuror g.jurors
    (Run.foldl_invariant (P := fun s : MemState => Seeded s.humanity) hhuman g.humans hstart)

end Genesis

-- The fee and the nonce of a transaction are taken, and its operation is to run.
def Prepares (ctx : BlockCtx) (tx : KernelTx) (s s' : MemState) : Prop :=
  ∃ fee l, s.ledger.chargeFee tx.from_ tx.kind.gas ctx.timestamp = (.ok fee, l) ∧
    consumeNonce { s with ledger := l } tx.from_ tx.nonce ctx.timestamp = (.ok (), s')

def sweepFinalizeOne (ctx : BlockCtx) (s : MemState) (subject : Address) : MemState :=
  (s.finalizeRegistration subject ctx.number ctx.timestamp).2

-- The states that the processing of a block passes through.
inductive Within (host : Host) (admits : KernelTx → Prop) (ctx : BlockCtx) :
    MemState → MemState → Prop where
  | applied {s s' : MemState} {tx : KernelTx} {o : Option OpOutcome} (htx : admits tx)
      (h : applyTx host ctx tx s = some (o, s')) : Within host admits ctx s s'
  | prepared {s s' : MemState} {tx : KernelTx} (htx : admits tx) (h : Prepares ctx tx s s') :
      Within host admits ctx s s'
  | scanning (s : MemState) (done : List Address) (h : done <+: pendingHumans s) :
      Within host admits ctx s (done.foldl (sweepSybilOne host ctx.blockHash ctx.number) s)
  | finalizing (s : MemState) (done : List Address)
      (h : done <+: pendingHumans (sweepSybilScan host s ctx.blockHash ctx.number)) :
      Within host admits ctx s
        (done.foldl (sweepFinalizeOne ctx)
          (sweepSybilScan host s ctx.blockHash ctx.number))
  | refreshed (s : MemState) : Within host admits ctx s s.refreshEpochValidators

-- The states of the chains whose transactions are all admitted, with the time that each
-- has reached. Time does not run backwards.
inductive ReachableBy (host : Host) (admits : KernelTx → Prop) : U64 → MemState → Prop where
  | genesis (g : Genesis) : ReachableBy host admits g.time g.state
  | next {t : U64} {s s' : MemState} {ctx : BlockCtx} (h : ReachableBy host admits t s)
      (htime : t ≤ ctx.timestamp) (hwithin : Within host admits ctx s s') :
      ReachableBy host admits ctx.timestamp s'

def Reachable (host : Host) : U64 → MemState → Prop := ReachableBy host fun _ => True

-- The sweeps of a block end in a state that is passed through.
theorem within_runSweeps (host : Host) (admits : KernelTx → Prop) (ctx : BlockCtx)
    (s : MemState) : Within host admits ctx s (runSweeps host ctx s) :=
  .finalizing s _ (List.prefix_refl _)

-- A step of a run is a step between reachable states.
theorem ReachableBy.step {host : Host} {admits : KernelTx → Prop} {t : U64} {s s' : MemState}
    {e : Event} {o : Option OpOutcome} (h : ReachableBy host admits t s)
    (htime : t ≤ e.ctx.timestamp) (htx : ∀ tx, e.action = .tx tx → admits tx)
    (hstep : step host s e = some (o, s')) : ReachableBy host admits e.ctx.timestamp s' := by
  unfold Exec.step at hstep
  cases haction : e.action with
  | tx tx =>
    rw [haction] at hstep
    exact .next h htime (.applied (htx tx haction) hstep)
  | sweeps =>
    rw [haction] at hstep
    cases hstep
    exact .next h htime (within_runSweeps host admits e.ctx s)
  | refresh =>
    rw [haction] at hstep
    cases hstep
    exact .next h htime (.refreshed s)

-- The time that a list of events leads to, and that it never runs backwards.
def lastTime : U64 → List Event → U64
  | t, [] => t
  | _, e :: es => lastTime e.ctx.timestamp es

def Ordered : U64 → List Event → Prop
  | _, [] => True
  | t, e :: es => t ≤ e.ctx.timestamp ∧ Ordered e.ctx.timestamp es

instance : (t : U64) → (es : List Event) → Decidable (Ordered t es)
  | _, [] => .isTrue trivial
  | t, e :: es =>
    have := instDecidableOrdered e.ctx.timestamp es
    inferInstanceAs (Decidable (t ≤ e.ctx.timestamp ∧ Ordered e.ctx.timestamp es))

-- A run of a list of events leads from a reachable state to one.
theorem Reachable.run {host : Host} {t : U64} {s s' : MemState} {es : List Event}
    (h : Reachable host t s) (hordered : Ordered t es) (hrun : run host s es = some s') :
    Reachable host (lastTime t es) s' := by
  induction es generalizing t s with
  | nil =>
    cases hrun
    exact h
  | cons e es ih =>
    rw [Exec.run] at hrun
    cases he : Exec.step host s e with
    | none => simp [he] at hrun
    | some p =>
      obtain ⟨o, s₁⟩ := p
      rw [he] at hrun
      exact ih (ReachableBy.step h hordered.1 (fun _ _ => trivial) he) hordered.2 hrun

section Changes

variable {ok : HumanRegistry → Address → Prop}
variable {host : Host} {ctx : BlockCtx} {tx : KernelTx} {s s' : MemState}
variable {r : Except String OpResult}

-- The transaction would decide a case against the address.
def Upholds (tx : KernelTx) (s : MemState) (a : Address) : Prop :=
  match tx.kind with
  | .SubmitVerdict caseId v =>
    ∃ c c', s.Votes caseId tx.from_ v c c' ∧ c'.upholds ∧ a = c'.subject
  | _ => False

theorem Upholds.congr {a : Address} (h : Upholds tx s' a) (hhum : s'.humanity = s.humanity) :
    Upholds tx s a := by
  unfold Upholds at h ⊢
  cases hk : tx.kind with
  | SubmitVerdict caseId v =>
    simp only [hk] at h ⊢
    obtain ⟨c, c', hvotes, hup, ha⟩ := h
    refine ⟨c, c', ⟨?_, hvotes.isOpen, hvotes.onJury, hvotes.first, hvotes.tallied⟩, hup, ha⟩
    have hget := hvotes.get
    simp only [getCase, hhum] at hget ⊢
    exact hget
  | _ => simp [hk] at h

private theorem changes_of_render {ε α : Type} {display : ε → String} {result : α → OpResult}
    {p : Except ε α × MemState} (hp : Changes ok s p.2)
    (h : some (render display result p) = some (r, s')) : Changes ok s s' := by
  have hs : s' = p.2 := by
    rw [← render_snd display result p, Option.some.inj h]
  rw [hs]
  exact hp

private theorem changes_of_map {ε α : Type} {display : ε → String} {result : α → OpResult}
    {o : Option (Except ε α × MemState)} (ho : ∀ p s₁, o = some (p, s₁) → Changes ok s s₁)
    (h : o.map (render display result) = some (r, s')) : Changes ok s s' := by
  cases o with
  | none => cases h
  | some p => exact changes_of_render (ho p.1 p.2 rfl) h

-- What a transfer can do: every account but its signer's is paid at most.
def ungated : Authority :=
  { spends := fun _ => True, renonces := fun _ => True, gates := fun _ _ _ => False }

theorem ungated_gates (x : Account) (v : Bool) (t : U64) : ¬ ungated.gates x v t :=
  id

private theorem changes_ledger {l : Ledger} (h : Moves ctx.timestamp ungated s.ledger l) :
    Changes ok s { s with ledger := l } :=
  changes_of_moves s rfl h ungated_gates

private theorem changes_prompt (h : PromptFrame ctx.timestamp ungated s s') : Changes ok s s' :=
  changes_of_moves s h.humanity h.moves ungated_gates

-- Every hub operation is at most one change of the humanity layer.
theorem changes_hubOp (hok : ∀ a, Upholds tx s a → ok s.humanity a)
    (h : hubOp host ctx tx s = some (r, s')) : Changes ok s s' := by
  unfold hubOp at h
  cases hk : tx.kind with
  | Transfer to_ value =>
    simp only [hk] at h
    cases h
    exact .refl
  | FundContract id =>
    simp only [hk] at h
    cases h
    exact .refl
  | OpenStream to_ rate deposit =>
    simp only [hk] at h
    exact changes_of_render (changes_ledger (moves_openStream s.ledger rate deposit trivial)) h
  | StopStream id =>
    simp only [hk] at h
    cases hstop : s.ledger.stopStream id tx.from_ ctx.timestamp with
    | none => simp [hstop] at h
    | some p =>
      rw [hstop] at h
      exact changes_of_render (changes_ledger (moves_stopStream s.ledger trivial hstop)) h
  | RequestVerification livenessRef =>
    simp only [hk] at h
    exact changes_of_map (fun p s₁ hp => changes_requestVerification s hp) h
  | Vouch vouchee =>
    simp only [hk] at h
    exact changes_of_render (changes_vouch s rfl) h
  | Challenge subject evidenceRef =>
    simp only [hk] at h
    exact changes_of_render (changes_challengeInner s rfl) h
  | SubmitVerdict caseId verdict =>
    simp only [hk] at h
    have hres : s.submitVerdict caseId tx.from_ verdict ctx.number =
        ((s.submitVerdict caseId tx.from_ verdict ctx.number).1,
          (s.submitVerdict caseId tx.from_ verdict ctx.number).2) := rfl
    refine changes_of_render (changes_submitVerdict s ?_ hres) h
    intro c c' hvotes hup
    refine hok c'.subject ?_
    simp only [Upholds, hk]
    exact ⟨c, c', hvotes, hup, rfl⟩
  | SubmitZkPassportProof submission =>
    simp only [hk] at h
    exact changes_of_render (changes_submitZkPassportProof s rfl) h
  | RegisterCsca countryCode keyId pubkey =>
    simp only [hk] at h
    exact changes_of_render (changes_governed s _ _) h
  | RevokeCsca keyId =>
    simp only [hk] at h
    exact changes_of_render (changes_governed s _ _) h
  | PinSelfIdentityRoot root =>
    simp only [hk] at h
    exact changes_of_render (changes_governed s _ _) h
  | PinSelfOfacRoot kind root =>
    simp only [hk] at h
    exact changes_of_render (changes_governed s _ _) h
  | RetireSelfRoot root =>
    simp only [hk] at h
    exact changes_of_render (changes_governed s _ _) h
  | DeployContract text parties =>
    simp only [hk] at h
    have hdeploy : PromptFrame ctx.timestamp ungated s _ :=
      promptFrame_deployContract s text (textCommitment host text) parties
    have hstamp : ∀ p : Except ContractError ContractId × MemState,
        (renderDeploy ctx.number tx.txHash p).2.humanity = p.2.humanity := by
      rintro ⟨r, s⟩
      cases r with
      | ok id =>
        simp only [renderDeploy, stampDeploy]
        cases s.getContract id <;> rfl
      | error e => rfl
    have hs := congrArg Prod.snd (Option.some.inj h)
    rw [← show _ = s' from hs]
    have hmoves : Moves ctx.timestamp ungated s.ledger (renderDeploy ctx.number tx.txHash
        (s.deployContract text (textCommitment host text) parties)).2.ledger := by
      rw [ledger_renderDeploy]
      exact hdeploy.moves
    exact changes_of_moves s ((hstamp _).trans hdeploy.humanity) hmoves ungated_gates
  | InvokeContract id triggerRef =>
    simp only [hk] at h
    exact changes_of_map
      (fun p s₁ hp => changes_prompt (promptFrame_invokeContract s trivial trivial hp)) h
  | SubmitEffect caseId effect =>
    simp only [hk] at h
    exact changes_of_map (fun p s₁ hp => changes_prompt
      (promptFrame_submitEffect s (fun _ _ => trivial) (fun _ _ => trivial) hp)) h

theorem changes_chargeFee {l : Ledger} {res : Except FeeError U128} {gas : U64}
    {from_ : Address} (h : s.ledger.chargeFee from_ gas ctx.timestamp = (res, l)) :
    Changes ok s { s with ledger := l } := by
  have hmoves : Moves ctx.timestamp ungated s.ledger _ :=
    moves_chargeFee s.ledger (a := from_) gas fun _ => trivial
  rw [h] at hmoves
  exact changes_ledger hmoves

private theorem accountGate_put (x : Account) (hv : x.verified = (s.account x.address).verified)
    (ht : x.verifiedAt = (s.account x.address).verifiedAt) :
    (s.put x).accountGate = s.accountGate := by
  funext a
  have hput := account_put s.ledger x a
  simp only [accountGate, MemState.account, MemState.put] at hput ⊢
  rw [hput]
  split_ifs with hx
  · rw [← hx]
    simp only [Account.gate, hv, ht, MemState.account]
  · rfl

theorem changes_consumeNonce {a : Address} {nonce now : U64}
    (h : consumeNonce s a nonce now = (.ok (), s')) : Changes ok s s' := by
  obtain ⟨-, rfl⟩ := consumeNonce_ok h
  refine .single (.frame rfl (accountGate_put _ ?_ ?_))
  · simp [MemState.account]
  · simp [MemState.account]

theorem changes_failTx : Changes ok s (failTx ctx tx s) := by
  refine .single (.frame rfl (accountGate_put _ ?_ ?_))
  · simp [MemState.account]
  · simp [MemState.account]

theorem changes_prepares (h : Prepares ctx tx s s') : Changes ok s s' := by
  obtain ⟨fee, l, hfee, hnonce⟩ := h
  exact (changes_chargeFee hfee).trans (changes_consumeNonce hnonce)

theorem changes_applyOne (hok : ∀ s₁, consumeNonce s tx.from_ tx.nonce ctx.timestamp = (.ok (), s₁) →
    ∀ a, Upholds tx s a → ok s.humanity a)
    (h : applyOne host ctx tx s = some (r, s')) : Changes ok s s' := by
  unfold applyOne at h
  split at h
  · rename_i to_ value hk
    cases hres : s.ledger.applyTransfer tx.from_ to_ value tx.nonce ctx.timestamp with
    | mk res l =>
      rw [hres] at h
      exact changes_of_render (changes_ledger (moves_applyTransfer trivial trivial hres)) h
  · exact changes_of_render (changes_prompt (promptFrame_fundContract s trivial trivial)) h
  · cases hconsume : consumeNonce s tx.from_ tx.nonce ctx.timestamp with
    | mk res s₁ =>
      rw [hconsume] at h
      cases res with
      | error e =>
        cases h
        rw [consumeNonce_error hconsume]
        exact .refl
      | ok u =>
        have hhum : s₁.humanity = s.humanity := by
          rw [(consumeNonce_ok hconsume).2]
          rfl
        refine (changes_consumeNonce hconsume).trans (changes_hubOp (fun a ha => ?_) h)
        rw [hhum]
        exact hok s₁ hconsume a (ha.congr hhum)

-- The transaction gets to its operation, which decides a case against the address.
def Overrules (ctx : BlockCtx) (tx : KernelTx) (s : MemState) (a : Address) : Prop :=
  (∃ s₁, Prepares ctx tx s s₁) ∧ Upholds tx s a

theorem changes_applyTx {o : Option OpOutcome}
    (hok : ∀ a, Overrules ctx tx s a → ok s.humanity a)
    (h : applyTx host ctx tx s = some (o, s')) : Changes ok s s' := by
  obtain ⟨e, l, hfee, -, rfl⟩ | ⟨fee, l, r, s₁, hfee, hone, -, rfl⟩ := applyTx_cases h
  · exact changes_chargeFee hfee
  · have hrun : Changes ok s s₁ := by
      refine (changes_chargeFee hfee).trans (changes_applyOne (fun s₂ hnonce a ha => ?_) hone)
      exact hok a ⟨⟨s₂, fee, l, hfee, hnonce⟩, ha.congr rfl⟩
    cases r with
    | ok result => exact hrun
    | error e => exact hrun.trans changes_failTx

theorem changes_foldl {f : MemState → Address → MemState}
    (hf : ∀ s a, Changes ok s (f s a)) (xs : List Address) : Changes ok s (xs.foldl f s) := by
  induction xs generalizing s with
  | nil => exact .refl
  | cons x xs ih => exact (hf s x).trans ih

theorem changes_sweepSybilOne (blockHash : Hash) (nowBlock : U64) (s : MemState)
    (subject : Address) : Changes ok s (sweepSybilOne host blockHash nowBlock s subject) := by
  unfold sweepSybilOne
  split_ifs
  · exact .refl
  · have hres : s.challengeInner host.usizeBits HUMANITY_HUB subject
        (sybilEvidence host subject blockHash) (blockEntropy blockHash nowBlock) nowBlock false =
        ((s.systemChallenge host.usizeBits HUMANITY_HUB subject
          (sybilEvidence host subject blockHash) (blockEntropy blockHash nowBlock) nowBlock).1,
        (s.systemChallenge host.usizeBits HUMANITY_HUB subject
          (sybilEvidence host subject blockHash) (blockEntropy blockHash nowBlock) nowBlock).2) :=
      rfl
    exact changes_challengeInner s hres

theorem changes_sweepFinalizeOne (s : MemState) (subject : Address) :
    Changes ok s (sweepFinalizeOne ctx s subject) :=
  changes_finalizeRegistration s rfl

theorem changes_sweepSybilScan (blockHash : Hash) (nowBlock : U64) :
    Changes ok s (sweepSybilScan host s blockHash nowBlock) :=
  changes_foldl (fun s a => changes_sweepSybilOne blockHash nowBlock s a) _

theorem changes_runSweeps : Changes ok s (runSweeps host ctx s) :=
  (changes_sweepSybilScan ctx.blockHash ctx.number).trans (changes_foldl changes_sweepFinalizeOne _)

-- A step of a run, where every address it would see revoked may be.
theorem changes_step {e : Event} {o : Option OpOutcome}
    (hok : ∀ tx, e.action = .tx tx → ∀ a, Overrules e.ctx tx s a → ok s.humanity a)
    (h : step host s e = some (o, s')) : Changes ok s s' := by
  unfold step at h
  cases haction : e.action with
  | tx tx =>
    rw [haction] at h
    exact changes_applyTx (hok tx haction) h
  | sweeps =>
    rw [haction] at h
    cases h
    exact changes_runSweeps
  | refresh =>
    rw [haction] at h
    cases h
    exact .single (.frame rfl rfl)

theorem changes_within {admits : KernelTx → Prop} (h : Within host admits ctx s s') :
    Changes (fun _ _ => True) s s' := by
  cases h with
  | applied htx h => exact changes_applyTx (fun _ _ => trivial) h
  | prepared htx h => exact changes_prepares h
  | scanning done h =>
    exact changes_foldl (fun s a => changes_sweepSybilOne ctx.blockHash ctx.number s a) done
  | finalizing done h =>
    exact (changes_sweepSybilScan ctx.blockHash ctx.number).trans
      (changes_foldl changes_sweepFinalizeOne done)
  | refreshed => exact .single (.frame rfl rfl)

end Changes

-- What holds at genesis and is kept by every change of the humanity layer holds of every
-- reachable state.
theorem ReachableBy.invariant {host : Host} {admits : KernelTx → Prop} {P : MemState → Prop}
    (hgenesis : ∀ g : Genesis, P g.state)
    (hchange : ∀ s s', Change (fun _ _ => True) s s' → P s → P s') {t : U64} {s : MemState}
    (h : ReachableBy host admits t s) : P s := by
  induction h with
  | genesis g => exact hgenesis g
  | next _ _ hwithin ih => exact Run.invariant hchange (changes_within hwithin) ih

-- A small chain: three verified humans, who are also the jurors.
def devnet : Genesis :=
  { time := 0#64
    humans := [1#160, 2#160, 3#160]
    jurors := [(1#160, 0#128), (2#160, 0#128), (3#160, 0#128)] }

-- Its events, two hours after genesis.
def act (number : U64) (from_ : Address) (nonce : U64) (kind : KernelKind) : Event :=
  { ctx := { timestamp := 7200#64, number := number, blockHash := 0#256 }
    action := .tx
      { txHash := 0#256, from_ := from_, nonce := nonce, value := 0#128, kind := kind } }

def sweep (number : U64) : Event :=
  { ctx := { timestamp := 7200#64, number := number, blockHash := 0#256 }
    action := .sweeps }

theorem reachable_devnet {es : List Event} {s : MemState} (hordered : Ordered 0#64 es)
    (hrun : run mockHost devnet.state es = some s) : Reachable mockHost (lastTime 0#64 es) s :=
  Reachable.run (.genesis devnet) hordered hrun

end Ubi2.Exec
