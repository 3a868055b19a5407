import Ubi2.RuntimeWasm.Resume

namespace Ubi2.RuntimeWasm.Snapshot

open Ubi2.Runtime Ubi2.Lib Ubi2.Lib.Encode Ubi2.Rpc Ubi2.Exec

-- What happens to a light client: it is given a block that its server has accepted, or its page is
-- loaded again.
inductive LightStep where
  | block (w : WireBlock)
  | resume

-- A block that passes the checks of the wire, by one of the pinned validators.
structure Authored (host : NodeHost) (validators : List Address) (w : WireBlock) : Prop where
  verified : Network.shallowVerify host w = true
  pinned : validators = [] ∨ w.proposer ∈ validators

-- The light client is at the head of the server, with the state that its next block starts from.
structure InStep (validators : List Address) (chain : Chain) (core : LightCore) : Prop where
  state : core.state = chain.ensureEpochValidatorsSeeded.inner.state
  number : core.tipNumber = chain.head.number
  hash : core.tipHash = chain.head.hash
  timestamp : core.tipTimestamp = chain.head.timestamp
  pinned : core.validatorSet = validators

-- The next block of the server starts with the validators that are there.
def SettledAt (chain : Chain) : Prop :=
  (blockStart (chain.head.number + 1) chain.ensureEpochValidatorsSeeded.inner.state).epochValidators =
    chain.ensureEpochValidatorsSeeded.inner.state.epochValidators

section
variable (host : NodeHost) (render : LightSnapshot → Bytes)
  (parse : Bytes → Except String LightSnapshot) (validators : List Address)
  (validatorOverride : Option Address)

-- The light client is in step with its server all along.
def Tracks : Chain → LightCore → List LightStep → Prop
  | chain, core, [] => InStep validators chain core
  | chain, core, .block w :: steps =>
    InStep validators chain core ∧
    ∀ b chain', chain.validateAndApplyBlock host w validatorOverride = some (.ok b, chain') →
      ∃ core', core.applyDecoded host w none = some (.ok core') ∧ Tracks chain' core' steps
  | chain, core, .resume :: steps =>
    InStep validators chain core ∧
    ∃ core', core.resumed render parse validators = some (.ok core') ∧ Tracks chain core' steps

-- What the page stores reads back as it was written.
def ReadsBack : LightCore → List LightStep → Prop
  | _, [] => True
  | core, .block w :: steps =>
    ∀ core', core.applyDecoded host w none = some (.ok core') → ReadsBack core' steps
  | core, .resume :: steps =>
    parse (core.serialize render) = .ok (encode core) ∧
    ∀ core', core.resumed render parse validators = some (.ok core') → ReadsBack core' steps

-- No block of the server starts with other validators.
def SettledRun : Chain → List LightStep → Prop
  | _, [] => True
  | chain, .block w :: steps =>
    ∀ b chain', chain.validateAndApplyBlock host w validatorOverride = some (.ok b, chain') →
      SettledAt chain ∧ SettledRun chain' steps
  | chain, .resume :: steps => SettledRun chain steps

end

section
variable {host : NodeHost} {render : LightSnapshot → Bytes}
variable {parse : Bytes → Except String LightSnapshot} {validators : List Address}
variable {validatorOverride : Option Address} {chain chain' : Chain} {core core' : LightCore}
variable {w : WireBlock} {b : Block} {scope : Option Hash} {s : MemState}

-- The states that transactions lead through, one after another.
def stateAfter (host : NodeHost) (ctx : BlockCtx) (s : MemState) (tx : KernelTx) : Option MemState :=
  (applyTx host.toHost ctx tx s).map Prod.snd

-- The recursion is followed over any way to apply a transaction: unfolded over `applyTx`, it makes
-- the kernel evaluate the fee.
theorem state_applyTxs (host : NodeHost) (ctx : BlockCtx) (s : MemState) (txs : List KernelTx) :
    (applyTxs host.toHost ctx s txs).map Prod.snd = txs.foldlM (stateAfter host ctx) s := by
  have hstep : stateAfter host ctx = fun s tx => (applyTx host.toHost ctx tx s).map Prod.snd := rfl
  rw [hstep]
  clear hstep
  delta applyTxs applyTxs._f
  generalize applyTx host.toHost ctx = apply
  as_aux_lemma =>
    induction txs generalizing s with
    | nil => rfl
    | cons tx txs ih =>
      rw [List.foldlM_cons]
      cases h : apply tx s with
      | none =>
        simp only [h]
        rfl
      | some r =>
        obtain ⟨o, s₁⟩ := r
        have hrest := ih s₁
        simp only [h, Option.map_some, Option.bind_eq_bind, Option.bind_some]
        rw [← hrest]
        split
        · rename_i hnone
          exact (congrArg (Option.map Prod.snd) hnone).symm
        · rename_i outcomes s₂ hsome
          show some s₂ = _
          exact (congrArg (Option.map Prod.snd) hsome).symm

theorem state_mineTxs (host : NodeHost) (ctx : BlockCtx) (number i : Nat)
    (pending : List PendingTx) (m : Mined) :
    (mineTxs host ctx number i pending m).map Mined.state =
      (pending.map kernelTxFromPending).foldlM (stateAfter host ctx) m.state := by
  induction pending generalizing i m with
  | nil => rfl
  | cons p pending ih =>
    rw [List.map_cons, List.foldlM_cons, mineTxs, mineTx, stateAfter]
    cases h : applyTx host.toHost ctx (kernelTxFromPending p) m.state with
    | none => rfl
    | some r =>
      obtain ⟨o, s₁⟩ := r
      have hstate : (recordTx host ctx number i p m (o, s₁)).state = s₁ := by
        cases o with
        | none => rfl
        | some outcome => rfl
      have hrest := ih (i + 1) (recordTx host ctx number i p m (o, s₁))
      rw [hstate] at hrest
      exact hrest

-- The server and the light client run the transactions and the sweeps of a block alike.
theorem applyOps_of_mine {g : Inner} {pending : List PendingTx} {timestamp : U64} {view : U32}
    {m : Mined} (h : mine host g pending timestamp view = some m) :
    ∃ outcomes, applyOps host.toHost (g.nextCtx host timestamp view) g.start.state
      (pending.map kernelTxFromPending) = some (outcomes, m.state) := by
  obtain ⟨m₁, htxs, rfl⟩ := Option.map_eq_some_iff.mp h
  have hserver := state_mineTxs host (g.nextCtx host timestamp view) (g.head.number + 1) 0 pending
    g.start
  rw [htxs, ← state_applyTxs] at hserver
  obtain ⟨⟨outcomes, s₁⟩, happly, hs₁⟩ := Option.map_eq_some_iff.mp hserver.symm
  refine ⟨outcomes, ?_⟩
  rw [applyOps, happly, mineSweeps_state]
  exact congrArg (fun s => some (outcomes, runSweeps host.toHost _ s)) hs₁

-- No transaction and no sweep reaches the validators.
theorem validators_applyOps {ctx : BlockCtx} {ops : List KernelTx} {outcomes : List OpOutcome}
    {s' : MemState} (hhost : host.Hashes) (hops : ∀ tx ∈ ops, tx.kind.Hashed)
    (h : applyOps host.toHost ctx s ops = some (outcomes, s')) :
    s'.epochValidators = s.epochValidators := by
  have htxs : ∀ {s₁ s₂ : MemState} {ops : List KernelTx}, (∀ tx ∈ ops, tx.kind.Hashed) →
      ops.foldlM (stateAfter host ctx) s₁ = some s₂ → s₂.epochValidators = s₁.epochValidators := by
    intro s₁ s₂ ops
    induction ops generalizing s₁ with
    | nil =>
      intro _ h
      cases h
      rfl
    | cons tx ops ih =>
      intro hops h
      rw [List.foldlM_cons] at h
      obtain ⟨s₃, hfirst, hrest⟩ := Option.bind_eq_some_iff.mp h
      obtain ⟨⟨o, _⟩, happly, rfl⟩ := Option.map_eq_some_iff.mp hfirst
      have hfirst := settles_applyTx hhost.answers (hops tx List.mem_cons_self) happly
      exact (ih (fun tx' htx' => hops tx' (List.mem_cons_of_mem tx htx')) hrest).trans
        hfirst.validators
  rw [applyOps] at h
  split at h
  · cases h
  · rename_i outcomes₁ s₁ happly
    cases h
    have hstate := state_applyTxs host ctx s ops
    rw [happly] at hstate
    exact settles_runSweeps.validators.trans (htxs hops hstate.symm)

-- A block changes nothing but the validators before it runs.
theorem blockStart_eq_self {number : Nat}
    (h : (blockStart number s).epochValidators = s.epochValidators) : blockStart number s = s := by
  have hrest : blockStart number s =
      { s with epochValidators := (blockStart number s).epochValidators } := by
    unfold blockStart
    dsimp only
    split_ifs
    · rfl
    · rfl
    · rfl
    · rfl
  rw [hrest, h]

theorem InStep.headerError (h : InStep validators chain core) (hw : Authored host validators w)
    (hheader : Rpc.headerError host chain.head chain.ensureEpochValidatorsSeeded.inner.state
      validatorOverride w = none) : core.headerError host w none = none := by
  obtain ⟨hnumber, hparent, htime, -⟩ := headerError_eq_none.mp hheader
  have hverified : shallowVerify host w = true := by
    rw [shallowVerify_eq]
    exact hw.verified
  have hpinned : ¬ (core.validatorSet ≠ [] ∧ w.proposer ∉ core.validatorSet) := by
    rw [h.pinned]
    rintro ⟨hne, hmem⟩
    exact hw.pinned.elim hne hmem
  rw [LightCore.headerError, if_neg (not_not.mpr hverified), h.number,
    if_neg (not_not.mpr hnumber), h.hash, if_neg (not_not.mpr hparent), h.timestamp,
    if_neg (not_le.mpr htime), Option.any_none, if_neg Bool.false_ne_true, if_neg hpinned]

-- What a block that the server accepts makes of it.
structure Accepted (host : NodeHost) (chain chain' : Chain) (w : WireBlock)
    (pending : List PendingTx) (outcomes : List OpOutcome) : Prop where
  decoded : w.rawTxs.mapM host.decodePendingTx = some pending
  run : applyOps host.toHost (blockCtx host w.number w.parentHash w.timestamp w.view)
    (blockStart (chain.head.number + 1) chain.ensureEpochValidatorsSeeded.inner.state)
    (pending.map kernelTxFromPending) = some (outcomes, chain'.inner.state)
  root : stateRoot chain'.inner.state = w.stateRoot
  seeded : chain'.ensureEpochValidatorsSeeded.inner.state = chain'.inner.state
  number : chain'.head.number = w.number
  hash : chain'.head.hash = w.hash host
  timestamp : chain'.head.timestamp = w.timestamp

theorem accepted_of_apply
    (h : chain.validateAndApplyBlock host w validatorOverride = some (.ok b, chain')) :
    Rpc.headerError host chain.head chain.ensureEpochValidatorsSeeded.inner.state
      validatorOverride w = none ∧
    ∃ pending outcomes, Accepted host chain chain' w pending outcomes := by
  have happlied := validateAndApplyBlock_ok h
  have hhead : chain'.head = b := head_of_append happlied.blocks
  have hnumber : chain'.head.number = w.number := by rw [hhead, happlied.header]
  have hpos : 0 < chain'.head.number := by
    rw [hnumber, happlied.above]
    omega
  have hroot : stateRoot chain'.inner.state = w.stateRoot := by
    rw [← Rooted.applied h hpos, hhead, happlied.header]
  have hheads : chain'.head.hash = w.hash host ∧ chain'.head.timestamp = w.timestamp := by
    rw [hhead, happlied.header]
    exact ⟨rfl, rfl⟩
  rcases validateAndApplyBlock_cases h with ⟨e, he, -⟩ |
    ⟨pending, m, produced, hr, hheader, hdecode, hmine, -, -, hchain'⟩
  · cases he
  · obtain ⟨outcomes, hrun⟩ := applyOps_of_mine hmine
    have hctx : chain.ensureEpochValidatorsSeeded.inner.nextCtx host w.timestamp w.view =
        blockCtx host w.number w.parentHash w.timestamp w.view := by
      rw [happlied.above, happlied.parentHash]
      rfl
    have hstate : chain'.inner.state = m.state := by
      rw [hchain']
      rfl
    rw [hctx, ← hstate] at hrun
    exact ⟨hheader, pending, outcomes, hdecode, hrun, hroot, Rooted.seeded_state hpos, hnumber,
      hheads.1, hheads.2⟩

-- The light client takes a block that starts with the validators it has, and is in step again.
theorem InStep.follows {pending : List PendingTx} {outcomes : List OpOutcome}
    (h : InStep validators chain core) (hw : Authored host validators w)
    (hheader : Rpc.headerError host chain.head chain.ensureEpochValidatorsSeeded.inner.state
      validatorOverride w = none)
    (haccepted : Accepted host chain chain' w pending outcomes) (hsettled : SettledAt chain) :
    ∃ core', core.applyDecoded host w none = some (.ok core') ∧ InStep validators chain' core' := by
  have hrun := haccepted.run
  rw [blockStart_eq_self hsettled, ← h.state] at hrun
  have htxs : recomputeTxsRoot host w = w.txsRoot := by
    rw [recomputeTxsRoot_eq]
    have hverified := hw.verified
    unfold Network.shallowVerify at hverified
    by_contra hne
    rw [if_pos hne] at hverified
    cases hverified
  obtain ⟨core', hcommit, hstep⟩ : ∃ core', core.commitTrial host w chain'.inner.state = .ok core' ∧
      InStep validators chain' core' := by
    rw [LightCore.commitTrial, if_neg (not_not.mpr htxs), if_neg (not_not.mpr haccepted.root)]
    exact ⟨_, rfl, haccepted.seeded.symm, haccepted.number.symm, haccepted.hash.symm,
      haccepted.timestamp.symm, h.pinned⟩
  refine ⟨core', ?_, hstep⟩
  rw [LightCore.applyDecoded, h.headerError hw hheader, haccepted.decoded]
  dsimp only
  rw [hrun, Option.map_some, hcommit]

-- A light client that is in step after a block had its validators before.
theorem InStep.settled {pending : List PendingTx} {outcomes : List OpOutcome}
    (hhost : host.Hashes) (h : InStep validators chain core)
    (haccepted : Accepted host chain chain' w pending outcomes)
    (happly : core.applyDecoded host w none = some (.ok core'))
    (h' : InStep validators chain' core') : SettledAt chain := by
  have hpending : ∀ tx ∈ pending.map kernelTxFromPending, tx.kind.Hashed :=
    List.forall_mem_map.mpr (Recoverable.hashed_of_mapM hhost haccepted.decoded)
  have hserver := validators_applyOps hhost hpending haccepted.run
  rw [LightCore.applyDecoded] at happly
  split at happly
  · cases happly
  · rw [haccepted.decoded] at happly
    obtain ⟨⟨outcomes', trial⟩, hrun, hcommit⟩ := Option.map_eq_some_iff.mp happly
    have hlight := validators_applyOps hhost hpending hrun
    have htrial : core'.state = trial := by
      change core.commitTrial host w trial = .ok core' at hcommit
      rw [LightCore.commitTrial] at hcommit
      split_ifs at hcommit
      cases hcommit
      rfl
    rw [SettledAt, ← hserver, ← h.state, ← hlight, ← htrial, h'.state, haccepted.seeded]

theorem Tracks.inStep {steps : List LightStep}
    (h : Tracks host render parse validators validatorOverride chain core steps) :
    InStep validators chain core := by
  cases steps with
  | nil => exact h
  | cons a steps =>
    cases a with
    | block w => exact h.1
    | resume => exact h.1

-- A page that is loaded again loses nothing where no scope is set.
theorem InStep.resumed (h : InStep validators chain core) (hchain : Recoverable host none chain)
    (hjson : parse (core.serialize render) = .ok (encode core)) :
    core.resumed render parse validators = some (.ok core) := by
  have hseeded : Scoped none chain.ensureEpochValidatorsSeeded.inner.state := hchain.seeded.state
  rw [← h.state] at hseeded
  rw [resumed_eq hjson hseeded.toRestorable, unscoped_eq_self hseeded.scope, ← h.pinned]

theorem tracks_iff_settledRun (hhost : host.Hashes) {steps : List LightStep}
    (hauthored : ∀ w, .block w ∈ steps → Authored host validators w)
    (hchain : Recoverable host none chain) (h : InStep validators chain core)
    (hreads : ReadsBack host render parse validators core steps) :
    Tracks host render parse validators validatorOverride chain core steps ↔
      SettledRun host validatorOverride chain steps := by
  induction steps generalizing chain core with
  | nil => exact ⟨fun _ => trivial, fun _ => h⟩
  | cons a steps ih =>
    have hrest : ∀ w, .block w ∈ steps → Authored host validators w := fun w hw =>
      hauthored w (List.mem_cons_of_mem a hw)
    cases a with
    | resume =>
      have hresumed := h.resumed hchain hreads.1
      have hreads' := hreads.2 core hresumed
      constructor
      · rintro ⟨-, core', hcore', htracks⟩
        rw [hresumed] at hcore'
        cases hcore'
        exact (ih hrest hchain h hreads').mp htracks
      · intro hsettled
        exact ⟨h, core, hresumed, (ih hrest hchain h hreads').mpr hsettled⟩
    | block w =>
      have hw := hauthored w List.mem_cons_self
      constructor
      · rintro ⟨-, htracks⟩ b chain' happly
        obtain ⟨core', hlight, htracks'⟩ := htracks b chain' happly
        obtain ⟨hheader, pending, outcomes, haccepted⟩ := accepted_of_apply happly
        have h' := htracks'.inStep
        exact ⟨h.settled hhost haccepted hlight h',
          (ih hrest (hchain.apply hhost happly) h' (hreads core' hlight)).mp htracks'⟩
      · intro hsettled
        refine ⟨h, fun b chain' happly => ?_⟩
        obtain ⟨hat, hsettled'⟩ := hsettled b chain' happly
        obtain ⟨hheader, pending, outcomes, haccepted⟩ := accepted_of_apply happly
        obtain ⟨core', hlight, h'⟩ := h.follows hw hheader haccepted hat
        exact ⟨core', hlight,
          (ih hrest (hchain.apply hhost happly) h' (hreads core' hlight)).mpr hsettled'⟩

theorem recoverable_sealed (key : Option ProposerKey) (g : Exec.Genesis) :
    Recoverable host g.scope (Chain.genesis host key g.time g.state).sealGenesis := by
  obtain ⟨hgenesis, -⟩ := @recoverable_genesis host key g
  exact hgenesis.of_same (hgenesis.wellFormed.of_same rfl hgenesis.wellFormed.retained) rfl
    hgenesis.seeded.state hgenesis.ring hgenesis.pool

-- The client that a node's anchor makes.
def anchoredCore (chain : Chain) (chainId : U64) (validators : List Address) : LightCore where
  chainId := chainId
  state := chain.inner.state
  tipNumber := 0
  tipHash := chain.head.hash
  tipStateRoot := stateRoot chain.inner.state
  tipTimestamp := chain.head.timestamp
  validatorSet := validators

theorem genesisImport_sealed {parseState : Bytes → Except String StateDto}
    (hchain : Recoverable host none chain)
    (hparse : parseState (buildGenesisAnchor chain.inner.state).snapshot =
      .ok (Rpc.exportState chain.inner.state)) (chainId : U64) :
    LightCore.genesisImport parseState chainId chain.head.hash
        (buildGenesisAnchor chain.inner.state).stateRoot chain.head.timestamp
        (buildGenesisAnchor chain.inner.state).snapshot validators =
      some (.ok (anchoredCore chain chainId validators)) := by
  have himport := genesisImport_anchor hchain.state.toRestorable hparse chainId chain.head.hash
    chain.head.timestamp validators
  rw [unscoped_eq_self hchain.state.scope, if_pos rfl] at himport
  exact himport

theorem inStep_sealed (key : Option ProposerKey) (g : Exec.Genesis) (chainId : U64) :
    InStep validators (Chain.genesis host key g.time g.state).sealGenesis
      (anchoredCore (Chain.genesis host key g.time g.state).sealGenesis chainId validators) :=
  ⟨(seedEpochValidators_idem _ _).symm, rfl, rfl, rfl, rfl⟩

end

-- A light client that starts from the anchor of a node without a scope, and takes the blocks that
-- this node has accepted, is in step with it through all of them and through every reload exactly
-- where none of them starts with other validators than the one before it left.
theorem light_client_follows_iff {host : NodeHost} (hhost : host.Hashes)
    {render : LightSnapshot → Bytes} {parse : Bytes → Except String LightSnapshot}
    {parseState : Bytes → Except String StateDto} {validators : List Address}
    {validatorOverride : Option Address} {key : Option ProposerKey} (g : Exec.Genesis)
    (hscope : g.scope = none) {chain : Chain}
    (hsealed : (Chain.genesis host key g.time g.state).sealGenesis = chain) {anchor : GenesisAnchor}
    (hanchor : chain.servedAnchor = some anchor)
    (hparse : parseState anchor.snapshot = .ok (Rpc.exportState chain.inner.state))
    {steps : List LightStep} (hauthored : ∀ w, .block w ∈ steps → Authored host validators w)
    (chainId : U64)
    (hreads : ∀ core, LightCore.genesisImport parseState chainId chain.head.hash anchor.stateRoot
      chain.head.timestamp anchor.snapshot validators = some (.ok core) →
        ReadsBack host render parse validators core steps) :
    ∃ core, LightCore.genesisImport parseState chainId chain.head.hash anchor.stateRoot
        chain.head.timestamp anchor.snapshot validators = some (.ok core) ∧
      (Tracks host render parse validators validatorOverride chain core steps ↔
        SettledRun host validatorOverride chain steps) := by
  subst hsealed
  have hchain := @recoverable_sealed host key g
  rw [hscope] at hchain
  cases hanchor
  have himport := @genesisImport_sealed _ validators _ _ hchain hparse chainId
  exact ⟨_, himport, tracks_iff_settledRun hhost hauthored hchain (inStep_sealed key g chainId)
    (hreads _ himport)⟩

-- A node with one validator, whose first block carries a payment.
def payingHuman : Exec.Genesis where
  time := 0#64
  accounts := [(6#160, UBI)]
  humans := [1#160]
  jurors := [(1#160, 1000000#128)]

def anchoredNode : Chain :=
  (Chain.genesis servingHost (some (.devnet 1#160)) payingHuman.time payingHuman.state).sealGenesis

def anchoredBlock : Option WireBlock :=
  ((anchoredNode.ingestRawTx servingHost 10#64 [6#8]).2.produceBlockAtView servingHost 10#64
    0#32).map fun r => r.2.wireBlockFrom r.1

theorem light_client_follows_iff_anchored : ∃ w b chain',
    anchoredNode.validateAndApplyBlock servingHost w none = some (.ok b, chain') ∧
    w.rawTxs = [[6#8]] ∧
    ∃ core, LightCore.genesisImport (fun _ => .ok (Rpc.exportState anchoredNode.inner.state)) 0#64
        anchoredNode.head.hash (buildGenesisAnchor anchoredNode.inner.state).stateRoot
        anchoredNode.head.timestamp (buildGenesisAnchor anchoredNode.inner.state).snapshot
        [1#160] = some (.ok core) ∧
      Tracks servingHost (fun _ => []) (fun _ => .ok (encode (anchoredCore anchoredNode 0#64
        [1#160]))) [1#160] none anchoredNode core [.resume, .block w] := by
  have hblock : anchoredBlock.bind (fun w => (anchoredNode.validateAndApplyBlock servingHost w
      none).map fun r => (r.1.toOption.isSome, w.rawTxs, w.proposer,
        decide (Network.shallowVerify servingHost w = true))) =
      some (true, [[6#8]], 1#160, true) := by decide +kernel
  obtain ⟨w, -, hw⟩ := Option.bind_eq_some_iff.mp hblock
  obtain ⟨⟨r, chain'⟩, happly, hr⟩ := Option.map_eq_some_iff.mp hw
  simp only [Prod.mk.injEq] at hr
  obtain ⟨hok, hraws, hproposer, hverify⟩ := hr
  obtain ⟨b, hb⟩ := Option.isSome_iff_exists.mp hok
  have hr : r = .ok b := by
    cases r with
    | error e => cases hb
    | ok b' =>
      cases hb
      rfl
  subst hr
  have hsettled : SettledAt anchoredNode := by
    unfold SettledAt
    decide +kernel
  have hchain : Recoverable servingHost none anchoredNode := recoverable_sealed _ payingHuman
  have himport := @genesisImport_sealed _ [1#160] anchoredNode
    (fun _ => .ok (Rpc.exportState anchoredNode.inner.state)) hchain rfl 0#64
  obtain ⟨core, hcore, hiff⟩ := @light_client_follows_iff servingHost hashes_servingHost
    (fun _ => []) (fun _ => .ok (encode (anchoredCore anchoredNode 0#64 [1#160])))
    (fun _ => .ok (Rpc.exportState anchoredNode.inner.state)) [1#160] none (some (.devnet 1#160))
    payingHuman rfl anchoredNode rfl (buildGenesisAnchor anchoredNode.inner.state) rfl rfl
    [.resume, .block w] (by
      intro w' hw'
      have hsame : w' = w := by simpa using hw'
      rw [hsame]
      exact ⟨of_decide_eq_true hverify, .inr (List.mem_singleton.mpr hproposer)⟩) 0#64 (by
      intro core hcore
      rw [himport] at hcore
      cases hcore
      exact ⟨rfl, fun _ _ _ _ => trivial⟩)
  exact ⟨w, b, chain', happly, hraws, core, hcore,
    hiff.mpr fun _ _ _ => ⟨hsettled, trivial⟩⟩

end Ubi2.RuntimeWasm.Snapshot
