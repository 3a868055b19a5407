import Ubi2.Rpc.Snapshot
import Ubi2.Rpc.Traced

namespace Ubi2.Rpc

open Ubi2.Runtime Ubi2.Lib Ubi2.Lib.Encode Ubi2.Exec

-- Effects come under their own hashes, from the interpreters and in the transactions that are
-- decoded.
structure NodeHost.Hashes (host : NodeHost) : Prop where
  answers : host.toHost.Hashes
  submits : ∀ raw p, host.decodePendingTx raw = some p → p.kind.Hashed

-- A block comes right above another.
def Block.Above (b b' : Block) : Prop := b'.number = b.number + 1 ∧ b'.parentHash = b.hash

-- A state of the chain under its scope.
structure Scoped (scope : Option Hash) (s : MemState) : Prop extends Rebuildable s where
  scope : s.zk.selfScope = scope

-- What every step of a node keeps: its blocks are linked, and all the states it can fall back to
-- are restorable.
structure Recoverable (host : NodeHost) (scope : Option Hash) (chain : Chain) : Prop where
  wellFormed : WellFormed host chain
  linked : chain.inner.blocks.IsChain Block.Above
  state : Scoped scope chain.inner.state
  ring : ∀ e ∈ chain.recentStates.rows, Scoped scope e.2
  pool : ∀ p ∈ chain.inner.mempool, p.kind.Hashed

-- The last block commits to the current state, but for the block of genesis.
def Rooted (chain : Chain) : Prop :=
  0 < chain.head.number → chain.head.stateRoot = stateRoot chain.inner.state

section
variable {host : NodeHost} {scope : Option Hash} {chain chain' : Chain} {s s' : MemState}
variable {validatorOverride : Option Address}

namespace Scoped

theorem refreshed (h : Scoped scope s) : Scoped scope s.refreshEpochValidators :=
  ⟨h.toRebuildable.refreshed, h.scope⟩

theorem within {ctx : BlockCtx} (h : Scoped scope s) (hhost : host.Hashes)
    (hwithin : Within host.toHost (fun tx => tx.kind.Hashed) ctx s s') : Scoped scope s' := by
  obtain ⟨hs', hscope⟩ := h.toRebuildable.within hhost.answers hwithin
  exact ⟨hs', hscope.trans h.scope⟩

theorem seeded (h : Scoped scope s) (number : Nat) : Scoped scope (seedEpochValidators number s) := by
  rw [seedEpochValidators]
  split_ifs
  · exact h.refreshed
  · exact h

theorem start {g : Inner} (h : Scoped scope g.state) : Scoped scope g.start.state := by
  show Scoped scope (blockStart _ _)
  unfold blockStart
  dsimp only
  split_ifs
  · exact h.refreshed.refreshed
  · exact h.refreshed
  · exact h.refreshed
  · exact h

theorem mineTxs {ctx : BlockCtx} {number i : Nat} {pending : List PendingTx} {m m' : Mined}
    (h : Scoped scope m.state) (hhost : host.Hashes) (hpending : ∀ p ∈ pending, p.kind.Hashed)
    (hmine : Rpc.mineTxs host ctx number i pending m = some m') : Scoped scope m'.state := by
  induction pending generalizing i m with
  | nil =>
    cases hmine
    exact h
  | cons p pending ih =>
    obtain ⟨m₁, hfirst, hrest⟩ := Option.bind_eq_some_iff.mp hmine
    obtain ⟨⟨o, s₁⟩, happly, rfl⟩ := Option.map_eq_some_iff.mp hfirst
    have hs₁ : Scoped scope s₁ :=
      h.within hhost (.applied (hpending p List.mem_cons_self) happly)
    refine ih ?_ (fun q hq => hpending q (List.mem_cons_of_mem p hq)) hrest
    cases o with
    | none => exact hs₁
    | some outcome => exact hs₁

theorem mined {g : Inner} {pending : List PendingTx} {timestamp : U64} {view : U32} {m : Mined}
    (h : Scoped scope g.state) (hhost : host.Hashes) (hpending : ∀ p ∈ pending, p.kind.Hashed)
    (hmine : mine host g pending timestamp view = some m) : Scoped scope m.state := by
  obtain ⟨m₁, htxs, rfl⟩ := Option.map_eq_some_iff.mp hmine
  rw [mineSweeps_state]
  exact (h.start.mineTxs hhost hpending htxs).within hhost (within_runSweeps _ _ _ _)

end Scoped

namespace Recoverable

theorem of_same (h : Recoverable host scope chain) (hwf : WellFormed host chain')
    (hblocks : chain'.inner.blocks = chain.inner.blocks) (hstate : Scoped scope chain'.inner.state)
    (hring : ∀ e ∈ chain'.recentStates.rows, Scoped scope e.2)
    (hpool : ∀ p ∈ chain'.inner.mempool, p.kind.Hashed) : Recoverable host scope chain' :=
  ⟨hwf, hblocks ▸ h.linked, hstate, hring, hpool⟩

theorem seeded (h : Recoverable host scope chain) :
    Recoverable host scope chain.ensureEpochValidatorsSeeded :=
  h.of_same h.wellFormed.seeded rfl (h.state.seeded _) h.ring h.pool

theorem remember {recent : RecentStates} (hring : ∀ e ∈ recent.rows, Scoped scope e.2)
    (hs : Scoped scope s) (number : Nat) :
    ∀ e ∈ (rememberState recent number s).rows, Scoped scope e.2 := by
  intro e he
  rcases mem_rememberState he with rfl | ⟨-, hmem⟩
  · exact hs
  · exact hring e hmem

-- A block on top of the chain, from a state that may have been seeded.
theorem append {pending : List PendingTx} {timestamp : U64} {view : U32} {m : Mined} {b : Block}
    {inner : Inner} {key : Option ProposerKey} {proposerOverride : Option (Address × Bytes)}
    (h : Recoverable host scope chain) (hhost : host.Hashes) (hwf : WellFormed host chain')
    (hstate : Scoped scope inner.state) (hpending : ∀ p ∈ pending, p.kind.Hashed)
    (hmine : mine host inner pending timestamp view = some m)
    (hb : b = mineBlock host key chain.head pending.length timestamp view proposerOverride m)
    (hblocks : chain'.inner.blocks = chain.inner.blocks ++ [b])
    (hstate' : chain'.inner.state = m.state)
    (hring : chain'.recentStates =
      rememberState chain.recentStates (chain.head.number + 1) inner.state)
    (hpool : ∀ p ∈ chain'.inner.mempool, p.kind.Hashed) : Recoverable host scope chain' := by
  refine ⟨hwf, ?_, ?_, ?_, hpool⟩
  · rw [hblocks]
    refine List.isChain_append.mpr ⟨h.linked, List.isChain_singleton b, ?_⟩
    intro last hlast b' hb'
    have hlast : last = chain.head := by
      rw [List.getLast?_eq_getLast_of_ne_nil chain.inner.genesisPresent] at hlast
      exact (Option.some.inj hlast).symm
    cases hb'
    rw [hlast, hb]
    exact ⟨rfl, rfl⟩
  · rw [hstate']
    exact hstate.mined hhost hpending hmine
  · rw [hring]
    exact remember h.ring hstate _

theorem hashed_of_mapM {raws : List Bytes} {pending : List PendingTx} (hhost : host.Hashes)
    (h : raws.mapM host.decodePendingTx = some pending) : ∀ p ∈ pending, p.kind.Hashed := by
  induction raws generalizing pending with
  | nil =>
    cases h
    exact fun _ hp => absurd hp List.not_mem_nil
  | cons raw raws ih =>
    rw [List.mapM_cons] at h
    obtain ⟨p, hp, hrest⟩ := Option.bind_eq_some_iff.mp h
    obtain ⟨ps, hps, hpending⟩ := Option.bind_eq_some_iff.mp hrest
    cases hpending
    exact List.forall_mem_cons.mpr ⟨hhost.submits raw p hp, ih hps⟩

theorem apply {w : WireBlock} {r : Except BlockError Block} (h : Recoverable host scope chain)
    (hhost : host.Hashes)
    (happly : chain.validateAndApplyBlock host w validatorOverride = some (r, chain')) :
    Recoverable host scope chain' := by
  have hwf := (validateAndApplyBlock_keeps happly h.wellFormed).1
  have hseeded := h.seeded
  cases r with
  | error e =>
    rcases validateAndApplyBlock_rejected happly with ⟨rfl, -⟩ | ⟨_, _, _, -, -, -, -, -, -, rfl⟩
    · exact hseeded
    · exact h.of_same hwf rfl hseeded.state (remember h.ring hseeded.state _) h.pool
  | ok produced =>
    rcases validateAndApplyBlock_cases happly with ⟨e, he, -⟩ |
      ⟨pending, m, produced', hr, -, hdecode, hmine, hproduced, -, rfl⟩
    · cases he
    · exact h.append hhost hwf hseeded.state (hashed_of_mapM hhost hdecode) hmine hproduced rfl rfl
        rfl fun p hp => h.pool p (List.mem_of_mem_filter hp)

theorem cache (h : Recoverable host scope chain) (raws : List Bytes) :
    Recoverable host scope (chain.cacheRawTxs host raws) :=
  h.of_same (h.wellFormed.of_same rfl h.wellFormed.retained) rfl h.state h.ring h.pool

theorem produce {timestamp : U64} {view : U32} {b : Block} (h : Recoverable host scope chain)
    (hhost : host.Hashes)
    (hproduce : chain.produceBlockAtView host timestamp view = some (b, chain')) :
    Recoverable host scope chain' := by
  have hwf := (produceBlockAtView_keeps hproduce h.wellFormed).1
  obtain ⟨m, hmine, hb, rfl⟩ := executeBlock_eq_some hproduce
  exact h.append hhost hwf h.state h.pool hmine hb rfl rfl rfl fun _ hp => absurd hp List.not_mem_nil

theorem cut {height : Nat} (h : Recoverable host scope chain) (hs : Scoped scope s) :
    Recoverable host scope (chain.cut height s) :=
  ⟨h.wellFormed.truncate height s, h.linked.take (height + 1), hs, h.ring, h.pool⟩

-- A reorg replays the branch from a state that is remembered, or puts the chain back.
theorem reorg {branch : List ForkBlockEntry} {caHeight : Nat}
    {r : Except BlockError (Option Block)} (h : Recoverable host scope chain)
    (hhost : host.Hashes)
    (hreorg : chain.executeReorg host branch caHeight validatorOverride = some (r, chain'))
    (hwf : WellFormed host chain') : Recoverable host scope chain' := by
  rcases executeReorg_cases hreorg with ⟨-, rfl⟩ | ⟨s, hget, ⟨e, failed, rfl, -, -⟩ |
    ⟨applied, rfl, hbranch, rfl⟩⟩
  · exact h
  · obtain ⟨hinner, hring, -⟩ := executeReorg_error hreorg
    exact ⟨hwf, hinner ▸ h.linked, hinner ▸ h.state, hring ▸ h.ring, hinner ▸ h.pool⟩
  · have happlied : Recoverable host scope applied :=
      applyBranch_keeps (fun _ _ _ _ h₁ happly => h₁.apply hhost happly)
        (fun _ raws h₁ => h₁.cache raws) (h.cut (h.ring _ (Table.mem_of_get hget))) hbranch
    exact happlied.of_same hwf rfl happlied.state happlied.ring happlied.pool

theorem consider {w : WireBlock} {r : Except BlockError (Option Block)}
    (h : Recoverable host scope chain) (hhost : host.Hashes)
    (hconsider : chain.considerCompetingBlock host w validatorOverride = some (r, chain')) :
    Recoverable host scope chain' := by
  have hwf := (considerCompetingBlock_keeps hconsider h.wellFormed).1
  have hinner := storeForkBlock_inner chain.ensureEpochValidatorsSeeded
    { w with hash := w.hash host } chain.finalizedHeight
  have hstored : Recoverable host scope (chain.ensureEpochValidatorsSeeded.storeForkBlock
      { w with hash := w.hash host } chain.finalizedHeight) :=
    h.seeded.of_same (h.seeded.wellFormed.stored { w with hash := w.hash host } rfl _)
      (by rw [hinner]) (by rw [hinner]; exact h.seeded.state) h.ring (by rw [hinner]; exact h.pool)
  rcases considerCompetingBlock_cases hconsider with ⟨-, rfl | rfl⟩ | ⟨candidate, -, hreorg⟩
  · exact h.seeded
  · exact hstored
  · exact hstored.reorg hhost hreorg hwf

-- A restart brings back the state and the blocks, and empties the rest.
theorem restarted (h : Recoverable host scope chain) (time : U64) :
    Recoverable host scope ((Chain.new host chain.proposerKey time).loadInto
      chain.inner.state chain.inner.blocks chain.inner.genesisPresent) :=
  ⟨⟨h.wellFormed.numbered, h.wellFormed.hashed, fun _ he => absurd he List.not_mem_nil⟩, h.linked,
    h.state, fun _ he => absurd he List.not_mem_nil, fun _ hp => absurd hp List.not_mem_nil⟩

end Recoverable

namespace Rooted

theorem of_same (h : Rooted chain) (hblocks : chain'.inner.blocks = chain.inner.blocks)
    (hstate : 0 < chain.head.number → chain'.inner.state = chain.inner.state) : Rooted chain' := by
  have hhead : chain'.head = chain.head := head_of_blocks hblocks
  intro hpos
  rw [hhead] at hpos ⊢
  rw [hstate hpos]
  exact h hpos

-- Validators are seeded at genesis only.
theorem seeded_state (hpos : 0 < chain.head.number) :
    chain.ensureEpochValidatorsSeeded.inner.state = chain.inner.state := by
  show seedEpochValidators chain.head.number chain.inner.state = chain.inner.state
  rw [seedEpochValidators, if_neg]
  omega

theorem seeded (h : Rooted chain) : Rooted chain.ensureEpochValidatorsSeeded :=
  h.of_same rfl seeded_state

-- A block commits to the state that it leads to.
theorem append {userTxCount : Nat} {timestamp : U64} {view : U32} {m : Mined} {parent : Block}
    {key : Option ProposerKey} {proposerOverride : Option (Address × Bytes)} {blocks : List Block}
    (hblocks : chain.inner.blocks =
      blocks ++ [mineBlock host key parent userTxCount timestamp view proposerOverride m])
    (hstate : chain.inner.state = m.state) : Rooted chain := by
  intro _
  rw [Chain.head, head_of_append hblocks, hstate]
  rfl

theorem applied {w : WireBlock} {b : Block}
    (happly : chain.validateAndApplyBlock host w validatorOverride = some (.ok b, chain')) :
    Rooted chain' := by
  rcases validateAndApplyBlock_cases happly with ⟨e, he, -⟩ |
    ⟨pending, m, produced', hr, -, hdecode, hmine, rfl, -, rfl⟩
  · cases he
  · exact append rfl rfl

theorem apply {w : WireBlock} {r : Except BlockError Block} (h : Rooted chain)
    (happly : chain.validateAndApplyBlock host w validatorOverride = some (r, chain')) :
    Rooted chain' := by
  cases r with
  | error e =>
    obtain ⟨hinner, -⟩ := validateAndApplyBlock_error happly
    exact h.of_same (by rw [hinner]; rfl) fun hpos => by rw [hinner, seeded_state hpos]
  | ok b => exact applied happly

-- Whatever state a branch starts from, its last block commits to the one it leads to.
theorem applyBranch {branch : List ForkBlockEntry} (hstart : branch = [] → Rooted chain)
    (h : chain.applyBranch host validatorOverride branch = some (.ok (), chain')) :
    Rooted chain' := by
  induction branch generalizing chain with
  | nil =>
    cases h
    exact hstart rfl
  | cons fb branch ih =>
    obtain ⟨produced, chain₁, happly, hrest⟩ := applyBranch_cons_ok.mp h
    have happlied : Rooted (chain₁.cacheRawTxs host fb.rawTxs) :=
      (applied happly).of_same rfl fun _ => rfl
    exact ih (fun _ => happlied) hrest

theorem reorg {branch : List ForkBlockEntry} {caHeight : Nat}
    {r : Except BlockError (Option Block)} (h : Rooted chain) (hbranch : branch ≠ [])
    (hreorg : chain.executeReorg host branch caHeight validatorOverride = some (r, chain')) :
    Rooted chain' := by
  rcases executeReorg_cases hreorg with ⟨-, rfl⟩ | ⟨s, hget, ⟨e, failed, rfl, -, -⟩ |
    ⟨applied, rfl, happlied, rfl⟩⟩
  · exact h
  · obtain ⟨hinner, -⟩ := executeReorg_error hreorg
    exact h.of_same (by rw [hinner]) fun _ => by rw [hinner]
  · have hrooted : Rooted applied := applyBranch (fun hnil => absurd hnil hbranch) happlied
    exact hrooted.of_same rfl fun _ => rfl

theorem consider {w : WireBlock} {r : Except BlockError (Option Block)} (h : Rooted chain)
    (hconsider : chain.considerCompetingBlock host w validatorOverride = some (r, chain')) :
    Rooted chain' := by
  have hinner := storeForkBlock_inner chain.ensureEpochValidatorsSeeded
    { w with hash := w.hash host } chain.finalizedHeight
  have hstored : Rooted (chain.ensureEpochValidatorsSeeded.storeForkBlock
      { w with hash := w.hash host } chain.finalizedHeight) :=
    h.seeded.of_same (by rw [hinner]) fun _ => by rw [hinner]
  rcases considerCompetingBlock_cases hconsider with ⟨-, rfl | rfl⟩ | ⟨candidate, hbest, hreorg⟩
  · exact h.seeded
  · exact hstored
  · obtain ⟨entry, -, -, -, hassemble⟩ := bestCandidate_eq_some hbest
    obtain ⟨hlast, -⟩ := assembleForkBranch_eq_some hassemble
    refine hstored.reorg ?_ hreorg
    intro hnil
    rw [hnil] at hlast
    cases hlast

end Rooted

theorem unscoped_eq_self (h : s.zk.selfScope = none) : s.unscoped = s := by
  rw [MemState.unscoped, ← h]

-- A node comes back from its own snapshot as it was, where no scope is set. Otherwise it is not
-- restarted from one.
def RestartsUnscoped (scope : Option Hash) (steps : List NodeStep) : Prop :=
  ∀ chainId time, .restart chainId time ∈ steps → scope = none

theorem Recoverable.nodeStep {parseU256 : String → Option U256} {a : NodeStep}
    (hhost : host.Hashes) (hparse : ∀ v : U256, parseU256 (decimal v) = some v)
    (h : Recoverable host scope chain ∧ Rooted chain)
    (hrestart : ∀ chainId time, a = .restart chainId time → scope = none)
    (hstep : chain.nodeStep host parseU256 validatorOverride a = some chain') :
    Recoverable host scope chain' ∧ Rooted chain' := by
  obtain ⟨hchain, hrooted⟩ := h
  cases a with
  | submit now raw =>
    cases hstep
    rcases ingestRawTx_cases (Prod.eta (chain.ingestRawTx host now raw)).symm with
      ⟨e, -, heq⟩ | ⟨q, hdecode, -, -, heq⟩
    · rw [heq]
      exact ⟨hchain, hrooted⟩
    · rw [heq]
      refine ⟨hchain.of_same (hchain.wellFormed.of_same rfl hchain.wellFormed.retained) rfl
        hchain.state hchain.ring ?_, hrooted.of_same rfl fun _ => rfl⟩
      intro p hp
      rcases List.mem_append.mp hp with hp | hp
      · exact hchain.pool p hp
      · rw [List.mem_singleton.mp hp]
        exact hhost.submits raw q hdecode
  | apply b =>
    rw [Chain.nodeStep] at hstep
    split at hstep
    · cases hstep
    · rename_i happly
      cases hstep
      exact ⟨(hchain.apply hhost happly).cache _, (hrooted.apply happly).of_same rfl fun _ => rfl⟩
    · rename_i happly
      cases hstep
      exact ⟨hchain.apply hhost happly, hrooted.apply happly⟩
  | consider b =>
    rw [Chain.nodeStep] at hstep
    split at hstep
    · cases hstep
    · rename_i hconsider
      cases hstep
      exact ⟨(hchain.consider hhost hconsider).cache _,
        (hrooted.consider hconsider).of_same rfl fun _ => rfl⟩
    · rename_i hconsider
      cases hstep
      exact ⟨hchain.consider hhost hconsider, hrooted.consider hconsider⟩
    · rename_i hconsider
      cases hstep
      exact ⟨hchain.consider hhost hconsider, hrooted.consider hconsider⟩
  | produce timestamp view =>
    obtain ⟨⟨b, _⟩, hproduce, rfl⟩ := Option.map_eq_some_iff.mp hstep
    refine ⟨hchain.produce hhost hproduce, ?_⟩
    obtain ⟨m, -, rfl, hchain'⟩ := executeBlock_eq_some hproduce
    rw [hchain']
    exact .append rfl rfl
  | consult =>
    cases hstep
    exact ⟨hchain.seeded, hrooted.seeded⟩
  | restart chainId time =>
    have hnone : chain.inner.state.zk.selfScope = none :=
      hchain.state.scope.trans (hrestart chainId time rfl)
    have hstate := importState_exportState hchain.state.toRestorable
    rw [unscoped_eq_self hnone] at hstate
    rw [Chain.nodeStep, fromSnapshot_exportSnapshot hparse _ _ _ _ hstate] at hstep
    cases hstep
    exact ⟨hchain.restarted time, hrooted.of_same rfl fun _ => rfl⟩

theorem Recoverable.nodeRun {parseU256 : String → Option U256} {steps : List NodeStep}
    (hhost : host.Hashes) (hparse : ∀ v : U256, parseU256 (decimal v) = some v)
    (h : Recoverable host scope chain ∧ Rooted chain) (hrestart : RestartsUnscoped scope steps)
    (hrun : chain.nodeRun host parseU256 validatorOverride steps = some chain') :
    Recoverable host scope chain' ∧ Rooted chain' := by
  induction steps generalizing chain with
  | nil =>
    cases hrun
    exact h
  | cons a steps ih =>
    obtain ⟨chain₁, hstep, hrest⟩ := Option.bind_eq_some_iff.mp hrun
    refine ih (nodeStep hhost hparse h ?_ hstep) ?_ hrest
    · intro chainId time ha
      exact hrestart chainId time (ha ▸ List.mem_cons_self)
    · intro chainId time hmem
      exact hrestart chainId time (List.mem_cons_of_mem a hmem)

theorem recoverable_genesis (key : Option ProposerKey) (g : Exec.Genesis) :
    Recoverable host g.scope (Chain.genesis host key g.time g.state) ∧
      Rooted (Chain.genesis host key g.time g.state) :=
  ⟨⟨wellFormed_genesis key g.time g.state, List.isChain_singleton _,
    ⟨g.rebuildable, g.unseeded.2.2⟩, fun _ he => absurd he List.not_mem_nil,
    fun _ hp => absurd hp List.not_mem_nil⟩, fun hpos => absurd hpos (Nat.lt_irrefl 0)⟩

-- The blocks of a node pass the checks of a snapshot.
theorem verifyBlocks_exportBlock {parseU256 : String → Option U256}
    (hparse : ∀ v : U256, parseU256 (decimal v) = some v) {blocks : List Block}
    (hhashed : ∀ b ∈ blocks, b.Hashed host) (hlinked : blocks.IsChain Block.Above)
    {prev : Option (Nat × Hash)}
    (hprev : ∀ p ∈ prev, ∀ b ∈ blocks.head?, b.number = p.1 + 1 ∧ b.parentHash = p.2) :
    verifyBlocks host parseU256 prev (blocks.map exportBlock) = some (.ok ()) := by
  induction blocks generalizing prev with
  | nil => rfl
  | cons b blocks ih =>
    have hhash : computeHash host b.number b.parentHash b.timestamp b.view b.txsRoot b.stateRoot
        b.proposer = b.hash := (hhashed b List.mem_cons_self).symm
    have hfollows : ¬ ∃ p ∈ prev, b.number ≠ p.1 + 1 ∨ b.parentHash ≠ p.2 := by
      rintro ⟨p, hp, hne⟩
      obtain ⟨hnumber, hparent⟩ := hprev p hp b rfl
      exact hne.elim (fun h => h hnumber) fun h => h hparent
    rw [List.map_cons, verifyBlocks, importBlock_exportBlock hparse]
    dsimp only
    rw [if_neg (not_not.mpr hhash), if_neg hfollows]
    refine ih (fun b' hb' => hhashed b' (List.mem_cons_of_mem b hb')) hlinked.tail ?_
    intro p hp b' hb'
    cases hp
    exact hlinked.rel_head? hb'

-- The state that is written is checked against the root of the last block.
theorem verify_exportSnapshot {parseU256 : String → Option U256}
    (hparse : ∀ v : U256, parseU256 (decimal v) = some v) (h : Recoverable host scope chain)
    (chainId time : U64) :
    (chain.exportSnapshot chainId time).verify host parseU256 =
      some (if stateRoot chain.inner.state.unscoped = chain.head.stateRoot then .ok ()
        else .error (.StateRootMismatch chain.head.stateRoot
          (stateRoot chain.inner.state.unscoped))) := by
  have hgenesis : ((chain.exportSnapshot chainId time).blocks.head?).map BlockDto.number = some 0 := by
    show ((chain.inner.blocks.map exportBlock).head?).map BlockDto.number = some 0
    cases hblocks : chain.inner.blocks with
    | nil => exact absurd hblocks chain.inner.genesisPresent
    | cons b blocks => exact congrArg some (h.wellFormed.numbered 0 b (by rw [hblocks]; rfl))
  have hlast : (chain.exportSnapshot chainId time).blocks.getLast? =
      some (exportBlock chain.head) := by
    show (chain.inner.blocks.map exportBlock).getLast? = _
    rw [List.getLast?_map, List.getLast?_eq_getLast_of_ne_nil chain.inner.genesisPresent]
    rfl
  have hchecked : verifyBlocks host parseU256 none (chain.exportSnapshot chainId time).blocks =
      some (.ok ()) :=
    verifyBlocks_exportBlock hparse h.wellFormed.hashed h.linked fun _ hp => by cases hp
  have hroot : unhex32 hexDecodeInto (exportBlock chain.head).stateRoot =
      some chain.head.stateRoot := unhex32_hex32 _
  have hstate : importState (chain.exportSnapshot chainId time).state =
      some chain.inner.state.unscoped := importState_exportState h.state.toRestorable
  rw [ChainSnapshot.verify, if_neg (not_not.mpr hgenesis), hchecked]
  dsimp only
  rw [verifyState, hlast, Option.bind_eq_bind, Option.bind_some, hroot, Option.bind_eq_bind,
    Option.bind_some, hstate, Option.bind_eq_bind, Option.bind_some]
  generalize stateRoot chain.inner.state.unscoped = root
  by_cases hsame : root = chain.head.stateRoot
  · rw [if_neg (not_not.mpr hsame), if_pos hsame]
    rfl
  · rw [if_pos hsame, if_neg hsame]
    rfl

end

-- After every run, reorgs included, a node that has a block accepts its own snapshot exactly where
-- the state without its scope has the root of the state, and comes back to its blocks and that
-- state. It is the state where genesis sets no scope, also after restarts from such snapshots.
theorem snapshot_verified {host : NodeHost} (hhost : host.Hashes)
    {parseU256 : String → Option U256} (hparse : ∀ v : U256, parseU256 (decimal v) = some v)
    {validatorOverride : Option Address} {key : Option ProposerKey} (g : Exec.Genesis)
    {steps : List NodeStep} (hrestart : RestartsUnscoped g.scope steps) {chain : Chain}
    (hrun : (Chain.genesis host key g.time g.state).nodeRun host parseU256 validatorOverride
      steps = some chain) (hhead : 0 < chain.head.number) (chainId time : U64) :
    (chain.exportSnapshot chainId time).verify host parseU256 =
      some (if stateRoot chain.inner.state.unscoped = stateRoot chain.inner.state then .ok ()
        else .error (.StateRootMismatch (stateRoot chain.inner.state)
          (stateRoot chain.inner.state.unscoped))) ∧
    Chain.fromSnapshot host parseU256 chain.proposerKey (chain.exportSnapshot chainId time) =
      some ((Chain.new host chain.proposerKey time).loadInto chain.inner.state.unscoped
        chain.inner.blocks chain.inner.genesisPresent) ∧
    (chain.inner.state.unscoped = chain.inner.state ↔ g.scope = none) := by
  obtain ⟨hchain, hrooted⟩ := Recoverable.nodeRun hhost hparse (recoverable_genesis key g) hrestart
    hrun
  refine ⟨?_, fromSnapshot_exportSnapshot hparse host _ chainId time
    (importState_exportState hchain.state.toRestorable), ?_⟩
  · rw [verify_exportSnapshot hparse hchain, hrooted hhead]
  · rw [← hchain.state.scope]
    constructor
    · intro h
      rw [← h]
      rfl
    · exact unscoped_eq_self

theorem hashes_servingHost : servingHost.Hashes := by
  refine ⟨fun _ _ _ => rfl, fun raw p hp => ?_⟩
  change paymentHost.decodePendingTx raw = some p at hp
  unfold paymentHost at hp
  dsimp only at hp
  split at hp
  · cases hp
    trivial
  · cases hp

-- A node with one block, under a scope or under none.
def oneBlock (scope : Option Hash) : Exec.Genesis := { fundedPair with scope := scope }

theorem run_oneBlock (scope : Option Hash) (same : Bool)
    (h : ((Chain.genesis servingHost none 0#64 (oneBlock scope).state).produceBlockAtView servingHost
      10#64 0#32).map (fun r => (r.2.head.number,
        decide (stateRoot r.2.inner.state.unscoped = stateRoot r.2.inner.state))) =
      some (1, same)) : ∃ chain,
    (Chain.genesis servingHost none 0#64 (oneBlock scope).state).nodeRun servingHost
      parseDecimalU256 none [.produce 10#64 0#32] = some chain ∧ chain.head.number = 1 ∧
    decide (stateRoot chain.inner.state.unscoped = stateRoot chain.inner.state) = same := by
  obtain ⟨⟨b, chain⟩, hproduce, hchain⟩ := Option.map_eq_some_iff.mp h
  simp only [Prod.mk.injEq] at hchain
  refine ⟨chain, ?_, hchain⟩
  rw [Chain.nodeRun, Chain.nodeStep, hproduce]
  rfl

-- Without a scope the node comes back from its snapshot and writes one that is accepted. With one,
-- its snapshot is refused.
theorem snapshot_verified_oneBlock :
    (∃ chain, (Chain.genesis servingHost none 0#64 (oneBlock none).state).nodeRun servingHost
        parseDecimalU256 none [.produce 10#64 0#32, .restart 0#64 0#64] = some chain ∧
      (chain.exportSnapshot 0#64 0#64).verify servingHost parseDecimalU256 = some (.ok ())) ∧
    ∃ chain root, (Chain.genesis servingHost none 0#64 (oneBlock (some 7#256)).state).nodeRun
        servingHost parseDecimalU256 none [.produce 10#64 0#32] = some chain ∧
      (chain.exportSnapshot 0#64 0#64).verify servingHost parseDecimalU256 =
        some (.error (.StateRootMismatch (stateRoot chain.inner.state) root)) := by
  constructor
  · obtain ⟨chain, hrun, hhead, -⟩ := run_oneBlock none true (by decide +kernel)
    obtain ⟨-, hback, hsame⟩ := snapshot_verified hashes_servingHost parseDecimalU256_decimal
      (oneBlock none) (fun _ _ h => by simp at h) hrun (by omega) 0#64 0#64
    have hlast : chain.nodeRun servingHost parseDecimalU256 none [.restart 0#64 0#64] =
        some ((Chain.new servingHost chain.proposerKey 0#64).loadInto chain.inner.state.unscoped
          chain.inner.blocks chain.inner.genesisPresent) := by
      rw [Chain.nodeRun, Chain.nodeStep, hback, Option.bind_some, Chain.nodeRun]
    have hrestarted : (Chain.genesis servingHost none 0#64 (oneBlock none).state).nodeRun servingHost
        parseDecimalU256 none ([.produce 10#64 0#32] ++ [.restart 0#64 0#64]) = _ :=
      nodeRun_append _ _
    rw [hrun, Option.bind_some, hlast] at hrestarted
    obtain ⟨hverify, -, hsame'⟩ := snapshot_verified hashes_servingHost parseDecimalU256_decimal
      (oneBlock none) (fun _ _ _ => rfl) hrestarted (by
        show 0 < chain.head.number
        omega) 0#64 0#64
    refine ⟨_, hrestarted, ?_⟩
    rw [hverify, if_pos]
    rw [hsame'.mpr rfl]
  · obtain ⟨chain, hrun, hhead, hdiffer⟩ := run_oneBlock (some 7#256) false (by decide +kernel)
    obtain ⟨hverify, -, -⟩ := snapshot_verified hashes_servingHost parseDecimalU256_decimal
      (oneBlock (some 7#256)) (fun _ _ h => by simp at h) hrun (by omega) 0#64 0#64
    refine ⟨chain, stateRoot chain.inner.state.unscoped, hrun, ?_⟩
    rw [hverify, if_neg (of_decide_eq_false hdiffer)]

end Ubi2.Rpc
