import Ubi2.Rpc.Transcript

namespace Ubi2.Rpc

open Ubi2.Runtime Ubi2.Lib Ubi2.Exec

-- The state that a node keeps for its head, if any, is the head's own.
def HeadKept (chain : Chain) : Prop :=
  ∀ s, chain.recentStates.get chain.head.number = some (chain.head.number, s) →
    s = chain.ensureEpochValidatorsSeeded.inner.state

-- What every step of a node keeps that is no restart: its chain is one of executed blocks, and
-- so is every part of it that a reorg can go back to.
structure Traced (host : NodeHost) (g : Exec.Genesis) (chain : Chain) : Prop where
  wellFormed : WellFormed host chain
  executed : Executed host g chain.inner.blocks chain.inner.state
  ring : ∀ e ∈ chain.recentStates.rows, e.1 < chain.head.number →
    Executed host g (chain.inner.blocks.take (e.1 + 1)) e.2

def Traceable (chain : Chain) : NodeStep → Prop
  | .consider _ => HeadKept chain
  | .restart _ _ => False
  | _ => True

def TraceableRun (host : NodeHost) (parseU256 : String → Option U256)
    (validatorOverride : Option Address) : Chain → List NodeStep → Prop
  | _, [] => True
  | chain, a :: as =>
    Traceable chain a ∧ ∀ chain', chain.nodeStep host parseU256 validatorOverride a = some chain' →
      TraceableRun host parseU256 validatorOverride chain' as

section
variable {host : NodeHost} {g : Exec.Genesis} {validatorOverride : Option Address}
variable {chain chain' : Chain} {w : WireBlock}

theorem Executed.ensureSeeded (h : Executed host g chain.inner.blocks chain.inner.state) :
    Executed host g chain.inner.blocks chain.ensureEpochValidatorsSeeded.inner.state := by
  show Executed host g chain.inner.blocks (seedEpochValidators _ _)
  rw [seedEpochValidators]
  split_ifs
  · exact h.seeded
  · exact h

theorem Executed.mined {inner : Inner} {pending : List PendingTx} {timestamp : U64} {view : U32}
    {m : Mined} (h : Executed host g inner.blocks inner.state)
    (hmine : mine host inner pending timestamp view = some m) (key : Option ProposerKey)
    (proposerOverride : Option (Address × Bytes)) :
    Executed host g (inner.blocks ++ [mineBlock host key inner.head pending.length timestamp view
      proposerOverride m]) m.state := by
  have hexec : ∃ chain' : Chain,
      Chain.executeBlock host ⟨inner, key, none, ∅, ∅, []⟩ pending timestamp view
        proposerOverride = some (mineBlock host key inner.head pending.length timestamp view
          proposerOverride m, chain') ∧
      chain'.inner = inner.append m (mineBlock host key inner.head pending.length timestamp view
        proposerOverride m) := by
    rw [Chain.executeBlock]
    dsimp only
    rw [hmine]
    exact ⟨_, rfl, rfl⟩
  obtain ⟨chain', hexec, hinner⟩ := hexec
  have hblock : Executed host g chain'.inner.blocks chain'.inner.state := .block h hexec
  rw [hinner] at hblock
  exact hblock

namespace Traced

theorem of_same (h : Traced host g chain) (hwf : WellFormed host chain')
    (hblocks : chain'.inner.blocks = chain.inner.blocks)
    (hstate : Executed host g chain.inner.blocks chain'.inner.state)
    (hring : ∀ e ∈ chain'.recentStates.rows, e.1 < chain.head.number →
      e ∈ chain.recentStates.rows) : Traced host g chain' := by
  have hhead : chain'.head = chain.head := head_of_blocks hblocks
  refine ⟨hwf, hblocks ▸ hstate, ?_⟩
  intro e he hlt
  rw [hhead] at hlt
  rw [hblocks]
  exact h.ring e (hring e he hlt) hlt

theorem seeded (h : Traced host g chain) : Traced host g chain.ensureEpochValidatorsSeeded :=
  h.of_same h.wellFormed.seeded rfl h.executed.ensureSeeded fun _ he _ => he

-- A block on top of the chain, over the seeded state.
theorem append {pending : List PendingTx} {timestamp : U64} {view : U32} {m : Mined}
    {key : Option ProposerKey} {proposerOverride : Option (Address × Bytes)} {inner : Inner}
    (h : Traced host g chain) (hwf : WellFormed host chain')
    (hinner : Executed host g inner.blocks inner.state)
    (hblocks : inner.blocks = chain.inner.blocks)
    (hmine : mine host inner pending timestamp view = some m)
    (hblocks' : chain'.inner.blocks = inner.blocks ++ [mineBlock host key inner.head
      pending.length timestamp view proposerOverride m])
    (hstate' : chain'.inner.state = m.state)
    (hring : chain'.recentStates =
      rememberState chain.recentStates (chain.head.number + 1) inner.state) :
    Traced host g chain' := by
  have hlength := h.wellFormed.length
  have hlength' := hwf.length
  have hgrown : chain'.inner.blocks.length = chain.inner.blocks.length + 1 := by
    rw [hblocks', List.length_append, List.length_singleton, hblocks]
  refine ⟨hwf, ?_, ?_⟩
  · rw [hblocks', hstate']
    exact hinner.mined hmine key proposerOverride
  · intro e he hlt
    have htake : chain'.inner.blocks.take (e.1 + 1) = chain.inner.blocks.take (e.1 + 1) := by
      rw [hblocks', List.take_append_of_le_length (by rw [hblocks]; omega), hblocks]
    rw [htake]
    rw [hring] at he
    rcases mem_rememberState he with rfl | ⟨hne, hmem⟩
    · rw [List.take_of_length_le (by simp only [Nat.add_sub_cancel]; omega), ← hblocks]
      exact hinner
    · exact h.ring e hmem (by omega)

theorem apply {r : Except BlockError Block} (h : Traced host g chain)
    (happly : chain.validateAndApplyBlock host w validatorOverride = some (r, chain')) :
    Traced host g chain' := by
  have hwf := (validateAndApplyBlock_keeps happly h.wellFormed).1
  cases r with
  | error e =>
    rcases validateAndApplyBlock_rejected happly with ⟨rfl, -⟩ | ⟨_, _, _, -, -, -, -, -, -, rfl⟩
    · exact h.seeded
    · refine h.of_same hwf rfl h.executed.ensureSeeded ?_
      intro e he hlt
      rcases mem_rememberState he with rfl | ⟨-, hmem⟩
      · exact absurd hlt (by simp)
      · exact hmem
  | ok produced =>
    rcases validateAndApplyBlock_cases happly with ⟨e, he, -⟩ |
      ⟨pending, m, produced', hr, -, -, hmine, hproduced, -, rfl⟩
    · cases he
    · subst hproduced
      have hseeded : Executed host g chain.ensureEpochValidatorsSeeded.inner.blocks
          chain.ensureEpochValidatorsSeeded.inner.state := h.executed.ensureSeeded
      exact h.append hwf hseeded rfl hmine rfl rfl rfl

theorem cache (h : Traced host g chain) (raws : List Bytes) :
    Traced host g (chain.cacheRawTxs host raws) :=
  h.of_same (h.wellFormed.of_same rfl h.wellFormed.retained) rfl h.executed fun _ he _ => he

theorem produce {timestamp : U64} {view : U32} {b : Block} (h : Traced host g chain)
    (hproduce : chain.produceBlockAtView host timestamp view = some (b, chain')) :
    Traced host g chain' := by
  have hwf := (produceBlockAtView_keeps hproduce h.wellFormed).1
  obtain ⟨m, hmine, rfl, rfl⟩ := executeBlock_eq_some hproduce
  exact h.append hwf h.executed rfl hmine rfl rfl rfl

-- A chain that is cut back to a state it has reached.
theorem cut {height : Nat} {s : MemState} (h : Traced host g chain)
    (hheight : height ≤ chain.head.number)
    (hs : Executed host g (chain.inner.blocks.take (height + 1)) s) :
    Traced host g (chain.cut height s) := by
  have hwf : WellFormed host (chain.cut height s) := h.wellFormed.truncate height s
  have hlength := h.wellFormed.length
  have hcut := hwf.length
  have htake : (chain.cut height s).inner.blocks.length =
      min (height + 1) chain.inner.blocks.length := List.length_take
  refine ⟨hwf, hs, ?_⟩
  intro e he hlt
  have hring := h.ring e he (by omega)
  show Executed host g ((chain.inner.blocks.take (height + 1)).take (e.1 + 1)) e.2
  rwa [List.take_take, Nat.min_eq_left (by omega)]

-- A reorg replays the branch from the state of its ancestor, or puts the chain back.
theorem reorg {branch : List ForkBlockEntry} {caHeight : Nat}
    {r : Except BlockError (Option Block)} (h : Traced host g chain)
    (hheight : caHeight ≤ chain.head.number)
    (hhead : ∀ s, chain.recentStates.get chain.head.number = some (chain.head.number, s) →
      Executed host g chain.inner.blocks s)
    (hreorg : chain.executeReorg host branch caHeight validatorOverride = some (r, chain')) :
    (WellFormed host chain' → Traced host g chain') := by
  intro hwf
  rcases executeReorg_cases hreorg with ⟨-, rfl⟩ | ⟨s, hget, ⟨e, failed, rfl, -, -⟩ |
    ⟨applied, rfl, hbranch, rfl⟩⟩
  · exact h
  · obtain ⟨hinner, hring, -⟩ := executeReorg_error hreorg
    refine h.of_same hwf (by rw [hinner]) (hinner ▸ h.executed) ?_
    rw [hring]
    exact fun _ he _ => he
  · have hs : Executed host g (chain.inner.blocks.take (caHeight + 1)) s := by
      rcases Nat.lt_or_eq_of_le hheight with hlt | rfl
      · exact h.ring (caHeight, s) (Table.mem_of_get hget) hlt
      · have hlength := h.wellFormed.length
        rw [List.take_of_length_le (by omega)]
        exact hhead s hget
    have happlied : Traced host g applied :=
      applyBranch_keeps (fun _ _ _ _ h₁ happly => h₁.apply happly) (fun _ raws h₁ => h₁.cache raws)
        (h.cut hheight hs) hbranch
    exact happlied.of_same hwf rfl happlied.executed fun _ he _ => he

theorem consider {r : Except BlockError (Option Block)} (h : Traced host g chain)
    (hkept : HeadKept chain)
    (hconsider : chain.considerCompetingBlock host w validatorOverride = some (r, chain')) :
    Traced host g chain' := by
  have hwf := (considerCompetingBlock_keeps hconsider h.wellFormed).1
  have hinner := storeForkBlock_inner chain.ensureEpochValidatorsSeeded
    { w with hash := w.hash host } chain.finalizedHeight
  have hstored : Traced host g (chain.ensureEpochValidatorsSeeded.storeForkBlock
      { w with hash := w.hash host } chain.finalizedHeight) :=
    h.seeded.of_same (h.seeded.wellFormed.stored { w with hash := w.hash host } rfl _)
      (by rw [hinner]) (by rw [hinner]; exact h.seeded.executed) fun _ he _ => he
  rcases considerCompetingBlock_cases hconsider with ⟨-, rfl | rfl⟩ | ⟨candidate, hbest, hreorg⟩
  · exact h.seeded
  · exact hstored
  · obtain ⟨entry, -, -, -, hassemble⟩ := bestCandidate_eq_some hbest
    obtain ⟨-, -, ca, hca, hnumber⟩ := assembleForkBranch_eq_some hassemble
    have hlt := h.wellFormed.lt_of_mem hca
    have hlength := h.wellFormed.length
    have hsame : (chain.ensureEpochValidatorsSeeded.storeForkBlock
        { w with hash := w.hash host } chain.finalizedHeight).head.number = chain.head.number := by
      rw [storeForkBlock_head]
      rfl
    refine hstored.reorg (by omega) ?_ hreorg hwf
    intro s hget
    rw [hsame] at hget
    rw [hinner, hkept s hget]
    exact h.executed.ensureSeeded

theorem step {parseU256 : String → Option U256} {a : NodeStep} (h : Traced host g chain)
    (htraceable : Traceable chain a)
    (hstep : chain.nodeStep host parseU256 validatorOverride a = some chain') :
    Traced host g chain' := by
  cases a with
  | submit now raw =>
    cases hstep
    rcases ingestRawTx_cases (Prod.eta (chain.ingestRawTx host now raw)).symm with
      ⟨e, -, heq⟩ | ⟨q, -, -, -, heq⟩
    · rw [heq]
      exact h
    · rw [heq]
      exact h.of_same (h.wellFormed.of_same rfl h.wellFormed.retained) rfl h.executed
        fun _ he _ => he
  | apply b =>
    rw [Chain.nodeStep] at hstep
    split at hstep
    · cases hstep
    · rename_i happly
      cases hstep
      exact (h.apply happly).cache _
    · rename_i happly
      cases hstep
      exact h.apply happly
  | consider b =>
    rw [Chain.nodeStep] at hstep
    split at hstep
    · cases hstep
    · rename_i hconsider
      cases hstep
      exact (h.consider htraceable hconsider).cache _
    · rename_i hconsider
      cases hstep
      exact h.consider htraceable hconsider
    · rename_i hconsider
      cases hstep
      exact h.consider htraceable hconsider
  | produce timestamp view =>
    obtain ⟨⟨b, _⟩, hproduce, rfl⟩ := Option.map_eq_some_iff.mp hstep
    exact h.produce hproduce
  | consult =>
    cases hstep
    exact h.seeded
  | restart chainId genesisTime => exact htraceable.elim

theorem run {parseU256 : String → Option U256} {steps : List NodeStep}
    (h : Traced host g chain)
    (htraceable : TraceableRun host parseU256 validatorOverride chain steps)
    (hrun : chain.nodeRun host parseU256 validatorOverride steps = some chain') :
    Traced host g chain' := by
  induction steps generalizing chain with
  | nil =>
    cases hrun
    exact h
  | cons a steps ih =>
    obtain ⟨chain₁, hstep, hrest⟩ := Option.bind_eq_some_iff.mp hrun
    exact ih (h.step htraceable.1 hstep) (htraceable.2 chain₁ hstep) hrest

end Traced

theorem wellFormed_genesis (key : Option ProposerKey) (time : U64) (s : MemState) :
    WellFormed host (Chain.genesis host key time s) :=
  wellFormed_of_reachable ⟨key, time, s, [], rfl⟩

-- The chain of a node is one of executed blocks after every run, reorgs included, in which no
-- reorg starts from a state that is stale.
theorem executed_of_nodeRun {parseU256 : String → Option U256} {key : Option ProposerKey}
    {steps : List NodeStep}
    (htraceable : TraceableRun host parseU256 validatorOverride
      (Chain.genesis host key g.time g.state) steps)
    (hrun : (Chain.genesis host key g.time g.state).nodeRun host parseU256 validatorOverride
      steps = some chain) : Executed host g chain.inner.blocks chain.inner.state := by
  have hgenesis : Traced host g (Chain.genesis host key g.time g.state) :=
    ⟨wellFormed_genesis key g.time g.state, .genesis key, nofun⟩
  exact (hgenesis.run htraceable hrun).executed

end

end Ubi2.Rpc
