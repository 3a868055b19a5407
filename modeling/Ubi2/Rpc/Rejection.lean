import Ubi2.Rpc.Reorg

namespace Ubi2.Rpc

open Ubi2.Runtime Ubi2.Lib Ubi2.Lib.Encode Ubi2.Exec

-- What a node that turned a block down must not show of it: the canonical chain with its
-- state, indexes and mempool, the states kept for reorgs, and what its subscribers saw.
structure LeavesNoTrace (chain chain' : Chain) : Prop where
  inner : chain'.inner = chain.inner
  recentStates : chain'.recentStates = chain.recentStates
  heads : chain'.heads = chain.heads

-- A block that never runs: its header fails a check, or a transaction does not decode.
def StoppedEarly (host : NodeHost) (chain : Chain) (b : WireBlock)
    (validatorOverride : Option Address) : Prop :=
  headerError host chain.head chain.ensureEpochValidatorsSeeded.inner.state validatorOverride
      b ≠ none ∨
    b.rawTxs.mapM host.decodePendingTx = none

section
variable {host : NodeHost} {chain chain' : Chain} {b : WireBlock} {e : BlockError}
variable {validatorOverride : Option Address}

theorem inner_seeded_iff :
    chain.ensureEpochValidatorsSeeded.inner = chain.inner ↔
      chain.ensureEpochValidatorsSeeded = chain := by
  constructor
  · intro h
    exact congrArg (fun g => { chain with inner := g }) h
  · intro h
    rw [h]

-- A rejected block leaves no trace exactly when it was stopped before it ran and the
-- validators of genesis had been seeded.
theorem rejected_leaves_no_trace_iff
    (h : chain.validateAndApplyBlock host b validatorOverride = some (.error e, chain')) :
    LeavesNoTrace chain chain' ↔
      chain.ensureEpochValidatorsSeeded = chain ∧
        StoppedEarly host chain b validatorOverride := by
  rcases validateAndApplyBlock_rejected h with ⟨rfl, hearly⟩ |
    ⟨pending, m, produced, hheader, hdecode, -, -, -, -, rfl⟩
  · have hstopped : StoppedEarly host chain b validatorOverride := by
      rcases hearly with hheader | ⟨-, hdecode, -⟩
      · exact Or.inl (by simp [hheader])
      · exact Or.inr hdecode
    constructor
    · intro htrace
      exact ⟨inner_seeded_iff.mp htrace.inner, hstopped⟩
    · rintro ⟨hseeded, -⟩
      rw [hseeded]
      exact ⟨rfl, rfl, rfl⟩
  · -- The block ran, so it was sent out before it was compared.
    constructor
    · intro htrace
      have hheads : chain.heads ++ [produced] = chain.heads := htrace.heads
      simp at hheads
    · rintro ⟨-, hstopped⟩
      rcases hstopped with hstopped | hstopped
      · exact absurd hheader hstopped
      · rw [hdecode] at hstopped
        cases hstopped

end

-- The first block of a devnet by its only proposer, under a state root it does not have.
def forgedRootBlock : WireBlock :=
  let genesis := (Chain.new devnetHost none 0#64).head
  let header : WireBlock :=
    { number := 1, parentHash := genesis.hash, timestamp := 10#64, view := 0#32
      txsRoot := computeTxsRoot devnetHost [], stateRoot := 7#256, proposer := 1#160
      proposerSig := [], rawTxs := [] }
  { header with
    proposerSig := (ProposerKey.devnet 1#160).signPrehash (header.hash devnetHost) }

-- A block over an old parent is turned down and leaves nothing behind.
theorem rejected_leaves_no_trace_wrong_parent : ∃ chain',
    (Chain.new devnetHost none 0#64).validateAndApplyBlock devnetHost
      { forgedRootBlock with parentHash := 5#256 } (some 1#160) =
        some (.error .WrongParent, chain') ∧
    LeavesNoTrace (Chain.new devnetHost none 0#64) chain' := by
  have hheader : headerError devnetHost (Chain.new devnetHost none 0#64).head
      (Chain.new devnetHost none 0#64).ensureEpochValidatorsSeeded.inner.state (some 1#160)
      { forgedRootBlock with parentHash := 5#256 } = some .WrongParent := by decide +kernel
  have hseeded : (Chain.new devnetHost none 0#64).ensureEpochValidatorsSeeded =
      Chain.new devnetHost none 0#64 := by
    apply inner_seeded_iff.mp
    rfl
  have hrun : (Chain.new devnetHost none 0#64).validateAndApplyBlock devnetHost
      { forgedRootBlock with parentHash := 5#256 } (some 1#160) =
        some (.error .WrongParent,
          (Chain.new devnetHost none 0#64).ensureEpochValidatorsSeeded) := by
    rw [Chain.validateAndApplyBlock]
    dsimp only
    rw [show (Chain.new devnetHost none 0#64).ensureEpochValidatorsSeeded.head =
      (Chain.new devnetHost none 0#64).head from rfl, hheader]
  exact ⟨_, hrun, (rejected_leaves_no_trace_iff hrun).mpr
    ⟨hseeded, Or.inl (by rw [hheader]; simp)⟩⟩

-- The forged block is turned down after its execution was announced.
theorem rejected_block_announced : ∃ e chain',
    (Chain.new devnetHost none 0#64).validateAndApplyBlock devnetHost forgedRootBlock
      (some 1#160) = some (.error e, chain') ∧
    ¬ LeavesNoTrace (Chain.new devnetHost none 0#64) chain' := by
  have hrun : ((Chain.new devnetHost none 0#64).validateAndApplyBlock devnetHost forgedRootBlock
      (some 1#160)).map (fun r => (r.1.isOk, r.2.heads.length)) = some (false, 1) := by
    decide +kernel
  obtain ⟨⟨r, chain'⟩, hrun, hout⟩ := Option.map_eq_some_iff.mp hrun
  obtain ⟨hr, hheads⟩ := Prod.mk.inj hout
  cases r with
  | ok b => cases hr
  | error e =>
    refine ⟨e, chain', hrun, ?_⟩
    intro htrace
    rw [htrace.heads] at hheads
    cases hheads

end Ubi2.Rpc
