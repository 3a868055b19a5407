import Ubi2.Rpc.Execute

namespace Ubi2.Rpc

open Ubi2.Runtime Ubi2.Lib Ubi2.Lib.Encode Ubi2.Exec

-- Genesis has no validators before the first block runs. The schedule of that block is
-- read earlier, so they are seeded on first use.
def seedEpochValidators (number : Nat) (s : MemState) : MemState :=
  if number = 0 ∧ s.epochValidators = [] then s.refreshEpochValidators else s

-- The set a schedule is read from: the one designated proposer, where the node has one.
def effectiveValidatorSet (s : MemState) (validatorOverride : Option Address) : List Address :=
  match validatorOverride with
  | some a => [a]
  | none => s.epochValidators

-- The checks of a header that extends a head, in the order they are made.
def headerError (host : NodeHost) (head : Block) (s : MemState)
    (validatorOverride : Option Address) (b : WireBlock) : Option BlockError :=
  let v := effectiveValidatorSet s validatorOverride
  if b.number ≠ head.number + 1 then some (.NonContiguous head.number b.number)
  else if b.parentHash ≠ head.hash then some .WrongParent
  else if b.timestamp ≤ head.timestamp then some .BadTimestamp
  else if VIEW_MAX ≤ b.view then some (.ViewOutOfRange b.view)
  else if v = [] then some .NoValidatorSet
  else if v[proposerIndex b.number b.view v.length]? ≠ some b.proposer then
    some .WrongProposer
  else if host.recoverProposer (b.hash host) b.proposerSig ≠ some b.proposer then
    some .BadSignature
  else none

-- Drop what the block mined and what its sender's nonce has passed.
def pruneMempool (g : Inner) (produced : Block) : List PendingTx :=
  g.mempool.filter fun p =>
    ¬ (p.hash ∈ produced.txs.map StoredTx.hash ∨ p.nonce < (g.state.account p.from_).nonce)

namespace Chain

def ensureEpochValidatorsSeeded (chain : Chain) : Chain :=
  { chain with
    inner := { chain.inner with
      state := seedEpochValidators chain.head.number chain.inner.state } }

-- Whether the block that was executed is the one the header claims.
def confirms (host : NodeHost) (b : WireBlock) (produced : Block) : Prop :=
  produced.stateRoot = b.stateRoot ∧ produced.txsRoot = b.txsRoot ∧
    produced.hash = b.hash host

instance (host : NodeHost) (b : WireBlock) (produced : Block) :
    Decidable (confirms host b produced) :=
  inferInstanceAs (Decidable (_ ∧ _ ∧ _))

-- A rejected block leaves the chain as it was, but for what the trial execution put
-- outside it. `none` is a panic.
def validateAndApplyBlock (host : NodeHost) (chain : Chain) (b : WireBlock)
    (validatorOverride : Option Address) : Option (Except BlockError Block × Chain) :=
  let chain := chain.ensureEpochValidatorsSeeded
  match headerError host chain.head chain.inner.state validatorOverride b with
  | some e => some (.error e, chain)
  | none =>
    match b.rawTxs.mapM host.decodePendingTx with
    | none => some (.error .UndecodableTx, chain)
    | some pending =>
      match chain.executeBlock host pending b.timestamp b.view
          (some (b.proposer, b.proposerSig)) with
      | none => none
      | some (produced, trial) =>
        if confirms host b produced then
          some (.ok produced,
            { trial with
              inner := { trial.inner with mempool := pruneMempool trial.inner produced } })
        else
          some (.error (.StateRootMismatch b.stateRoot produced.stateRoot),
            { trial with inner := chain.inner })

end Chain

-- What applying a block to a chain did: it is the new head, under the header it came with.
structure Applied (host : NodeHost) (chain : Chain) (b : WireBlock) (produced : Block)
    (chain' : Chain) : Prop where
  blocks : chain'.inner.blocks = chain.inner.blocks ++ [produced]
  above : b.number = chain.head.number + 1
  parentHash : b.parentHash = chain.head.hash
  header : produced = { produced with
    number := b.number, hash := b.hash host, parentHash := b.parentHash
    timestamp := b.timestamp, view := b.view, txsRoot := b.txsRoot
    stateRoot := b.stateRoot, proposer := b.proposer, proposerSig := b.proposerSig }
  forkStore : chain'.forkStore = chain.forkStore

theorem headerError_eq_none {host : NodeHost} {head : Block} {s : MemState}
    {validatorOverride : Option Address} {b : WireBlock} :
    headerError host head s validatorOverride b = none ↔
      b.number = head.number + 1 ∧ b.parentHash = head.hash ∧ head.timestamp < b.timestamp ∧
      b.view < VIEW_MAX ∧
      (effectiveValidatorSet s validatorOverride)[proposerIndex b.number b.view
        (effectiveValidatorSet s validatorOverride).length]? = some b.proposer ∧
      host.recoverProposer (b.hash host) b.proposerSig = some b.proposer := by
  rw [headerError]
  constructor
  · intro h
    split_ifs at h with hnumber hparent htime hview hset hproposer hsig
    exact ⟨not_not.mp hnumber, not_not.mp hparent, not_le.mp htime, not_le.mp hview,
      not_not.mp hproposer, not_not.mp hsig⟩
  · rintro ⟨hnumber, hparent, htime, hview, hproposer, hsig⟩
    have hset : effectiveValidatorSet s validatorOverride ≠ [] := by
      intro hset
      simp [hset] at hproposer
    rw [if_neg (not_not.mpr hnumber), if_neg (not_not.mpr hparent), if_neg (not_le.mpr htime),
      if_neg (not_le.mpr hview), if_neg hset, if_neg (not_not.mpr hproposer),
      if_neg (not_not.mpr hsig)]

theorem executeBlock_eq_some {host : NodeHost} {chain chain' : Chain}
    {pending : List PendingTx} {timestamp : U64} {view : U32}
    {proposerOverride : Option (Address × Bytes)} {b : Block}
    (h : chain.executeBlock host pending timestamp view proposerOverride = some (b, chain')) :
    ∃ m, mine host chain.inner pending timestamp view = some m ∧
      b = mineBlock host chain.proposerKey chain.head pending.length timestamp view
        proposerOverride m ∧
      chain' = { chain with
        inner := chain.inner.append m b
        recentStates :=
          rememberState chain.recentStates (chain.head.number + 1) chain.inner.state
        genesisAnchor :=
          sealAnchor chain.genesisAnchor (chain.head.number + 1) chain.inner.state
        heads := chain.heads ++ [b] } := by
  rw [Chain.executeBlock] at h
  cases hm : mine host chain.inner pending timestamp view with
  | none => simp [hm] at h
  | some m =>
    simp only [hm, Option.some.injEq, Prod.mk.injEq] at h
    obtain ⟨rfl, rfl⟩ := h
    exact ⟨m, rfl, rfl, rfl⟩

-- Every way a block can come back from being applied.
theorem validateAndApplyBlock_cases {host : NodeHost} {chain chain' : Chain} {b : WireBlock}
    {validatorOverride : Option Address} {r : Except BlockError Block}
    (h : chain.validateAndApplyBlock host b validatorOverride = some (r, chain')) :
    (∃ e, r = .error e ∧ chain'.inner = chain.ensureEpochValidatorsSeeded.inner ∧
      chain'.forkStore = chain.forkStore) ∨
    ∃ pending m produced, r = .ok produced ∧
      headerError host chain.head chain.ensureEpochValidatorsSeeded.inner.state
        validatorOverride b = none ∧
      b.rawTxs.mapM host.decodePendingTx = some pending ∧
      mine host chain.ensureEpochValidatorsSeeded.inner pending b.timestamp b.view = some m ∧
      produced = mineBlock host chain.proposerKey chain.head pending.length b.timestamp b.view
        (some (b.proposer, b.proposerSig)) m ∧
      Chain.confirms host b produced ∧
      chain' = { chain with
        inner :=
          { chain.ensureEpochValidatorsSeeded.inner.append m produced with
            mempool := pruneMempool
              (chain.ensureEpochValidatorsSeeded.inner.append m produced) produced }
        recentStates := rememberState chain.recentStates (chain.head.number + 1)
          chain.ensureEpochValidatorsSeeded.inner.state
        genesisAnchor := sealAnchor chain.genesisAnchor (chain.head.number + 1)
          chain.ensureEpochValidatorsSeeded.inner.state
        heads := chain.heads ++ [produced] } := by
  rw [Chain.validateAndApplyBlock] at h
  dsimp only at h
  split at h
  · rename_i e _
    cases h
    exact Or.inl ⟨e, rfl, rfl, rfl⟩
  · rename_i hheader
    split at h
    · cases h
      exact Or.inl ⟨_, rfl, rfl, rfl⟩
    · rename_i pending hdecode
      split at h
      · cases h
      · rename_i produced trial hexec
        obtain ⟨m, hm, hproduced, htrial⟩ := executeBlock_eq_some hexec
        split_ifs at h with hconfirms
        · cases h
          right
          refine ⟨pending, m, produced, rfl, hheader, hdecode, hm, hproduced, hconfirms, ?_⟩
          rw [htrial]
          rfl
        · cases h
          exact Or.inl ⟨_, rfl, rfl, by rw [htrial]; rfl⟩

-- A block whose header passes, whose transactions decode and which mines to what it claims
-- is applied.
theorem validateAndApplyBlock_of_confirms {host : NodeHost} {chain : Chain} {b : WireBlock}
    {validatorOverride : Option Address} {pending : List PendingTx} {m : Mined}
    (hheader : headerError host chain.head chain.ensureEpochValidatorsSeeded.inner.state
      validatorOverride b = none)
    (hdecode : b.rawTxs.mapM host.decodePendingTx = some pending)
    (hmine : mine host chain.ensureEpochValidatorsSeeded.inner pending b.timestamp b.view =
      some m)
    (hconfirms : Chain.confirms host b (mineBlock host chain.proposerKey chain.head
      pending.length b.timestamp b.view (some (b.proposer, b.proposerSig)) m)) :
    ∃ produced chain', chain.validateAndApplyBlock host b validatorOverride =
      some (.ok produced, chain') ∧ chain'.inner.state = m.state := by
  have hhead : chain.ensureEpochValidatorsSeeded.head = chain.head := rfl
  have hkey : chain.ensureEpochValidatorsSeeded.proposerKey = chain.proposerKey := rfl
  simp only [Chain.validateAndApplyBlock, hhead, hheader, hdecode, Chain.executeBlock, hmine,
    hkey, if_pos hconfirms]
  exact ⟨_, _, rfl, rfl⟩

theorem validateAndApplyBlock_ok {host : NodeHost} {chain chain' : Chain} {b : WireBlock}
    {validatorOverride : Option Address} {produced : Block}
    (h : chain.validateAndApplyBlock host b validatorOverride = some (.ok produced, chain')) :
    Applied host chain b produced chain' := by
  rcases validateAndApplyBlock_cases h with ⟨e, hr, -, -⟩ |
    ⟨pending, m, produced', hr, hheader, -, -, hproduced, hconfirms, rfl⟩
  · cases hr
  · cases hr
    obtain ⟨hnumber, hparent, -⟩ := headerError_eq_none.mp hheader
    refine ⟨rfl, hnumber, hparent, ?_, rfl⟩
    obtain ⟨hstate, htxs, hhash⟩ := hconfirms
    rw [← hstate, ← htxs, ← hhash, hparent, hnumber, hproduced]
    rfl

-- Every way a block is rejected: before it runs, or after, when what it ran to was already
-- sent to the subscribers.
theorem validateAndApplyBlock_rejected {host : NodeHost} {chain chain' : Chain} {b : WireBlock}
    {validatorOverride : Option Address} {e : BlockError}
    (h : chain.validateAndApplyBlock host b validatorOverride = some (.error e, chain')) :
    (chain' = chain.ensureEpochValidatorsSeeded ∧
      (headerError host chain.head chain.ensureEpochValidatorsSeeded.inner.state
          validatorOverride b = some e ∨
        headerError host chain.head chain.ensureEpochValidatorsSeeded.inner.state
          validatorOverride b = none ∧
        b.rawTxs.mapM host.decodePendingTx = none ∧ e = .UndecodableTx)) ∨
    ∃ pending m produced,
      headerError host chain.head chain.ensureEpochValidatorsSeeded.inner.state
        validatorOverride b = none ∧
      b.rawTxs.mapM host.decodePendingTx = some pending ∧
      mine host chain.ensureEpochValidatorsSeeded.inner pending b.timestamp b.view = some m ∧
      produced = mineBlock host chain.proposerKey chain.head pending.length b.timestamp b.view
        (some (b.proposer, b.proposerSig)) m ∧
      ¬ Chain.confirms host b produced ∧
      e = .StateRootMismatch b.stateRoot produced.stateRoot ∧
      chain' = { chain with
        inner := chain.ensureEpochValidatorsSeeded.inner
        recentStates := rememberState chain.recentStates (chain.head.number + 1)
          chain.ensureEpochValidatorsSeeded.inner.state
        genesisAnchor := sealAnchor chain.genesisAnchor (chain.head.number + 1)
          chain.ensureEpochValidatorsSeeded.inner.state
        heads := chain.heads ++ [produced] } := by
  rw [Chain.validateAndApplyBlock] at h
  dsimp only at h
  split at h
  · rename_i e hheader
    cases h
    exact Or.inl ⟨rfl, Or.inl hheader⟩
  · rename_i hheader
    split at h
    · rename_i hdecode
      cases h
      exact Or.inl ⟨rfl, Or.inr ⟨hheader, hdecode, rfl⟩⟩
    · rename_i pending hdecode
      split at h
      · cases h
      · rename_i produced trial hexec
        obtain ⟨m, hm, hproduced, htrial⟩ := executeBlock_eq_some hexec
        split_ifs at h with hconfirms
        · cases h
        · cases h
          exact Or.inr ⟨pending, m, produced, hheader, hdecode, hm, hproduced, hconfirms, rfl,
            by rw [htrial]; rfl⟩

theorem validateAndApplyBlock_error {host : NodeHost} {chain chain' : Chain} {b : WireBlock}
    {validatorOverride : Option Address} {e : BlockError}
    (h : chain.validateAndApplyBlock host b validatorOverride = some (.error e, chain')) :
    chain'.inner = chain.ensureEpochValidatorsSeeded.inner ∧
      chain'.forkStore = chain.forkStore := by
  rcases validateAndApplyBlock_rejected h with ⟨rfl, -⟩ | ⟨_, _, _, -, -, -, -, -, -, rfl⟩
  · exact ⟨rfl, rfl⟩
  · exact ⟨rfl, rfl⟩

end Ubi2.Rpc
