import Ubi2.Rpc.Follow

namespace Ubi2.Rpc

open Ubi2.Runtime Ubi2.Lib Ubi2.Lib.Encode Ubi2.Exec

def ForkBlockEntry.tipKey (e : ForkBlockEntry) : TipKey := ⟨e.number, e.view, e.hash⟩

-- The steps a branch is walked back before it is given up.
def WALK_BOUND : Nat := (FINALITY_DEPTH + 2) * 8

-- The canonical block under a hash.
def Inner.canonical (g : Inner) (hash : Hash) : Option Block :=
  (g.blocksByHash.get hash).bind fun e => g.blocks[e.2]?

-- A complete branch: its blocks upwards, and the height of the canonical block they
-- stand on.
structure ReorgCandidate where
  branch : List ForkBlockEntry
  caHeight : Nat
  tip : TipKey

-- Walk back from `cur` to a canonical block no lower than the finalized height. The
-- blocks above `cur` are gathered on the way.
def assembleForkBranch (fmap : ForkStore) (g : Inner) (finalized : Nat) :
    Nat → ForkBlockEntry → List ForkBlockEntry → Option (List ForkBlockEntry × Nat)
  | 0, _, _ => none
  | bound + 1, cur, above =>
    match g.canonical cur.parentHash with
    | some ca =>
      if cur.number ≠ ca.number + 1 then none
      else if ca.number < finalized then none
      else some (cur :: above, ca.number)
    | none =>
      match fmap.get cur.parentHash with
      | none => none
      | some parent =>
        if cur.number ≠ parent.number + 1 then none
        else assembleForkBranch fmap g finalized bound parent (cur :: above)

-- The better of the best branch so far and the one that ends in an entry, if that one
-- is complete and beats the current tip.
def betterCandidate (fmap : ForkStore) (g : Inner) (currentTip : TipKey) (finalized : Nat)
    (best : Option ReorgCandidate) (entry : ForkBlockEntry) : Option ReorgCandidate :=
  if ¬ forkChoicePrefers entry.tipKey currentTip then best
  else
    match assembleForkBranch fmap g finalized WALK_BOUND entry [] with
    | none => best
    | some (branch, caHeight) =>
      match best with
      | none => some ⟨branch, caHeight, entry.tipKey⟩
      | some b =>
        if forkChoicePrefers entry.tipKey b.tip then some ⟨branch, caHeight, entry.tipKey⟩
        else some b

-- The entries are compared by keys that end in their hashes, so the order in which they
-- are visited does not matter.
def bestCandidate (fmap : ForkStore) (g : Inner) (currentTip : TipKey) (finalized : Nat) :
    Option ReorgCandidate :=
  fmap.rows.foldl (betterCandidate fmap g currentTip finalized) none

-- A canonical block as an entry of the side store, with the raw transactions that are
-- cached.
def displacedEntry (g : Inner) (b : Block) : ForkBlockEntry where
  number := b.number
  parentHash := b.parentHash
  timestamp := b.timestamp
  view := b.view
  txsRoot := b.txsRoot
  stateRoot := b.stateRoot
  proposer := b.proposer
  proposerSig := b.proposerSig
  rawTxs := b.txs.filterMap fun tx => (g.rawTx.get tx.hash).map Prod.snd
  hash := b.hash

def eraseBlock (g : HashIndex × Table StoredTx.hash) (b : Block) :
    HashIndex × Table StoredTx.hash :=
  (g.1.erase b.hash, b.txs.foldl (fun t tx => t.erase tx.hash) g.2)

theorem mem_foldl_eraseBlock {l : List Block} {g : HashIndex × Table StoredTx.hash}
    {e : Hash × Nat} (h : e ∈ (l.foldl eraseBlock g).1.rows) :
    e ∈ g.1.rows ∧ ∀ b ∈ l, b.hash ≠ e.1 := by
  induction l generalizing g with
  | nil => exact ⟨h, by simp⟩
  | cons b l ih =>
    obtain ⟨hmem, hrest⟩ := ih h
    obtain ⟨hmem, hne⟩ := Table.mem_filter.mp hmem
    refine ⟨hmem, ?_⟩
    intro b' hb'
    rcases List.mem_cons.mp hb' with rfl | hb'
    · exact Ne.symm (by simpa using hne)
    · exact hrest b' hb'

-- Cut the chain above a height and put the state of that height back.
def Inner.truncate (g : Inner) (caHeight : Nat) (caState : MemState) : Inner where
  state := caState
  blocks := g.blocks.take (caHeight + 1)
  blocksByHash := ((g.blocks.drop (caHeight + 1)).foldl eraseBlock (g.blocksByHash, g.txs)).1
  txs := ((g.blocks.drop (caHeight + 1)).foldl eraseBlock (g.blocksByHash, g.txs)).2
  mempool := g.mempool
  addrIndex := g.addrIndex
  rawTx := g.rawTx
  genesisPresent := by simp [List.take_eq_nil_iff, g.genesisPresent]
  indexed e he := by
    obtain ⟨hmem, hne⟩ := mem_foldl_eraseBlock he
    obtain ⟨hlt, hhash⟩ := g.indexed e hmem
    have hcut : e.2 < caHeight + 1 := by
      by_contra hge
      refine hne (g.blocks.get ⟨e.2, hlt⟩) ?_ hhash
      rw [List.mem_iff_getElem]
      refine ⟨e.2 - (caHeight + 1), by rw [List.length_drop]; omega, ?_⟩
      rw [List.getElem_drop, List.get_eq_getElem]
      congr 1
      exact Nat.add_sub_of_le (by omega)
    exact ⟨by rw [List.length_take]; omega, by simpa using hhash⟩

-- The `excess` lowest entries, by height and then by hash.
def lowestEntries (store : ForkStore) (excess : Nat) : List Hash :=
  ((store.rows.map fun e => (toLex (e.number, e.hash) : Lex (Nat × Hash))).mergeSort
    (fun a b => a ≤ b)).take excess |>.map fun k => (ofLex k).2

namespace Chain

def finalizedHeight (chain : Chain) : Nat := chain.head.number - FINALITY_DEPTH

-- Retain an entry and what lies above the finalized height, the highest
-- `MAX_FORK_STORE` of it.
def storeForkBlock (chain : Chain) (entry : ForkBlockEntry) (finalized : Nat) : Chain :=
  let store := (chain.forkStore.put entry).filter (fun e => finalized < e.number)
  { chain with
    forkStore :=
      (lowestEntries store (store.rows.length - MAX_FORK_STORE)).foldl Table.erase store }

-- Apply the blocks of a branch in order, up to the first that is rejected.
def applyBranch (host : NodeHost) (validatorOverride : Option Address) (chain : Chain) :
    List ForkBlockEntry → Option (Except BlockError Unit × Chain)
  | [] => some (.ok (), chain)
  | fb :: branch =>
    match chain.validateAndApplyBlock host fb.toWireBlock validatorOverride with
    | none => none
    | some (.error e, chain) => some (.error e, chain)
    | some (.ok _, chain) =>
      applyBranch host validatorOverride (chain.cacheRawTxs host fb.rawTxs) branch

-- The winning blocks leave the side store and the displaced ones enter it.
def reorgStore (chain : Chain) (branch displaced : List ForkBlockEntry) : ForkStore :=
  let store := branch.foldl (fun store fb => store.erase fb.hash) chain.forkStore
  let store := displaced.foldl
    (fun store d => if chain.finalizedHeight < d.number then store.put d else store) store
  store.filter (fun e => chain.finalizedHeight < e.number)

def executeReorg (host : NodeHost) (chain : Chain) (branch : List ForkBlockEntry)
    (caHeight : Nat) (validatorOverride : Option Address) :
    Option (Except BlockError (Option Block) × Chain) :=
  match chain.recentStates.get caHeight with
  | none => some (.ok none, chain)
  | some (_, caState) =>
    let displaced :=
      (chain.inner.blocks.drop (caHeight + 1)).map (displacedEntry chain.inner)
    match applyBranch host validatorOverride
        { chain with inner := chain.inner.truncate caHeight caState } branch with
    | none => none
    | some (.error e, failed) =>
      some (.error e,
        { failed with inner := chain.inner, recentStates := chain.recentStates })
    | some (.ok _, chain) =>
      some (.ok (some chain.head),
        { chain with forkStore := reorgStore chain branch displaced })

def maybeReorgToBestBranch (host : NodeHost) (chain : Chain) (currentTip : TipKey)
    (finalized : Nat) (validatorOverride : Option Address) :
    Option (Except BlockError (Option Block) × Chain) :=
  match bestCandidate chain.forkStore chain.inner currentTip finalized with
  | none => some (.ok none, chain)
  | some candidate =>
    chain.executeReorg host candidate.branch candidate.caHeight validatorOverride

def considerCompetingBlock (host : NodeHost) (chain : Chain) (b : WireBlock)
    (validatorOverride : Option Address) :
    Option (Except BlockError (Option Block) × Chain) :=
  let chain := chain.ensureEpochValidatorsSeeded
  let hash := b.hash host
  if VIEW_MAX ≤ b.view then some (.error (.ViewOutOfRange b.view), chain)
  else if host.recoverProposer hash b.proposerSig ≠ some b.proposer then
    some (.error .BadSignature, chain)
  else if chain.inner.blocksByHash.contains hash ∨ hash = chain.head.hash then
    some (.ok none, chain)
  else if b.number ≤ chain.finalizedHeight then some (.ok none, chain)
  else
    (chain.storeForkBlock { b with hash := hash } chain.finalizedHeight).maybeReorgToBestBranch
      host chain.head.tipKey chain.finalizedHeight validatorOverride

end Chain

section
variable {host : NodeHost} {validatorOverride : Option Address} {chain chain' : Chain}

-- A branch ends with its first block, where that is rejected, and goes on from it otherwise.
theorem applyBranch_cons {fb : ForkBlockEntry} {branch : List ForkBlockEntry}
    {r : Except BlockError Unit} :
    chain.applyBranch host validatorOverride (fb :: branch) = some (r, chain') ↔
      (∃ e, r = .error e ∧ chain.validateAndApplyBlock host fb.toWireBlock validatorOverride =
        some (.error e, chain')) ∨
      ∃ produced applied, chain.validateAndApplyBlock host fb.toWireBlock validatorOverride =
          some (.ok produced, applied) ∧
        (applied.cacheRawTxs host fb.rawTxs).applyBranch host validatorOverride branch =
          some (r, chain') := by
  rw [Chain.applyBranch]
  rcases chain.validateAndApplyBlock host fb.toWireBlock validatorOverride with
    _ | ⟨e | produced, applied⟩
  · simp
  · simp [eq_comm]
  · simp

theorem applyBranch_cons_ok {fb : ForkBlockEntry} {branch : List ForkBlockEntry} :
    chain.applyBranch host validatorOverride (fb :: branch) = some (.ok (), chain') ↔
      ∃ produced applied, chain.validateAndApplyBlock host fb.toWireBlock validatorOverride =
          some (.ok produced, applied) ∧
        (applied.cacheRawTxs host fb.rawTxs).applyBranch host validatorOverride branch =
          some (.ok (), chain') := by
  simp [applyBranch_cons]

-- What applying one block keeps, and the cache of raw transactions does not touch, is kept along
-- a branch.
theorem applyBranch_keeps {P : Chain → Prop}
    (happly : ∀ c w r c', P c → Chain.validateAndApplyBlock host c w validatorOverride = some (r, c') →
      P c')
    (hcache : ∀ c raws, P c → P (Chain.cacheRawTxs host c raws))
    {branch : List ForkBlockEntry} {r : Except BlockError Unit} (hP : P chain)
    (h : chain.applyBranch host validatorOverride branch = some (r, chain')) : P chain' := by
  induction branch generalizing chain with
  | nil =>
    cases h
    exact hP
  | cons fb branch ih =>
    rcases applyBranch_cons.mp h with ⟨e, -, hfb⟩ | ⟨produced, applied, hfb, hrest⟩
    · exact happly _ _ _ _ hP hfb
    · exact ih (hcache _ _ (happly _ _ _ _ hP hfb)) hrest

-- Every outcome of a reorg: the state it starts from is gone, its branch fails, or it is
-- committed.
theorem executeReorg_cases {branch : List ForkBlockEntry} {caHeight : Nat}
    {r : Except BlockError (Option Block)}
    (h : chain.executeReorg host branch caHeight validatorOverride = some (r, chain')) :
    (r = .ok none ∧ chain' = chain) ∨
    ∃ s, chain.recentStates.get caHeight = some (caHeight, s) ∧
      ((∃ e failed, r = .error e ∧
        Chain.applyBranch host validatorOverride
          { chain with inner := chain.inner.truncate caHeight s } branch = some (.error e, failed) ∧
        chain' = { failed with inner := chain.inner, recentStates := chain.recentStates }) ∨
      ∃ applied, r = .ok (some applied.head) ∧
        Chain.applyBranch host validatorOverride
          { chain with inner := chain.inner.truncate caHeight s } branch = some (.ok (), applied) ∧
        chain' = { applied with
          forkStore := applied.reorgStore branch
            ((chain.inner.blocks.drop (caHeight + 1)).map (displacedEntry chain.inner)) }) := by
  rw [Chain.executeReorg] at h
  split at h
  · cases h
    exact Or.inl ⟨rfl, rfl⟩
  · rename_i height s hget
    obtain rfl : height = caHeight := Table.key_of_get hget
    right
    refine ⟨s, hget, ?_⟩
    dsimp only at h
    split at h
    · cases h
    · rename_i e failed hbranch
      cases h
      exact Or.inl ⟨e, failed, rfl, hbranch, rfl⟩
    · rename_i applied hbranch
      cases h
      exact Or.inr ⟨applied, rfl, hbranch, rfl⟩

-- Every outcome of a competing block: it is refused or known, it is stored without a branch to
-- move to, or it leads to a reorg.
theorem considerCompetingBlock_cases {w : WireBlock} {r : Except BlockError (Option Block)}
    (h : chain.considerCompetingBlock host w validatorOverride = some (r, chain')) :
    ((∀ tip, r ≠ .ok (some tip)) ∧ (chain' = chain.ensureEpochValidatorsSeeded ∨
      chain' = chain.ensureEpochValidatorsSeeded.storeForkBlock { w with hash := w.hash host }
        chain.finalizedHeight)) ∨
    ∃ candidate,
      bestCandidate (chain.ensureEpochValidatorsSeeded.storeForkBlock
        { w with hash := w.hash host } chain.finalizedHeight).forkStore
        chain.ensureEpochValidatorsSeeded.inner chain.head.tipKey chain.finalizedHeight =
          some candidate ∧
      (chain.ensureEpochValidatorsSeeded.storeForkBlock { w with hash := w.hash host }
        chain.finalizedHeight).executeReorg host candidate.branch candidate.caHeight
          validatorOverride = some (r, chain') := by
  rw [Chain.considerCompetingBlock] at h
  split_ifs at h
  · cases h
    exact Or.inl ⟨nofun, Or.inl rfl⟩
  · cases h
    exact Or.inl ⟨nofun, Or.inl rfl⟩
  · cases h
    exact Or.inl ⟨nofun, Or.inl rfl⟩
  · cases h
    exact Or.inl ⟨nofun, Or.inl rfl⟩
  · rw [Chain.maybeReorgToBestBranch] at h
    split at h
    · cases h
      exact Or.inl ⟨nofun, Or.inr rfl⟩
    · rename_i candidate hbest
      exact Or.inr ⟨candidate, hbest, h⟩

end

end Ubi2.Rpc
