import Ubi2.Rpc.Admission
import Ubi2.Rpc.Reorg

namespace Ubi2.Rpc

open Ubi2.Runtime Ubi2.Lib Ubi2.Lib.Encode Ubi2.Exec

-- What happens to a node: a transaction is submitted, a block extends its chain or competes
-- with it, it produces one, or it is given the raw transactions of one.
inductive Arrival where
  | submit (now : U64) (raw : Bytes)
  | apply (b : WireBlock) (validatorOverride : Option Address)
  | consider (b : WireBlock) (validatorOverride : Option Address)
  | produce (timestamp : U64) (view : U32)
  | cache (raws : List Bytes)

namespace Chain

-- `none` is a panic.
def arrive (host : NodeHost) (chain : Chain) : Arrival → Option Chain
  | .submit now raw => some (chain.ingestRawTx host now raw).2
  | .apply b validatorOverride =>
    (chain.validateAndApplyBlock host b validatorOverride).map Prod.snd
  | .consider b validatorOverride =>
    (chain.considerCompetingBlock host b validatorOverride).map Prod.snd
  | .produce timestamp view => (chain.produceBlockAtView host timestamp view).map Prod.snd
  | .cache raws => some (chain.cacheRawTxs host raws)

def arriveAll (host : NodeHost) (chain : Chain) : List Arrival → Option Chain
  | [] => some chain
  | a :: as => (chain.arrive host a).bind fun chain => arriveAll host chain as

end Chain

-- The nodes that arrivals lead to from a genesis seeded with any state.
def Reachable (host : NodeHost) (chain : Chain) : Prop :=
  ∃ proposerKey genesisTime s arrivals,
    let genesis := Chain.new host proposerKey genesisTime
    { genesis with inner := { genesis.inner with state := s } }.arriveAll host arrivals =
      some chain

-- The header of a canonical block is the one its hash was made from.
def Block.Hashed (host : NodeHost) (b : Block) : Prop :=
  b.hash = computeHash host b.number b.parentHash b.timestamp b.view b.txsRoot b.stateRoot
    b.proposer

def ForkBlockEntry.Hashed (host : NodeHost) (e : ForkBlockEntry) : Prop :=
  e.hash = e.toWireBlock.hash host

-- What every reachable node keeps: a block's number is its place in the chain, and each
-- block, canonical or retained, is under the hash of its header.
structure WellFormed (host : NodeHost) (chain : Chain) : Prop where
  numbered : ∀ i (b : Block), chain.inner.blocks[i]? = some b → b.number = i
  hashed : ∀ b ∈ chain.inner.blocks, b.Hashed host
  retained : ∀ e ∈ chain.forkStore.rows, e.Hashed host

-- The later node has a head no lower, and the blocks the earlier one had finalized.
structure Keeps (chain chain' : Chain) : Prop where
  rises : chain.head.number ≤ chain'.head.number
  finalized : ∀ h ≤ chain.finalizedHeight, chain'.inner.blocks[h]? = chain.inner.blocks[h]?

theorem Keeps.refl (chain : Chain) : Keeps chain chain := ⟨le_refl _, fun _ _ => rfl⟩

theorem Keeps.trans {a b c : Chain} (hab : Keeps a b) (hbc : Keeps b c) : Keeps a c := by
  refine ⟨hab.rises.trans hbc.rises, ?_⟩
  intro h hh
  have hfinal : a.finalizedHeight ≤ b.finalizedHeight := Nat.sub_le_sub_right hab.rises _
  rw [hbc.finalized h (hh.trans hfinal), hab.finalized h hh]

section
variable {host : NodeHost} {chain chain' : Chain} {b : WireBlock} {produced : Block}
variable {validatorOverride : Option Address}

theorem head_of_append {g : Inner} {bs : List Block} {b : Block}
    (h : g.blocks = bs ++ [b]) : g.head = b := by
  simp [Inner.head, h]

theorem getElem?_head (g : Inner) : g.blocks[g.blocks.length - 1]? = some g.head := by
  rw [Inner.head, ← List.getLast?_eq_getLast_of_ne_nil, List.getLast?_eq_getElem?]

theorem WellFormed.length (h : WellFormed host chain) :
    chain.inner.blocks.length = chain.head.number + 1 := by
  have hpos := List.length_pos_iff.mpr chain.inner.genesisPresent
  have := h.numbered _ _ (getElem?_head chain.inner)
  rw [Chain.head, this]
  omega

-- Adding a block on top.
theorem WellFormed.append (h : WellFormed host chain)
    (hblocks : chain'.inner.blocks = chain.inner.blocks ++ [produced])
    (hnumber : produced.number = chain.head.number + 1) (hhash : produced.Hashed host)
    (hstore : chain'.forkStore = chain.forkStore) : WellFormed host chain' := by
  refine ⟨?_, ?_, hstore ▸ h.retained⟩
  · intro i b hb
    rw [hblocks, List.getElem?_append] at hb
    split_ifs at hb with hlt
    · exact h.numbered i b hb
    · have hlen := h.length
      obtain ⟨hi, rfl⟩ := List.getElem?_eq_some_iff.mp hb
      simp only [List.length_singleton] at hi
      simp only [List.getElem_singleton, hnumber]
      omega
  · intro b hb
    rw [hblocks] at hb
    rcases List.mem_append.mp hb with hb | hb
    · exact h.hashed b hb
    · exact List.mem_singleton.mp hb ▸ hhash

theorem Keeps.append (h : WellFormed host chain)
    (hblocks : chain'.inner.blocks = chain.inner.blocks ++ [produced])
    (hnumber : produced.number = chain.head.number + 1) : Keeps chain chain' := by
  have hhead : chain'.head = produced := head_of_append hblocks
  refine ⟨by rw [hhead]; omega, ?_⟩
  intro i hi
  have hlen := h.length
  rw [hblocks, List.getElem?_append_left]
  rw [Chain.finalizedHeight] at hi
  omega

theorem Applied.number (h : Applied host chain b produced chain') :
    produced.number = chain.head.number + 1 := by
  rw [h.header]
  exact h.above

theorem Applied.hashed (h : Applied host chain b produced chain') : produced.Hashed host := by
  rw [h.header]
  rfl

theorem Applied.tipKey (h : Applied host chain b produced chain') :
    produced.tipKey = ⟨b.number, b.view, b.hash host⟩ := by
  rw [h.header]
  rfl

theorem Applied.wellFormed (h : Applied host chain b produced chain')
    (hwf : WellFormed host chain) : WellFormed host chain' :=
  hwf.append h.blocks h.number h.hashed h.forkStore

theorem WellFormed.of_same (h : WellFormed host chain)
    (hblocks : chain'.inner.blocks = chain.inner.blocks)
    (hstore : ∀ e ∈ chain'.forkStore.rows, e.Hashed host) : WellFormed host chain' :=
  ⟨hblocks ▸ h.numbered, hblocks ▸ h.hashed, hstore⟩

theorem Keeps.of_same (hblocks : chain'.inner.blocks = chain.inner.blocks) :
    Keeps chain chain' := by
  have hhead : chain'.head = chain.head := by
    simp only [Chain.head, Inner.head, hblocks]
  exact ⟨by rw [hhead], fun h _ => by rw [hblocks]⟩

-- What walking a branch back establishes.
theorem assembleForkBranch_eq_some {fmap : ForkStore} {g : Inner} {finalized bound : Nat}
    {cur : ForkBlockEntry} {above branch : List ForkBlockEntry} {caHeight : Nat}
    (h : assembleForkBranch fmap g finalized bound cur above = some (branch, caHeight)) :
    branch.getLast? = (cur :: above).getLast? ∧ finalized ≤ caHeight ∧
      ∃ ca ∈ g.blocks, ca.number = caHeight := by
  induction bound generalizing cur above with
  | zero => simp [assembleForkBranch] at h
  | succ bound ih =>
    rw [assembleForkBranch] at h
    cases hca : g.canonical cur.parentHash with
    | some ca =>
      simp only [hca] at h
      split_ifs at h with hnumber hfinal
      cases h
      refine ⟨rfl, not_lt.mp hfinal, ca, ?_, rfl⟩
      rw [Inner.canonical] at hca
      obtain ⟨e, -, he⟩ := Option.bind_eq_some_iff.mp hca
      exact List.mem_of_getElem? he
    | none =>
      simp only [hca] at h
      cases hparent : fmap.get cur.parentHash with
      | none => simp [hparent] at h
      | some parent =>
        simp only [hparent] at h
        split_ifs at h with hnumber
        obtain ⟨hlast, hrest⟩ := ih h
        exact ⟨by rw [hlast, List.getLast?_cons_cons], hrest⟩

-- The best candidate is the branch of an entry that beats the current tip.
theorem bestCandidate_eq_some {fmap : ForkStore} {g : Inner} {currentTip : TipKey}
    {finalized : Nat} {candidate : ReorgCandidate}
    (h : bestCandidate fmap g currentTip finalized = some candidate) :
    ∃ entry ∈ fmap.rows, candidate.tip = entry.tipKey ∧
      forkChoicePrefers entry.tipKey currentTip ∧
      assembleForkBranch fmap g finalized WALK_BOUND entry [] =
        some (candidate.branch, candidate.caHeight) := by
  have hfold : ∀ (l : List ForkBlockEntry) (best : Option ReorgCandidate),
      l.foldl (betterCandidate fmap g currentTip finalized) best = some candidate →
      best = some candidate ∨ ∃ entry ∈ l, candidate.tip = entry.tipKey ∧
        forkChoicePrefers entry.tipKey currentTip ∧
        assembleForkBranch fmap g finalized WALK_BOUND entry [] =
          some (candidate.branch, candidate.caHeight) := by
    intro l
    induction l with
    | nil => exact fun best hbest => Or.inl hbest
    | cons entry l ih =>
      intro best hbest
      rcases ih _ hbest with hbest | ⟨entry', hmem, hrest⟩
      · rw [betterCandidate] at hbest
        split_ifs at hbest with hprefers
        · cases hbranch : assembleForkBranch fmap g finalized WALK_BOUND entry [] with
          | none => exact Or.inl (by simpa [hbranch] using hbest)
          | some p =>
            obtain ⟨branch, caHeight⟩ := p
            simp only [hbranch] at hbest
            cases best with
            | none =>
              cases hbest
              exact Or.inr ⟨entry, by simp, rfl, hprefers, hbranch⟩
            | some best =>
              dsimp only at hbest
              split_ifs at hbest with hbetter
              · cases hbest
                exact Or.inr ⟨entry, by simp, rfl, hprefers, hbranch⟩
              · exact Or.inl hbest
        · exact Or.inl hbest
      · exact Or.inr ⟨entry', List.mem_cons_of_mem _ hmem, hrest⟩
  rcases hfold _ _ h with hnone | hsome
  · cases hnone
  · exact hsome

theorem WellFormed.lt_of_mem (h : WellFormed host chain) {ca : Block}
    (hca : ca ∈ chain.inner.blocks) : ca.number < chain.inner.blocks.length := by
  obtain ⟨i, hi⟩ := List.getElem?_of_mem hca
  rw [h.numbered i ca hi]
  exact (List.getElem?_eq_some_iff.mp hi).1

theorem WellFormed.truncate (h : WellFormed host chain) (caHeight : Nat) (s : MemState) :
    WellFormed host { chain with inner := chain.inner.truncate caHeight s } := by
  refine ⟨?_, fun b hb => h.hashed b (List.mem_of_mem_take hb), h.retained⟩
  intro i b hb
  have hb : (chain.inner.blocks.take (caHeight + 1))[i]? = some b := hb
  rw [List.getElem?_take] at hb
  split_ifs at hb with hi
  exact h.numbered i b hb

theorem applyBranch_error {branch : List ForkBlockEntry} {e : BlockError}
    (h : chain.applyBranch host validatorOverride branch = some (.error e, chain')) :
    chain'.forkStore = chain.forkStore := by
  induction branch generalizing chain with
  | nil => cases h
  | cons fb branch ih =>
    rcases applyBranch_cons.mp h with ⟨e, -, hfb⟩ | ⟨produced, applied, hfb, hrest⟩
    · exact (validateAndApplyBlock_error hfb).2
    · rw [ih hrest]
      exact (validateAndApplyBlock_ok hfb).forkStore

-- A branch that was applied whole sits on the chain, and its last block is the head.
theorem applyBranch_ok {branch : List ForkBlockEntry}
    (h : chain.applyBranch host validatorOverride branch = some (.ok (), chain'))
    (hwf : WellFormed host chain) :
    WellFormed host chain' ∧ chain'.forkStore = chain.forkStore ∧
      chain.inner.blocks <+: chain'.inner.blocks ∧
      ∀ fb, branch.getLast? = some fb →
        chain'.head.tipKey = ⟨fb.number, fb.view, fb.toWireBlock.hash host⟩ := by
  induction branch generalizing chain with
  | nil =>
    cases h
    exact ⟨hwf, rfl, List.prefix_refl _, by simp⟩
  | cons fb branch ih =>
    obtain ⟨produced, chain₁, hfb, hrest⟩ := applyBranch_cons_ok.mp h
    have hap := validateAndApplyBlock_ok hfb
    have hwf₁ : WellFormed host (chain₁.cacheRawTxs host fb.rawTxs) :=
      (hap.wellFormed hwf).of_same rfl (hap.wellFormed hwf).retained
    obtain ⟨hwf', hstore, hpre, hlast⟩ := ih hrest hwf₁
    have hblocks : chain.inner.blocks <+: (chain₁.cacheRawTxs host fb.rawTxs).inner.blocks :=
      ⟨[produced], hap.blocks.symm⟩
    refine ⟨hwf', hstore.trans hap.forkStore, hblocks.trans hpre, ?_⟩
    intro fb' hfb'
    cases branch with
    | nil =>
      cases hrest
      cases hfb'
      have hhead : (chain₁.cacheRawTxs host fb.rawTxs).head = produced :=
        head_of_append hap.blocks
      rw [hhead, hap.tipKey]
      rfl
    | cons fb'' branch =>
      rw [List.getLast?_cons_cons] at hfb'
      exact hlast fb' hfb'

theorem WellFormed.displaced (h : WellFormed host chain) {d : ForkBlockEntry} {n : Nat}
    (hd : d ∈ (chain.inner.blocks.drop n).map (displacedEntry chain.inner)) :
    d.Hashed host := by
  obtain ⟨b, hb, rfl⟩ := List.mem_map.mp hd
  exact h.hashed b (List.mem_of_mem_drop hb)

theorem mem_reorgStore {branch displaced : List ForkBlockEntry} {e : ForkBlockEntry}
    (h : e ∈ (chain.reorgStore branch displaced).rows) :
    e ∈ chain.forkStore.rows ∨ e ∈ displaced := by
  have herase : ∀ (l : List ForkBlockEntry) (store : ForkStore),
      e ∈ (l.foldl (fun store fb => store.erase fb.hash) store).rows → e ∈ store.rows := by
    intro l
    induction l with
    | nil => exact fun store hmem => hmem
    | cons fb l ih => exact fun store hmem => (Table.mem_filter.mp (ih _ hmem)).1
  have hput : ∀ (l : List ForkBlockEntry) (store : ForkStore),
      e ∈ (l.foldl (fun store d =>
        if chain.finalizedHeight < d.number then store.put d else store) store).rows →
      e ∈ store.rows ∨ e ∈ l := by
    intro l
    induction l with
    | nil => exact fun store hmem => Or.inl hmem
    | cons d l ih =>
      intro store hmem
      rcases ih _ hmem with hmem | hmem
      · dsimp only at hmem
        split_ifs at hmem
        · rcases Table.mem_put.mp hmem with rfl | ⟨hmem, -⟩
          · exact Or.inr (by simp)
          · exact Or.inl hmem
        · exact Or.inl hmem
      · exact Or.inr (List.mem_cons_of_mem _ hmem)
  rcases hput _ _ (Table.mem_filter.mp h).1 with hmem | hmem
  · exact Or.inl (herase _ _ hmem)
  · exact Or.inr hmem

-- A reorg that fails puts the chain and the ring of states back.
theorem executeReorg_error {branch : List ForkBlockEntry} {caHeight : Nat} {e : BlockError}
    (h : chain.executeReorg host branch caHeight validatorOverride =
      some (.error e, chain')) :
    chain'.inner = chain.inner ∧ chain'.recentStates = chain.recentStates ∧
      chain'.forkStore = chain.forkStore := by
  rw [Chain.executeReorg] at h
  split at h
  · cases h
  · dsimp only at h
    split at h
    · cases h
    · rename_i hbranch
      cases h
      have hstore := applyBranch_error hbranch
      exact ⟨rfl, rfl, hstore⟩
    · cases h

theorem executeReorg_none {branch : List ForkBlockEntry} {caHeight : Nat}
    (h : chain.executeReorg host branch caHeight validatorOverride =
      some (.ok none, chain')) : chain' = chain := by
  rw [Chain.executeReorg] at h
  split at h
  · cases h
    rfl
  · dsimp only at h
    split at h <;> cases h

-- A reorg that is committed keeps the chain up to the common ancestor.
theorem executeReorg_some {branch : List ForkBlockEntry} {caHeight : Nat} {tip : Block}
    (h : chain.executeReorg host branch caHeight validatorOverride =
      some (.ok (some tip), chain')) (hwf : WellFormed host chain) :
    WellFormed host chain' ∧ tip = chain'.head ∧
      chain.inner.blocks.take (caHeight + 1) <+: chain'.inner.blocks ∧
      ∀ fb, branch.getLast? = some fb →
        chain'.head.tipKey = ⟨fb.number, fb.view, fb.toWireBlock.hash host⟩ := by
  rw [Chain.executeReorg] at h
  split at h
  · cases h
  · rename_i caState _
    dsimp only at h
    split at h
    · cases h
    · cases h
    · rename_i chain₁ hbranch
      cases h
      obtain ⟨hwf₁, hstore, hpre, hlast⟩ :=
        applyBranch_ok hbranch (hwf.truncate caHeight caState)
      refine ⟨hwf₁.of_same rfl ?_, rfl, hpre, hlast⟩
      intro e he
      rcases mem_reorgStore he with he | he
      · exact hwf₁.retained e he
      · exact hwf.displaced he

-- Every outcome of weighing a branch against the chain: nothing happens, an attempt
-- fails, or the tip of a retained branch becomes the head.
theorem maybeReorgToBestBranch_keeps {r : Except BlockError (Option Block)}
    {currentTip : TipKey} {finalized : Nat} (htip : chain.head.tipKey = currentTip)
    (hfinalized : chain.finalizedHeight = finalized)
    (h : chain.maybeReorgToBestBranch host currentTip finalized validatorOverride =
      some (r, chain')) (hwf : WellFormed host chain) :
    WellFormed host chain' ∧ Keeps chain chain' ∧
      ∀ tip, r = .ok (some tip) →
        tip = chain'.head ∧ forkChoicePrefers chain'.head.tipKey chain.head.tipKey := by
  subst htip hfinalized
  rw [Chain.maybeReorgToBestBranch] at h
  split at h
  · cases h
    exact ⟨hwf, Keeps.refl _, by simp⟩
  · rename_i candidate hbest
    cases r with
    | error e =>
      obtain ⟨hinner, -, hstore⟩ := executeReorg_error h
      exact ⟨hwf.of_same (by rw [hinner]) (hstore ▸ hwf.retained),
        Keeps.of_same (by rw [hinner]), by simp⟩
    | ok o =>
      cases o with
      | none =>
        rw [executeReorg_none h]
        exact ⟨hwf, Keeps.refl _, by simp⟩
      | some tip =>
        obtain ⟨entry, hmem, -, hprefers, hassemble⟩ := bestCandidate_eq_some hbest
        obtain ⟨hentry, hfinal, ca, hca, hnumber⟩ := assembleForkBranch_eq_some hassemble
        obtain ⟨hwf', htip, hpre, hlast⟩ := executeReorg_some h hwf
        have hkey : chain'.head.tipKey = entry.tipKey := by
          have hhash : entry.hash = entry.toWireBlock.hash host := hwf.retained entry hmem
          rw [hlast entry hentry, ← hhash]
          rfl
        have hlt := hwf.lt_of_mem hca
        refine ⟨hwf', ⟨?_, ?_⟩, ?_⟩
        · rcases forkChoicePrefers_iff.mp (hkey ▸ hprefers) with hlt | ⟨heq, -⟩
          · exact Nat.le_of_lt hlt
          · exact Nat.le_of_eq heq.symm
        · intro i hi
          obtain ⟨rest, hrest⟩ := hpre
          have hi : i < candidate.caHeight + 1 := by omega
          rw [← hrest, List.getElem?_append_left, List.getElem?_take, if_pos hi]
          rw [List.length_take]
          omega
        · rintro tip' ⟨⟩
          exact ⟨htip, hkey ▸ hprefers⟩

theorem storeForkBlock_rows {entry e : ForkBlockEntry} {finalized : Nat}
    (h : e ∈ (chain.storeForkBlock entry finalized).forkStore.rows) :
    e = entry ∨ (e ∈ chain.forkStore.rows ∧ e.hash ≠ entry.hash) := by
  have herase : ∀ (l : List Hash) (store : ForkStore),
      e ∈ (l.foldl Table.erase store).rows → e ∈ store.rows := by
    intro l
    induction l with
    | nil => exact fun store hmem => hmem
    | cons fb l ih => exact fun store hmem => (Table.mem_filter.mp (ih _ hmem)).1
  exact Table.mem_put.mp (Table.mem_filter.mp (herase _ _ h)).1

theorem storeForkBlock_inner (chain : Chain) (entry : ForkBlockEntry) (finalized : Nat) :
    (chain.storeForkBlock entry finalized).inner = chain.inner := by
  simp only [Chain.storeForkBlock]

theorem storeForkBlock_head (chain : Chain) (entry : ForkBlockEntry) (finalized : Nat) :
    (chain.storeForkBlock entry finalized).head = chain.head := by
  rw [Chain.head, storeForkBlock_inner, Chain.head]

theorem WellFormed.stored (h : WellFormed host chain) (entry : ForkBlockEntry)
    (hentry : entry.Hashed host) (finalized : Nat) :
    WellFormed host (chain.storeForkBlock entry finalized) := by
  refine h.of_same (by rw [storeForkBlock_inner]) ?_
  intro e he
  rcases storeForkBlock_rows he with rfl | ⟨he, -⟩
  · exact hentry
  · exact h.retained e he

theorem WellFormed.seeded (h : WellFormed host chain) :
    WellFormed host chain.ensureEpochValidatorsSeeded :=
  h.of_same rfl h.retained

theorem considerCompetingBlock_keeps {r : Except BlockError (Option Block)}
    (h : chain.considerCompetingBlock host b validatorOverride = some (r, chain'))
    (hwf : WellFormed host chain) :
    WellFormed host chain' ∧ Keeps chain chain' ∧
      ∀ tip, r = .ok (some tip) →
        tip = chain'.head ∧ forkChoicePrefers chain'.head.tipKey chain.head.tipKey := by
  have hseed : Keeps chain chain.ensureEpochValidatorsSeeded := Keeps.of_same rfl
  rw [Chain.considerCompetingBlock] at h
  split_ifs at h
  · cases h
    exact ⟨hwf.seeded, hseed, by simp⟩
  · cases h
    exact ⟨hwf.seeded, hseed, by simp⟩
  · cases h
    exact ⟨hwf.seeded, hseed, by simp⟩
  · cases h
    exact ⟨hwf.seeded, hseed, by simp⟩
  · have hstored := hwf.seeded.stored ⟨b, b.hash host⟩ rfl
      chain.ensureEpochValidatorsSeeded.finalizedHeight
    have hhead := storeForkBlock_head chain.ensureEpochValidatorsSeeded
      { b with hash := b.hash host } chain.ensureEpochValidatorsSeeded.finalizedHeight
    obtain ⟨hwf', hkeeps, htip⟩ := maybeReorgToBestBranch_keeps (by rw [hhead])
      (by rw [Chain.finalizedHeight, hhead, Chain.finalizedHeight]) h hstored
    rw [hhead] at htip
    have hsame : Keeps chain (chain.ensureEpochValidatorsSeeded.storeForkBlock
        { b with hash := b.hash host } chain.ensureEpochValidatorsSeeded.finalizedHeight) :=
      Keeps.of_same (by rw [storeForkBlock_inner]; rfl)
    exact ⟨hwf', hsame.trans hkeeps, htip⟩

theorem validateAndApplyBlock_keeps {r : Except BlockError Block}
    (h : chain.validateAndApplyBlock host b validatorOverride = some (r, chain'))
    (hwf : WellFormed host chain) : WellFormed host chain' ∧ Keeps chain chain' := by
  cases r with
  | error e =>
    obtain ⟨hinner, hstore⟩ := validateAndApplyBlock_error h
    exact ⟨hwf.of_same (by rw [hinner]; rfl) (hstore ▸ hwf.retained),
      Keeps.of_same (by rw [hinner]; rfl)⟩
  | ok produced =>
    have hap := validateAndApplyBlock_ok h
    exact ⟨hap.wellFormed hwf, Keeps.append hwf hap.blocks hap.number⟩

theorem produceBlockAtView_keeps {timestamp : U64} {view : U32}
    (h : chain.produceBlockAtView host timestamp view = some (produced, chain'))
    (hwf : WellFormed host chain) : WellFormed host chain' ∧ Keeps chain chain' := by
  obtain ⟨m, -, hproduced, rfl⟩ := executeBlock_eq_some h
  have hnumber : produced.number = chain.head.number + 1 := by rw [hproduced]; rfl
  have hhash : produced.Hashed host := by rw [hproduced]; rfl
  exact ⟨hwf.append rfl hnumber hhash rfl, Keeps.append hwf rfl hnumber⟩

theorem arrive_keeps {a : Arrival} (h : chain.arrive host a = some chain')
    (hwf : WellFormed host chain) : WellFormed host chain' ∧ Keeps chain chain' := by
  cases a with
  | submit now raw =>
    cases h
    have hingest : chain.ingestRawTx host now raw =
        ((chain.ingestRawTx host now raw).1, (chain.ingestRawTx host now raw).2) := rfl
    obtain ⟨e, -, heq⟩ | ⟨p, -, -, -, heq⟩ := ingestRawTx_cases hingest
    · rw [heq]
      exact ⟨hwf, Keeps.refl _⟩
    · rw [heq]
      exact ⟨hwf.of_same rfl hwf.retained, Keeps.of_same rfl⟩
  | apply b validatorOverride =>
    obtain ⟨⟨r, _⟩, hstep, rfl⟩ := Option.map_eq_some_iff.mp h
    exact validateAndApplyBlock_keeps hstep hwf
  | consider b validatorOverride =>
    obtain ⟨⟨r, _⟩, hstep, rfl⟩ := Option.map_eq_some_iff.mp h
    obtain ⟨hwf', hkeeps, -⟩ := considerCompetingBlock_keeps hstep hwf
    exact ⟨hwf', hkeeps⟩
  | produce timestamp view =>
    obtain ⟨⟨r, _⟩, hstep, rfl⟩ := Option.map_eq_some_iff.mp h
    exact produceBlockAtView_keeps hstep hwf
  | cache raws =>
    cases h
    exact ⟨hwf.of_same rfl hwf.retained, Keeps.of_same rfl⟩

theorem arriveAll_keeps {arrivals : List Arrival}
    (h : chain.arriveAll host arrivals = some chain') (hwf : WellFormed host chain) :
    WellFormed host chain' ∧ Keeps chain chain' := by
  induction arrivals generalizing chain with
  | nil =>
    cases h
    exact ⟨hwf, Keeps.refl _⟩
  | cons a arrivals ih =>
    obtain ⟨chain₁, hfirst, hrest⟩ := Option.bind_eq_some_iff.mp h
    obtain ⟨hwf₁, hkeeps⟩ := arrive_keeps hfirst hwf
    obtain ⟨hwf', hkeeps'⟩ := ih hrest hwf₁
    exact ⟨hwf', hkeeps.trans hkeeps'⟩

theorem wellFormed_of_reachable (h : Reachable host chain) : WellFormed host chain := by
  obtain ⟨proposerKey, genesisTime, s, arrivals, hrun⟩ := h
  refine (arriveAll_keeps hrun ⟨?_, ?_, by simp [Chain.new]⟩).1
  · intro i b hb
    obtain ⟨hi, rfl⟩ := List.getElem?_eq_some_iff.mp hb
    have hi : i < 1 := hi
    have : i = 0 := by omega
    subst this
    rfl
  · intro b hb
    rw [List.mem_singleton.mp hb]
    rfl

-- Along every run the finalized blocks stay, a reorg that is committed improves the
-- tip, and one that fails leaves the node as it was.
theorem finality_safe {arrivals : List Arrival} (hreach : Reachable host chain)
    (hrun : chain.arriveAll host arrivals = some chain') :
    (∀ h ≤ chain.finalizedHeight, ∃ b, chain.inner.blocks[h]? = some b ∧
      chain'.inner.blocks[h]? = some b) ∧
    (∀ b validatorOverride tip chain₂,
      chain'.considerCompetingBlock host b validatorOverride =
        some (.ok (some tip), chain₂) →
      tip = chain₂.head ∧ forkChoicePrefers chain₂.head.tipKey chain'.head.tipKey) ∧
    ∀ branch caHeight validatorOverride e chain₂,
      chain'.executeReorg host branch caHeight validatorOverride = some (.error e, chain₂) →
      chain₂.inner = chain'.inner ∧ chain₂.recentStates = chain'.recentStates ∧
        chain₂.forkStore = chain'.forkStore := by
  obtain ⟨hwf', hkeeps⟩ := arriveAll_keeps hrun (wellFormed_of_reachable hreach)
  refine ⟨?_, ?_, ?_⟩
  · intro h hh
    have hlen := (wellFormed_of_reachable hreach).length
    have hlt : h < chain.inner.blocks.length := by
      rw [Chain.finalizedHeight] at hh
      omega
    exact ⟨_, List.getElem?_eq_getElem hlt,
      (hkeeps.finalized h hh).trans (List.getElem?_eq_getElem hlt)⟩
  · intro b validatorOverride tip chain₂ h
    exact (considerCompetingBlock_keeps h hwf').2.2 tip rfl
  · intro branch caHeight validatorOverride e chain₂ h
    exact executeReorg_error h

end

-- The first block of a devnet, produced at a view.
def rivalBlock (view : U32) : Option WireBlock :=
  ((Chain.new devnetHost (some (.devnet 1#160)) 0#64).produceBlockAtView devnetHost 10#64
    view).map fun p => p.2.wireBlockFrom p.1

-- A block of view 1 arrives, then its rival of view 0 takes its place.
theorem finality_safe_rivals : ∃ later earlier chain chain',
    rivalBlock 1#32 = some later ∧ rivalBlock 0#32 = some earlier ∧
    (Chain.new devnetHost none 0#64).arriveAll devnetHost [.apply later (some 1#160)] =
      some chain ∧
    chain.arriveAll devnetHost [.consider earlier (some 1#160)] = some chain' ∧
    chain.head.view = 1#32 ∧ chain'.head.view = 0#32 ∧
    ∀ h ≤ chain.finalizedHeight, ∃ b, chain.inner.blocks[h]? = some b ∧
      chain'.inner.blocks[h]? = some b := by
  have hrun : ((rivalBlock 1#32).bind fun later => (rivalBlock 0#32).bind fun earlier =>
      ((Chain.new devnetHost none 0#64).arriveAll devnetHost
        [.apply later (some 1#160)]).bind fun chain =>
      (chain.arriveAll devnetHost [.consider earlier (some 1#160)]).map fun chain' =>
        (chain.head.view, chain'.head.view)) = some (1#32, 0#32) := by decide +kernel
  obtain ⟨later, hlater, hrun⟩ := Option.bind_eq_some_iff.mp hrun
  obtain ⟨earlier, hearlier, hrun⟩ := Option.bind_eq_some_iff.mp hrun
  obtain ⟨chain, hchain, hrun⟩ := Option.bind_eq_some_iff.mp hrun
  obtain ⟨chain', hchain', hviews⟩ := Option.map_eq_some_iff.mp hrun
  obtain ⟨hview, hview'⟩ := Prod.mk.inj hviews
  have hreach : Reachable devnetHost chain :=
    ⟨none, 0#64, {}, [.apply later (some 1#160)], hchain⟩
  exact ⟨later, earlier, chain, chain', hlater, hearlier, hchain, hchain', hview, hview',
    (finality_safe hreach hchain').1⟩

end Ubi2.Rpc
