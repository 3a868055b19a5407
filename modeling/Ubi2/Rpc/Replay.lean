import Ubi2.Network.Wire
import Ubi2.Rpc.Finality
import Ubi2.Rpc.RawTxs

namespace Ubi2.Rpc

open Ubi2.Runtime Ubi2.Lib Ubi2.Lib.Encode Ubi2.Exec

namespace Chain

-- Blocks that are accepted one after another.
def replay (host : NodeHost) (validatorOverride : Option Address) :
    Chain → List WireBlock → Option Chain
  | chain, [] => some chain
  | chain, b :: bs =>
    match chain.validateAndApplyBlock host b validatorOverride with
    | some (.ok _, chain) => replay host validatorOverride chain bs
    | _ => none

-- The canonical blocks between genesis and a height, as they are served.
def servedBelow (chain : Chain) (height : Nat) : List WireBlock :=
  ((chain.inner.blocks.take height).drop 1).map chain.wireBlockFrom

-- The chain cut above a height, with a state for it.
def cut (chain : Chain) (height : Nat) (s : MemState) : Chain :=
  { chain with inner := chain.inner.truncate height s }

end Chain

-- Serving the chain from genesis leads to its tip.
def Replays (host : NodeHost) (validatorOverride : Option Address) (genesis chain : Chain) :
    Prop :=
  ∃ last, genesis.replay host validatorOverride
      (chain.servedBelow chain.inner.blocks.length) = some last ∧ SameTip last chain

section
variable {host : NodeHost} {validatorOverride : Option Address} {raws : List Bytes}
variable {genesis chain chain' p p' f : Chain} {b : Block}

theorem servedBelow_eq (hblocks : chain'.inner.blocks = chain.inner.blocks)
    (hwire : ∀ b ∈ chain.inner.blocks, chain'.wireBlockFrom b = chain.wireBlockFrom b)
    (height : Nat) : chain'.servedBelow height = chain.servedBelow height := by
  rw [Chain.servedBelow, hblocks, Chain.servedBelow]
  refine List.map_congr_left ?_
  intro b hb
  exact hwire b (List.mem_of_mem_take (List.mem_of_mem_drop hb))

theorem servedBelow_append (hblocks : chain'.inner.blocks = chain.inner.blocks ++ [b])
    (hwire : ∀ b ∈ chain.inner.blocks, chain'.wireBlockFrom b = chain.wireBlockFrom b) :
    chain'.servedBelow chain'.inner.blocks.length =
      chain.servedBelow chain.inner.blocks.length ++ [chain'.wireBlockFrom b] := by
  have hpos := List.length_pos_iff.mpr chain.inner.genesisPresent
  rw [Chain.servedBelow, List.take_length, hblocks, List.drop_append_of_le_length (by omega),
    List.map_append, Chain.servedBelow, List.take_length, List.map_singleton]
  refine congrArg (· ++ [_]) (List.map_congr_left ?_)
  intro b' hb'
  exact hwire b' (List.mem_of_mem_drop hb')

-- The checks of a header read no more of the head than its number, hash and timestamp.
theorem SameTip.headerError (h : SameTip p f) (w : WireBlock) :
    headerError host f.head f.ensureEpochValidatorsSeeded.inner.state validatorOverride w =
      headerError host p.head p.ensureEpochValidatorsSeeded.inner.state validatorOverride w := by
  simp only [Rpc.headerError, h.number, h.hash, h.timestamp, h.state]

theorem headerError_of_fields {head : Block} {s : MemState} {w w' : WireBlock}
    (h : w' = { w with rawTxs := w'.rawTxs }) :
    headerError host head s validatorOverride w' = headerError host head s validatorOverride w := by
  rw [h]
  rfl

-- Mining the same transactions from the same state stores the same hashes.
theorem mineTxs_congr {ctx : BlockCtx} {number i : Nat} {pending : List PendingTx} {m m' m₂ : Mined}
    (h : mineTxs host ctx number i pending m = some m') (hstate : m₂.state = m.state)
    (hstored : m₂.stored.map StoredTx.hash = m.stored.map StoredTx.hash) :
    ∃ m₂', mineTxs host ctx number i pending m₂ = some m₂' ∧ m₂'.state = m'.state ∧
      m₂'.stored.map StoredTx.hash = m'.stored.map StoredTx.hash := by
  induction pending generalizing m m₂ i with
  | nil =>
    cases h
    exact ⟨m₂, rfl, hstate, hstored⟩
  | cons q pending ih =>
    rw [mineTxs] at h
    cases happly : applyTx host.toHost ctx (kernelTxFromPending q) m.state with
    | none => simp [mineTx, happly] at h
    | some r =>
      obtain ⟨o, s⟩ := r
      have happly₂ := hstate ▸ happly
      cases o with
      | none =>
        rw [mineTx_of_none happly, Option.bind_some] at h
        rw [mineTxs, mineTx_of_none happly₂, Option.bind_some]
        exact ih h rfl hstored
      | some o =>
        obtain ⟨m₁, tx, hmine, hs, htx, hm₁⟩ := mineTx_of_some happly number i
        obtain ⟨m₂₁, tx₂, hmine₂, hs₂, htx₂, hm₂₁⟩ := mineTx_of_some happly₂ number i
        rw [hmine, Option.bind_some] at h
        rw [mineTxs, hmine₂, Option.bind_some]
        refine ih h (hs₂.trans hs.symm) ?_
        rw [hm₂₁, hm₁, List.map_append, List.map_append, hstored, List.map_singleton,
          List.map_singleton, htx, htx₂]

theorem mineSweeps_congr (host : NodeHost) (ctx : BlockCtx) (number : Nat) {m m₂ : Mined}
    (hstate : m₂.state = m.state)
    (hstored : m₂.stored.map StoredTx.hash = m.stored.map StoredTx.hash) :
    (mineSweeps host ctx number m₂).state = (mineSweeps host ctx number m).state ∧
      (mineSweeps host ctx number m₂).stored.map StoredTx.hash =
        (mineSweeps host ctx number m).stored.map StoredTx.hash := by
  refine ⟨by rw [mineSweeps_state, mineSweeps_state, hstate], ?_⟩
  rw [mineSweeps_stored, mineSweeps_stored, List.map_append, List.map_append, hstored, hstate]
  split_ifs
  · rfl
  · rfl

theorem computeTxsRoot_take (txs : List StoredTx) (n : Nat) :
    computeTxsRoot host (txs.take (min n txs.length)) =
      txsRootOf host ((txs.map StoredTx.hash).take (min n (txs.map StoredTx.hash).length)) := by
  rw [computeTxsRoot, List.map_take, List.length_map]

-- A header that one node confirms is confirmed by every node at its tip.
theorem confirms_congr (hsame : SameTip p f) {w : WireBlock} {m m₂ : Mined} {n : Nat}
    (hstate : m₂.state = m.state)
    (hstored : m₂.stored.map StoredTx.hash = m.stored.map StoredTx.hash)
    (h : Chain.confirms host w (mineBlock host p.proposerKey p.head n w.timestamp w.view
      (some (w.proposer, w.proposerSig)) m)) :
    Chain.confirms host w (mineBlock host f.proposerKey f.head n w.timestamp w.view
      (some (w.proposer, w.proposerSig)) m₂) := by
  simp only [Chain.confirms, mineBlock, stampOf, computeTxsRoot_take] at h ⊢
  rw [hstate, hstored, hsame.number, hsame.hash]
  exact h

theorem sameTip_of_applied {w : WireBlock} {b' : Block} {f' : Chain}
    (h : Applied host p w b p') (h' : Applied host f w b' f')
    (hstate : f'.inner.state = p'.inner.state) : SameTip p' f' := by
  have hhead : p'.head = b := head_of_append h.blocks
  have hhead' : f'.head = b' := head_of_append h'.blocks
  have hnumber : f'.head.number = p'.head.number := by
    rw [hhead, hhead', h.header, h'.header]
  refine ⟨hnumber, ?_, ?_, ?_⟩
  · rw [hhead, hhead', h.header, h'.header]
  · rw [hhead, hhead', h.header, h'.header]
  · show seedEpochValidators f'.head.number f'.inner.state = _
    rw [hnumber, hstate]
    rfl

-- Nodes at one tip accept the same blocks, and are at one tip again after.
theorem SameTip.accepts (hsame : SameTip p f) {w : WireBlock}
    (h : p.validateAndApplyBlock host w validatorOverride = some (.ok b, p')) :
    ∃ b' f', f.validateAndApplyBlock host w validatorOverride = some (.ok b', f') ∧
      SameTip p' f' := by
  have happlied := validateAndApplyBlock_ok h
  rcases validateAndApplyBlock_cases h with ⟨e, he, -⟩ |
    ⟨pending, m', produced, hr, hheader, hdecode, hmine, hproduced, hconfirms, rfl⟩
  · cases he
  cases hr
  rw [mine, Option.map_eq_some_iff] at hmine
  obtain ⟨m, hm, rfl⟩ := hmine
  have hctx : f.ensureEpochValidatorsSeeded.inner.nextCtx host w.timestamp w.view =
      p.ensureEpochValidatorsSeeded.inner.nextCtx host w.timestamp w.view := hsame.nextCtx
  have hnumber : f.ensureEpochValidatorsSeeded.inner.head.number =
      p.ensureEpochValidatorsSeeded.inner.head.number := hsame.number
  have hstart : f.ensureEpochValidatorsSeeded.inner.start.state =
      p.ensureEpochValidatorsSeeded.inner.start.state :=
    hsame.start.trans (SameTip.refl p).start.symm
  obtain ⟨m₂, hm₂, hstate, hstored⟩ := mineTxs_congr hm hstart rfl
  have hsweeps := mineSweeps_congr host
    (p.ensureEpochValidatorsSeeded.inner.nextCtx host w.timestamp w.view)
    (p.ensureEpochValidatorsSeeded.inner.head.number + 1) hstate hstored
  have hconfirms₂ := confirms_congr hsame hsweeps.1 hsweeps.2 (hproduced ▸ hconfirms)
  obtain ⟨b', f', hvalidate, hstate'⟩ := validateAndApplyBlock_of_confirms
    ((hsame.headerError w).trans hheader) hdecode (by rw [mine, hctx, hnumber, hm₂]; rfl) hconfirms₂
  exact ⟨b', f', hvalidate, sameTip_of_applied happlied (validateAndApplyBlock_ok hvalidate)
    (hstate'.trans hsweeps.1)⟩

theorem replay_append (bs bs' : List WireBlock) :
    chain.replay host validatorOverride (bs ++ bs') =
      (chain.replay host validatorOverride bs).bind (·.replay host validatorOverride bs') := by
  induction bs generalizing chain with
  | nil => rfl
  | cons w bs ih =>
    rw [List.cons_append, Chain.replay, Chain.replay]
    split
    · exact ih
    · rfl

theorem head_of_blocks (hblocks : chain'.inner.blocks = chain.inner.blocks) :
    chain'.head = chain.head := by
  simp only [Chain.head, Inner.head, hblocks]

theorem seeded_of_inner (h : chain'.inner = chain.inner) :
    chain'.ensureEpochValidatorsSeeded.inner.state =
      chain.ensureEpochValidatorsSeeded.inner.state := by
  simp only [Chain.ensureEpochValidatorsSeeded, Chain.head, h]

theorem SameTip.of_blocks (hblocks : chain'.inner.blocks = chain.inner.blocks)
    (hstate : chain'.ensureEpochValidatorsSeeded.inner.state =
      chain.ensureEpochValidatorsSeeded.inner.state) : SameTip chain chain' :=
  SameHead.sameTip ⟨head_of_blocks hblocks, hstate⟩

theorem Replays.of_same (h : Replays host validatorOverride genesis chain)
    (hblocks : chain'.inner.blocks = chain.inner.blocks)
    (hwire : ∀ b ∈ chain.inner.blocks, chain'.wireBlockFrom b = chain.wireBlockFrom b)
    (hstate : chain'.ensureEpochValidatorsSeeded.inner.state =
      chain.ensureEpochValidatorsSeeded.inner.state) :
    Replays host validatorOverride genesis chain' := by
  obtain ⟨last, hreplay, htip⟩ := h
  refine ⟨last, ?_, htip.trans (SameTip.of_blocks hblocks hstate)⟩
  rw [hblocks, servedBelow_eq hblocks hwire]
  exact hreplay

-- Chains with the same blocks up to a height are cut there alike.
theorem Replays.of_cut {height : Nat} {s : MemState}
    (h : Replays host validatorOverride genesis (chain.cut height s))
    (hblocks : chain'.inner.blocks.take (height + 1) = chain.inner.blocks.take (height + 1))
    (hwire : ∀ b ∈ chain.inner.blocks, chain'.wireBlockFrom b = chain.wireBlockFrom b) :
    Replays host validatorOverride genesis (chain'.cut height s) := by
  have hhead : (chain'.cut height s).head = (chain.cut height s).head := head_of_blocks hblocks
  refine h.of_same hblocks (fun b hb => hwire b (List.mem_of_mem_take hb)) ?_
  show seedEpochValidators (chain'.cut height s).head.number s =
    seedEpochValidators (chain.cut height s).head.number s
  rw [hhead]

-- Where the chain is cut at its head, it is the chain with another state.
theorem Replays.cut_head (h : Replays host validatorOverride genesis chain) {height : Nat}
    {s : MemState} (hheight : chain.inner.blocks.length ≤ height + 1)
    (hs : seedEpochValidators chain.head.number s =
      chain.ensureEpochValidatorsSeeded.inner.state) :
    Replays host validatorOverride genesis (chain.cut height s) := by
  have htaken : (chain.cut height s).inner.blocks = chain.inner.blocks :=
    List.take_of_length_le hheight
  refine h.of_same htaken (fun _ _ => rfl) ?_
  rw [← hs]
  show seedEpochValidators (chain.cut height s).head.number s = _
  rw [head_of_blocks htaken]

-- A block that was mined on a tip, dropping nothing that matters, and stands on a chain at
-- that tip, with the bytes of what was mined in the cache.
structure Extension (host : NodeHost) (raws : List Bytes) (chain p chain' : Chain)
    (timestamp : U64) (view : U32) (m : Mined) (b : Block) : Prop where
  tip : SameTip chain p
  drops : HarmlessDrops host p timestamp view
  mined : mineTxs host (p.inner.nextCtx host timestamp view) (p.head.number + 1) 0
    p.inner.mempool p.inner.start = some m
  block : ∃ key stamp, b = mineBlock host key p.head p.inner.mempool.length timestamp view stamp
    (mineSweeps host (p.inner.nextCtx host timestamp view) (p.head.number + 1) m)
  blocks : chain'.inner.blocks = chain.inner.blocks ++ [b]
  state : chain'.inner.state = runSweeps host.toHost (p.inner.nextCtx host timestamp view) m.state
  keyed : Keyed host raws chain'.inner.rawTx
  cached : ∀ q ∈ p.inner.mempool, Cached host chain'.inner.rawTx q

namespace Extension

variable {timestamp : U64} {view : U32} {m : Mined}

theorem number (h : Extension host raws chain p chain' timestamp view m b) :
    b.number = chain.head.number + 1 := by
  obtain ⟨key, stamp, hb⟩ := h.block
  rw [← h.tip.number, hb]
  rfl

theorem hashed (h : Extension host raws chain p chain' timestamp view m b) : b.Hashed host := by
  obtain ⟨key, stamp, rfl⟩ := h.block
  rfl

theorem head (h : Extension host raws chain p chain' timestamp view m b) : chain'.head = b :=
  head_of_append h.blocks

theorem kept (h : Extension host raws chain p chain' timestamp view m b) :
    ∀ q ∈ p.mined host timestamp view, Cached host chain'.inner.rawTx q :=
  fun q hq => h.cached q (mem_survivors hq)

-- The block stores what was mined, and what the system adds.
theorem hashes (h : Extension host raws chain p chain' timestamp view m b) :
    ∃ sweep : List Hash,
      (∀ hash ∈ sweep, hash = sweepHash host (p.inner.nextCtx host timestamp view)) ∧
      b.txs.map StoredTx.hash = (p.mined host timestamp view).map PendingTx.hash ++ sweep := by
  obtain ⟨key, stamp, rfl⟩ := h.block
  have hstored : m.stored.map StoredTx.hash =
      (p.mined host timestamp view).map PendingTx.hash := mineTxs_stored h.mined
  obtain ⟨sweep, hsweep, hall⟩ := stored_hashes host (p.inner.nextCtx host timestamp view)
    (p.head.number + 1) hstored
  exact ⟨sweep, hsweep, by rw [mineBlock_txs_hash, hall]⟩

theorem known (h : Extension host raws chain p chain' timestamp view m b) :
    ∀ tx ∈ b.txs, Known host chain'.inner.rawTx tx.hash := by
  obtain ⟨sweep, hsweep, hall⟩ := h.hashes
  intro tx htx
  have hmem : tx.hash ∈ (p.mined host timestamp view).map PendingTx.hash ++ sweep :=
    hall ▸ List.mem_map_of_mem htx
  rcases List.mem_append.mp hmem with hmem | hmem
  · obtain ⟨q, hq, hhash⟩ := List.mem_map.mp hmem
    exact hhash ▸ (h.kept q hq).known
  · exact Or.inr ⟨_, hsweep _ hmem⟩

theorem rawTxs (hbinds : Binds host raws)
    (h : Extension host raws chain p chain' timestamp view m b) :
    (chain'.wireBlockFrom b).rawTxs =
      rawsOf chain'.inner.rawTx ((p.mined host timestamp view).map PendingTx.hash) := by
  obtain ⟨sweep, hsweep, hall⟩ := h.hashes
  rw [Chain.wireBlockFrom, rawTxsForBlock_eq, hall]
  exact rawsOf_append fun hash hmem => h.keyed.get_sweep hbinds (hsweep hash hmem)

-- The bytes the block is served with are those that its root commits to.
theorem root (hbinds : Binds host raws)
    (h : Extension host raws chain p chain' timestamp view m b) :
    Network.recomputeTxsRoot host (chain'.wireBlockFrom b) = b.txsRoot := by
  obtain ⟨key, stamp, hb⟩ := h.block
  obtain ⟨_, _, _, _, _, hcommitted⟩ := follower_mines (SameTip.refl p) h.drops h.mined hb
  rw [Network.recomputeTxsRoot, h.rawTxs hbinds, keccak_rawsOf h.keyed h.kept, hcommitted]

-- Serving the chain leads to its new tip, if the header passes the checks at the old one.
theorem replays (hbinds : Binds host raws)
    (h : Extension host raws chain p chain' timestamp view m b)
    (hreplays : Replays host validatorOverride genesis chain)
    (hwire : ∀ b ∈ chain.inner.blocks, chain'.wireBlockFrom b = chain.wireBlockFrom b)
    (hheader : headerError host chain.head chain.ensureEpochValidatorsSeeded.inner.state
      validatorOverride (chain'.wireBlockFrom b) = none) :
    Replays host validatorOverride genesis chain' := by
  obtain ⟨key, stamp, hb⟩ := h.block
  obtain ⟨last, hreplay, htip⟩ := hreplays
  have hdecode : (chain'.wireBlockFrom b).rawTxs.mapM host.decodePendingTx =
      some (p.mined host timestamp view) := by
    rw [h.rawTxs hbinds]
    exact decode_rawsOf h.kept
  obtain ⟨b', f', hvalidate, hstate⟩ := applies_of_mined (h.tip.symm.trans htip.symm) h.drops
    h.mined hb (w := chain'.wireBlockFrom b) rfl ((htip.symm.headerError _).trans hheader) hdecode
  have happlied := validateAndApplyBlock_ok hvalidate
  have hhead : f'.head = b' := head_of_append happlied.blocks
  have hnumber : chain'.head.number = f'.head.number := by
    rw [h.head, hhead, happlied.header]
    rfl
  refine ⟨f', ?_, hnumber, ?_, ?_, ?_⟩
  · rw [servedBelow_append h.blocks hwire, replay_append, hreplay, Option.bind_some, Chain.replay,
      hvalidate]
    rfl
  · rw [h.head, hhead, happlied.header]
    exact h.hashed
  · rw [h.head, hhead, happlied.header]
    rfl
  · show seedEpochValidators chain'.head.number chain'.inner.state = _
    rw [hnumber, h.state, ← hstate]
    rfl

end Extension

end

end Ubi2.Rpc
