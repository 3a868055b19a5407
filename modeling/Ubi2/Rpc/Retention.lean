import Ubi2.Rpc.Capacity
import Ubi2.Rpc.IndexRuns

namespace Ubi2.Rpc

open Ubi2.Runtime Ubi2.Lib Ubi2.Lib.Encode Ubi2.Exec

-- The states that a branch leads through, one after each of its blocks.
def branchStates (host : NodeHost) (validatorOverride : Option Address) :
    Chain → List ForkBlockEntry → List MemState
  | _, [] => []
  | chain, fb :: branch =>
    match chain.validateAndApplyBlock host fb.toWireBlock validatorOverride with
    | some (.ok _, chain') =>
      chain'.inner.state ::
        branchStates host validatorOverride (chain'.cacheRawTxs host fb.rawTxs) branch
    | _ => []

-- A transaction waits in the mempool, or a side block carries its bytes.
def Retained (host : NodeHost) (chain : Chain) (hash : Hash) : Prop :=
  (∃ p ∈ chain.inner.mempool, p.hash = hash) ∨
    ∃ e ∈ chain.forkStore.rows, ∃ raw ∈ e.rawTxs, ∃ p, host.decodePendingTx raw = some p ∧ p.hash = hash

section
variable {host : NodeHost} {validatorOverride : Option Address} {chain chain' : Chain}

theorem mem_pruneMempool {g : Inner} {produced : Block} {p : PendingTx} :
    p ∈ pruneMempool g produced ↔
      p ∈ g.mempool ∧ p.hash ∉ produced.txs.map StoredTx.hash ∧
        ¬ p.nonce < (g.state.account p.from_).nonce := by
  rw [pruneMempool, List.mem_filter, decide_eq_true_iff, not_or]

-- A block that is applied leaves in the mempool what it neither mines nor makes stale.
theorem pool_validateAndApplyBlock {b : WireBlock} {produced : Block} {p : PendingTx}
    (h : chain.validateAndApplyBlock host b validatorOverride = some (.ok produced, chain')) :
    p ∈ chain'.inner.mempool ↔
      p ∈ chain.inner.mempool ∧ p.hash ∉ produced.txs.map StoredTx.hash ∧
        ¬ p.nonce < (chain'.inner.state.account p.from_).nonce := by
  rcases validateAndApplyBlock_cases h with ⟨_, hr, -⟩ | ⟨_, m, produced', hr, -, -, -, -, -, rfl⟩
  · cases hr
  · cases hr
    exact mem_pruneMempool

-- And so does a branch, block after block.
theorem pool_applyBranch {branch : List ForkBlockEntry}
    (h : chain.applyBranch host validatorOverride branch = some (.ok (), chain')) :
    ∃ won, chain'.inner.blocks = chain.inner.blocks ++ won ∧
      ∀ p, p ∈ chain'.inner.mempool ↔
        p ∈ chain.inner.mempool ∧ p.hash ∉ (won.flatMap Block.txs).map StoredTx.hash ∧
          ∀ s ∈ branchStates host validatorOverride chain branch,
            ¬ p.nonce < (s.account p.from_).nonce := by
  induction branch generalizing chain with
  | nil =>
    cases h
    exact ⟨[], (List.append_nil _).symm, by simp [branchStates]⟩
  | cons fb branch ih =>
    obtain ⟨produced, chain₁, hfb, hrest⟩ := applyBranch_cons_ok.mp h
    rw [branchStates]
    obtain ⟨won, hblocks, hpool⟩ := ih hrest
    have hfirst : chain₁.inner.blocks = chain.inner.blocks ++ [produced] :=
      (validateAndApplyBlock_ok hfb).blocks
    refine ⟨produced :: won, ?_, ?_⟩
    · rw [hblocks]
      show chain₁.inner.blocks ++ won = _
      rw [hfirst, List.append_assoc, List.singleton_append]
    · intro p
      have hcached : p ∈ (chain₁.cacheRawTxs host fb.rawTxs).inner.mempool ↔
          p ∈ chain₁.inner.mempool := Iff.rfl
      rw [hpool, hcached, pool_validateAndApplyBlock hfb, hfb, List.flatMap_cons, List.map_append,
        List.mem_append, List.forall_mem_cons, not_or]
      constructor
      · rintro ⟨⟨hp, hmined, hstale⟩, hrest, hstales⟩
        exact ⟨hp, ⟨hmined, hrest⟩, hstale, hstales⟩
      · rintro ⟨hp, ⟨hmined, hrest⟩, hstale, hstales⟩
        exact ⟨⟨hp, hmined, hstale⟩, hrest, hstales⟩

-- The side store keeps the displaced blocks that are not finalized.
theorem get_reorgStore {branch displaced : List ForkBlockEntry} {d : ForkBlockEntry}
    (hdistinct : (displaced.map ForkBlockEntry.hash).Nodup) (hd : d ∈ displaced)
    (hopen : chain.finalizedHeight < d.number) :
    (chain.reorgStore branch displaced).get d.hash = some d := by
  have hkept : d ∈ displaced.filter fun d => chain.finalizedHeight < d.number :=
    List.mem_filter.mpr ⟨hd, decide_eq_true hopen⟩
  have hnodup := hdistinct.sublist
    ((List.filter_sublist (p := fun d => decide (chain.finalizedHeight < d.number))).map
      ForkBlockEntry.hash)
  have hput := (Table.get_foldl_put_of_nodup hnodup
    (t := branch.foldl (fun store fb => store.erase fb.hash) chain.forkStore)).mpr
      (Or.inl ⟨hkept, rfl⟩)
  rw [List.foldl_filter] at hput
  simp only [decide_eq_true_iff] at hput
  rw [Chain.reorgStore, Table.get_filter, hput]
  exact Option.filter_some_pos (decide_eq_true hopen)

theorem displacedEntry_hash (g : Inner) (l : List Block) :
    (l.map (displacedEntry g)).map ForkBlockEntry.hash = l.map Block.hash := by
  rw [List.map_map]
  rfl

-- After a reorg the side store has the bytes of the displaced transactions that were cached,
-- down to the finalized height, and the mempool has what the branch neither mined nor, at any of
-- its blocks, made stale.
theorem reorg_keeps_txs {branch : List ForkBlockEntry} {caHeight : Nat} {tip : Block}
    (hreorg : chain.executeReorg host branch caHeight validatorOverride =
      some (.ok (some tip), chain'))
    (hdistinct : ((chain.inner.blocks.drop (caHeight + 1)).map Block.hash).Nodup) :
    ∃ won start, chain.recentStates.get caHeight = some (caHeight, start) ∧
      chain'.inner.blocks = chain.inner.blocks.take (caHeight + 1) ++ won ∧
      (∀ b ∈ chain.inner.blocks.drop (caHeight + 1), chain'.finalizedHeight < b.number →
        ∀ tx ∈ b.txs, ∀ p, Cached host chain.inner.rawTx p → p.hash = tx.hash →
          Retained host chain' tx.hash) ∧
      ∀ p ∈ chain.inner.mempool, p.hash ∉ (won.flatMap Block.txs).map StoredTx.hash →
        (∀ s ∈ branchStates host validatorOverride (chain.cut caHeight start) branch,
          ¬ p.nonce < (s.account p.from_).nonce) →
        p ∈ chain'.inner.mempool := by
  rcases executeReorg_cases hreorg with ⟨hr, -⟩ |
    ⟨start, hstart, ⟨_, _, hr, -, -⟩ | ⟨applied, -, hbranch, rfl⟩⟩
  · cases hr
  · cases hr
  · obtain ⟨won, hblocks, hpool⟩ := pool_applyBranch hbranch
    refine ⟨won, start, hstart, hblocks, ?_, ?_⟩
    · rintro b hb hopen tx htx p ⟨raw, hraw, hdecode⟩ hhash
      have hstored := @get_reorgStore applied branch _ _
        (by rw [displacedEntry_hash]; exact hdistinct)
        (List.mem_map_of_mem (f := displacedEntry chain.inner) hb) hopen
      refine Or.inr ⟨_, Table.mem_of_get hstored, raw, ?_, p, hdecode, hhash⟩
      exact List.mem_filterMap.mpr ⟨tx, htx, by rw [← hhash, hraw]; rfl⟩
    · exact fun p hp hmined hstale => (hpool p).mpr ⟨hp, hmined, hstale⟩

end

-- A host of the tests whose payments carry a nonce and a value.
def nonceHost : NodeHost where
  toHost := servingHost.toHost
  decodePendingTx := fun raw =>
    match raw with
    | [payer, nonce, value] =>
      some { payment payer with
        hash := servingHost.keccak256 raw
        value := value.setWidth 128
        nonce := nonce.setWidth 64
        kind := .Transfer 7#160 (value.setWidth 128) }
    | _ => none
  recoverProposer := devnetHost.recoverProposer

def genesisOf (host : NodeHost) : Chain :=
  Chain.genesis host (some (.devnet 1#160)) 0#64 streamingState

-- The blocks of the first view that a node mines of some lists of transactions.
def blocksOf (host : NodeHost) : List (List Bytes) → Chain → List WireBlock
  | [], _ => []
  | raws :: rest, chain =>
    (((chain.cacheRawTxs host raws).withPool (raws.filterMap host.decodePendingTx)).produceBlockAtView
      host (chain.head.timestamp + 10#64) 0#32).elim [] fun r =>
        r.2.wireBlockFrom r.1 :: blocksOf host rest r.2

def forkEntry (host : NodeHost) (b : WireBlock) : ForkBlockEntry := { b with hash := b.hash host }

theorem tip_of_isSome {r : Except BlockError (Option Block)} (h : r.toOption.join.isSome = true) :
    ∃ tip, r = .ok (some tip) := by
  rcases r with e | _ | tip
  · cases h
  · cases h
  · exact ⟨tip, rfl⟩

-- An empty block takes the place of a block with a payment, while the next payment waits.
theorem reorg_keeps_payments : ∃ chain branch tip chain',
    (genesisOf nonceHost).nodeRun nonceHost parseDecimalU256 (some 1#160)
      [.submit 10#64 [6#8, 0#8, 1#8], .produce 10#64 1#32, .submit 10#64 [6#8, 1#8, 1#8]] =
        some chain ∧
      chain.executeReorg nonceHost branch 0 (some 1#160) = some (.ok (some tip), chain') ∧
      Retained nonceHost chain' (nonceHost.keccak256 [6#8, 0#8, 1#8]) ∧
      ∃ p ∈ chain'.inner.mempool, p.hash = nonceHost.keccak256 [6#8, 1#8, 1#8] := by
  have hrun : (((genesisOf nonceHost).nodeRun nonceHost parseDecimalU256 (some 1#160)
      [.submit 10#64 [6#8, 0#8, 1#8], .produce 10#64 1#32, .submit 10#64 [6#8, 1#8, 1#8]]).bind
        fun chain => (chain.executeReorg nonceHost
          ((blocksOf nonceHost [[]] (genesisOf nonceHost)).map (forkEntry nonceHost)) 0
          (some 1#160)).bind fun r => (chain.recentStates.get 0).map fun start => decide
            ((r.1.toOption.join.isSome = true ∧ r.2.finalizedHeight = 0 ∧
              r.2.inner.canonicalTxs.isEmpty = true) ∧
            chain.inner.mempool.map (fun p => (p.hash, p.from_, p.nonce)) =
              [(nonceHost.keccak256 [6#8, 1#8, 1#8], 6#160, 1#64)] ∧
            (chain.inner.blocks.drop 1).map (fun b => (b.number, b.txs.map StoredTx.hash)) =
              [(1, [nonceHost.keccak256 [6#8, 0#8, 1#8]])] ∧
            chain.inner.rawTx.get (nonceHost.keccak256 [6#8, 0#8, 1#8]) =
              some (nonceHost.keccak256 [6#8, 0#8, 1#8], [6#8, 0#8, 1#8]) ∧
            (branchStates nonceHost (some 1#160) (chain.cut 0 start.2)
              ((blocksOf nonceHost [[]] (genesisOf nonceHost)).map (forkEntry nonceHost))).map
                (fun s => (s.account 6#160).nonce) = [0#64])) = some true := by
    decide +kernel
  obtain ⟨chain, hchain, hrun⟩ := Option.bind_eq_some_iff.mp hrun
  obtain ⟨⟨r, chain'⟩, hreorg, hrun⟩ := Option.bind_eq_some_iff.mp hrun
  obtain ⟨⟨height, start⟩, hstart, hrun⟩ := Option.map_eq_some_iff.mp hrun
  obtain ⟨⟨htip, hfinal, hnone⟩, hpool, hblocks, hraw, hnonces⟩ := of_decide_eq_true hrun
  obtain ⟨tip, rfl⟩ := tip_of_isSome htip
  have hdistinct : ((chain.inner.blocks.drop (0 + 1)).map Block.hash).Nodup := by
    have hlength := congrArg List.length hblocks
    rw [List.length_map] at hlength
    obtain ⟨b, hb⟩ := List.length_eq_one_iff.mp hlength
    rw [Nat.zero_add, hb]
    exact List.nodup_singleton _
  obtain ⟨won, start', hstart', hwon, hretained, hkept⟩ := reorg_keeps_txs hreorg hdistinct
  obtain rfl : start' = start := by
    rw [hstart] at hstart'
    exact (Prod.mk.inj (Option.some.inj hstart')).2.symm
  refine ⟨chain, _, tip, chain', hchain, hreorg, ?_, ?_⟩
  · obtain ⟨b, hb, hnumber⟩ := List.map_eq_singleton_iff.mp hblocks
    obtain ⟨hnumber, htxs⟩ := Prod.mk.inj hnumber
    obtain ⟨tx, htx, hhash⟩ := List.map_eq_singleton_iff.mp htxs
    obtain ⟨q, hdecode, hq⟩ : ∃ q, nonceHost.decodePendingTx [6#8, 0#8, 1#8] = some q ∧
        q.hash = nonceHost.keccak256 [6#8, 0#8, 1#8] := ⟨_, rfl, rfl⟩
    have hcached : Cached nonceHost chain.inner.rawTx q := ⟨_, hq ▸ hraw, hdecode⟩
    have hfinal : chain'.finalizedHeight = 0 := hfinal
    rw [← hhash]
    exact hretained b (hb ▸ List.mem_singleton_self b) (by omega) tx
      (htx ▸ List.mem_singleton_self tx) q hcached (hq.trans hhash.symm)
  · obtain ⟨p, hp, hfields⟩ := List.map_eq_singleton_iff.mp hpool
    obtain ⟨hhash, hfrom, hnonce⟩ : p.hash = _ ∧ p.from_ = _ ∧ p.nonce = _ := by
      simpa only [Prod.mk.injEq] using hfields
    refine ⟨p, hkept p (hp ▸ List.mem_singleton_self p) ?_ ?_, hhash⟩
    · intro hmined
      have hcanonical : chain'.inner.canonicalTxs = [] := List.isEmpty_iff.mp hnone
      rw [Inner.canonicalTxs, hwon, List.flatMap_append] at hcanonical
      rw [(List.append_eq_nil_iff.mp hcanonical).2] at hmined
      cases hmined
    · intro s hs
      have hmem := List.mem_map_of_mem (f := fun s : MemState => (s.account 6#160).nonce) hs
      rw [hnonces] at hmem
      rw [hfrom, hnonce, List.mem_singleton.mp hmem]
      decide

-- Seven empty blocks take the place of the block of the payment in one reorg, and finalize its
-- height. The payment would be admitted again, but the node has nothing left of it.
theorem deep_reorg_loses_payment : ∃ steps chain rival tip chain' tx,
    payingGenesis.nodeRun servingHost parseDecimalU256 (some 1#160) steps = some chain ∧
      chain.considerCompetingBlock servingHost rival (some 1#160) =
        some (.ok (some tip), chain') ∧
      tx ∈ chain.inner.canonicalTxs ∧ tx.hash = (payment 6#8).hash ∧
      tx.hash ∉ chain'.inner.canonicalTxs.map StoredTx.hash ∧
      submitGate chain'.inner 80#64 (payment 6#8) = none ∧
      ¬ Retained servingHost chain' tx.hash := by
  have hrun : ((payingGenesis.nodeRun servingHost parseDecimalU256 (some 1#160)
      (paymentSteps ++ ((blocksOf servingHost (List.replicate 7 []) payingGenesis).drop
        1).reverse.map NodeStep.consider)).bind fun chain =>
          (blocksOf servingHost (List.replicate 7 []) payingGenesis).head?.bind fun rival =>
            (chain.considerCompetingBlock servingHost rival (some 1#160)).map fun r => decide
              (r.1.toOption.join.isSome = true ∧
              chain.inner.canonicalTxs.map StoredTx.hash = [(payment 6#8).hash] ∧
              r.2.inner.canonicalTxs.isEmpty = true ∧ r.2.inner.mempool.isEmpty = true ∧
              r.2.forkStore.rows = [] ∧
              submitGate r.2.inner 80#64 (payment 6#8) = none)) = some true := by
    decide +kernel
  obtain ⟨chain, hchain, hrun⟩ := Option.bind_eq_some_iff.mp hrun
  obtain ⟨rival, -, hrun⟩ := Option.bind_eq_some_iff.mp hrun
  obtain ⟨⟨r, chain'⟩, hconsider, hrun⟩ := Option.map_eq_some_iff.mp hrun
  obtain ⟨htip, hmined, hnone, hpool, hstore, hgate⟩ := of_decide_eq_true hrun
  obtain ⟨tip, rfl⟩ := tip_of_isSome htip
  obtain ⟨tx, htx, hhash⟩ := List.map_eq_singleton_iff.mp hmined
  refine ⟨_, chain, rival, tip, chain', tx, hchain, hconsider, htx ▸ List.mem_singleton_self tx,
    hhash, ?_, hgate, ?_⟩
  · rw [List.isEmpty_iff.mp hnone]
    exact List.not_mem_nil
  · rintro (⟨p, hp, -⟩ | ⟨e, he, -⟩)
    · rw [List.isEmpty_iff.mp hpool] at hp
      cases hp
    · have he : e ∈ chain'.forkStore.rows := he
      rw [hstore] at he
      cases he

-- The bytes of a block are cached under their own hash, which is not that of a transaction with
-- trailing bytes: the side block of such a one is empty.
theorem padded_reorg_loses_payment : ∃ padded rival chain tip chain' tx,
    (genesisOf paddingHost).nodeRun paddingHost parseDecimalU256 (some 1#160) [.apply padded] =
      some chain ∧
      chain.considerCompetingBlock paddingHost rival (some 1#160) = some (.ok (some tip), chain') ∧
      chain'.finalizedHeight = 0 ∧ tx ∈ chain.inner.canonicalTxs ∧ tx.hash = (payment 6#8).hash ∧
      tx.hash ∉ chain'.inner.canonicalTxs.map StoredTx.hash ∧
      submitGate chain'.inner 20#64 (payment 6#8) = none ∧
      ¬ Retained paddingHost chain' tx.hash := by
  have hrun : (((((genesisOf paddingHost).ingestRawTx paddingHost 10#64 [6#8, 0#8]).2.produceBlockAtView
      paddingHost 10#64 1#32).map fun r => r.2.wireBlockFrom r.1).bind fun padded =>
        ((genesisOf paddingHost).nodeRun paddingHost parseDecimalU256 (some 1#160)
          [.apply padded]).bind fun chain =>
            (blocksOf paddingHost [[]] (genesisOf paddingHost)).head?.bind fun rival =>
              (chain.considerCompetingBlock paddingHost rival (some 1#160)).map fun r => decide
                (r.1.toOption.join.isSome = true ∧ r.2.finalizedHeight = 0 ∧
                chain.inner.canonicalTxs.map StoredTx.hash = [(payment 6#8).hash] ∧
                r.2.inner.canonicalTxs.isEmpty = true ∧ r.2.inner.mempool.isEmpty = true ∧
                r.2.forkStore.rows.all (fun e => e.rawTxs = []) = true ∧
                submitGate r.2.inner 20#64 (payment 6#8) = none)) = some true := by
    decide +kernel
  obtain ⟨padded, -, hrun⟩ := Option.bind_eq_some_iff.mp hrun
  obtain ⟨chain, hchain, hrun⟩ := Option.bind_eq_some_iff.mp hrun
  obtain ⟨rival, -, hrun⟩ := Option.bind_eq_some_iff.mp hrun
  obtain ⟨⟨r, chain'⟩, hconsider, hrun⟩ := Option.map_eq_some_iff.mp hrun
  obtain ⟨htip, hfinal, hmined, hnone, hpool, hstore, hgate⟩ := of_decide_eq_true hrun
  obtain ⟨tip, rfl⟩ := tip_of_isSome htip
  obtain ⟨tx, htx, hhash⟩ := List.map_eq_singleton_iff.mp hmined
  refine ⟨padded, rival, chain, tip, chain', tx, hchain, hconsider, hfinal,
    htx ▸ List.mem_singleton_self tx, hhash, ?_, hgate, ?_⟩
  · rw [List.isEmpty_iff.mp hnone]
    exact List.not_mem_nil
  · rintro (⟨p, hp, -⟩ | ⟨e, he, raw, hraw, -⟩)
    · rw [List.isEmpty_iff.mp hpool] at hp
      cases hp
    · have hempty := List.all_eq_true.mp hstore e he
      rw [of_decide_eq_true hempty] at hraw
      cases hraw

-- A branch takes the payer to nonce 2 and, by a stale payment, back to 1. The payment of nonce 1
-- that waited is current again, but was dropped in between.
theorem falling_nonce_unqueues_payment : ∃ steps chain rival tip chain',
    (genesisOf nonceHost).nodeRun nonceHost parseDecimalU256 (some 1#160) steps = some chain ∧
      chain.considerCompetingBlock nonceHost rival (some 1#160) = some (.ok (some tip), chain') ∧
      ∃ p ∈ chain.inner.mempool, p.hash ∉ chain'.inner.canonicalTxs.map StoredTx.hash ∧
        ¬ p.nonce < (chain'.inner.state.account p.from_).nonce ∧
        submitGate chain'.inner 30#64 p = none ∧ p ∉ chain'.inner.mempool := by
  have hrun : (((genesisOf nonceHost).nodeRun nonceHost parseDecimalU256 (some 1#160)
      ([.produce 10#64 1#32, .submit 15#64 [6#8, 0#8, 1#8], .submit 15#64 [6#8, 1#8, 1#8]] ++
        ((blocksOf nonceHost [[[6#8, 0#8, 1#8], [6#8, 1#8, 2#8]], [[6#8, 0#8, 3#8]]]
          (genesisOf nonceHost)).drop 1).map NodeStep.consider)).bind fun chain =>
            (blocksOf nonceHost [[[6#8, 0#8, 1#8], [6#8, 1#8, 2#8]], [[6#8, 0#8, 3#8]]]
              (genesisOf nonceHost)).head?.bind fun rival =>
                (chain.considerCompetingBlock nonceHost rival (some 1#160)).map fun r =>
                  r.1.toOption.join.isSome && r.2.inner.mempool.isEmpty &&
                    chain.inner.mempool.any fun p => decide
                      (p.hash ∉ r.2.inner.canonicalTxs.map StoredTx.hash ∧
                        ¬ p.nonce < (r.2.inner.state.account p.from_).nonce ∧
                        submitGate r.2.inner 30#64 p = none)) = some true := by
    decide +kernel
  obtain ⟨chain, hchain, hrun⟩ := Option.bind_eq_some_iff.mp hrun
  obtain ⟨rival, -, hrun⟩ := Option.bind_eq_some_iff.mp hrun
  obtain ⟨⟨r, chain'⟩, hconsider, hrun⟩ := Option.map_eq_some_iff.mp hrun
  simp only [Bool.and_eq_true] at hrun
  obtain ⟨⟨htip, hempty⟩, hlost⟩ := hrun
  obtain ⟨tip, rfl⟩ := tip_of_isSome htip
  obtain ⟨p, hp, hcurrent⟩ := List.any_eq_true.mp hlost
  obtain ⟨hmined, hnonce, hgate⟩ := of_decide_eq_true hcurrent
  refine ⟨_, chain, rival, tip, chain', hchain, hconsider, p, hp, hmined, hnonce, hgate, ?_⟩
  rw [List.isEmpty_iff.mp hempty]
  exact List.not_mem_nil

end Ubi2.Rpc
