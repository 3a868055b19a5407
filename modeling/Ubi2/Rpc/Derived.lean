import Ubi2.Rpc.Activity

namespace Ubi2.Rpc

open Ubi2.Runtime Ubi2.Lib Ubi2.Lib.Encode Ubi2.Exec

-- The canonical transactions, in chain order.
def Inner.canonicalTxs (g : Inner) : List StoredTx := g.blocks.flatMap Block.txs

-- A transaction touches the addresses its record names, and those that the effect it committed
-- reached when it ran.
def Touches (log : List Execution) (tx : StoredTx) (a : Address) : Prop :=
  a ∈ affectedAddresses tx ∨ ∃ e ∈ log, e.hash = tx.hash ∧ a ∈ e.effects

instance (log : List Execution) (tx : StoredTx) (a : Address) : Decidable (Touches log tx a) :=
  inferInstanceAs (Decidable (_ ∨ _))

-- The indexes are those of the canonical blocks, whose transactions were run as the log says.
structure Derived (log : List Execution) (g : Inner) : Prop where
  positions : ∀ hash i, g.blocksByHash.get hash = some (hash, i) ↔
    ∃ b, g.blocks[i]? = some b ∧ b.hash = hash
  txs : ∀ hash tx, g.txs.get hash = some tx ↔ tx ∈ g.canonicalTxs ∧ tx.hash = hash
  placed : ∀ b ∈ g.blocks, ∀ i (tx : StoredTx), b.txs[i]? = some tx →
    tx.blockHash = b.hash ∧ tx.txIndex = i
  activity : ∀ a, g.addrIndex.activity a =
    (g.canonicalTxs.filter (Touches log · a)).map StoredTx.hash
  once : ∀ a, (g.addrIndex.activity a).Nodup

-- What keeps the indexes so: no transaction is canonical twice, and no other one is logged.
structure Indexed (log : List Execution) (g : Inner) : Prop extends Derived log g where
  distinct : (g.canonicalTxs.map StoredTx.hash).Nodup
  logged : ∀ e ∈ log, e.hash ∈ g.canonicalTxs.map StoredTx.hash

-- The transactions of the next block that are charged.
def minedExecutions (host : NodeHost) (g : Inner) (pending : List PendingTx) (timestamp : U64)
    (view : U32) : List Execution :=
  executions host (g.nextCtx host timestamp view) 0 pending g.start.state

-- The hashes the next block may store: those of its charged transactions and, last, that of
-- the system's.
def minedHashes (host : NodeHost) (g : Inner) (pending : List PendingTx) (timestamp : U64)
    (view : U32) : List Hash :=
  (minedExecutions host g pending timestamp view).map Execution.hash ++
    [sweepHash host (g.nextCtx host timestamp view)]

-- The next block charges no transaction twice and none that is canonical, and what it drops
-- stands behind what it charges.
structure FreshTxs (host : NodeHost) (g : Inner) (pending : List PendingTx) (timestamp : U64)
    (view : U32) : Prop where
  distinct : (minedHashes host g pending timestamp view).Nodup
  unmined : ∀ tx ∈ g.canonicalTxs, tx.hash ∉ minedHashes host g pending timestamp view
  inPlace : (minedExecutions host g pending timestamp view).map Execution.index =
    List.range (minedExecutions host g pending timestamp view).length

section
variable {host : NodeHost} {log : List Execution} {g g' : Inner} {m : Mined} {b : Block}
variable {pending : List PendingTx} {timestamp : U64} {view : U32}

-- The four structures are all that is read.
theorem Indexed.of_same (h : Indexed log g) (hblocks : g'.blocks = g.blocks)
    (hpositions : g'.blocksByHash = g.blocksByHash) (htxs : g'.txs = g.txs)
    (haddr : g'.addrIndex = g.addrIndex) : Indexed log g' := by
  have hcanonical : g'.canonicalTxs = g.canonicalTxs := by
    rw [Inner.canonicalTxs, hblocks, Inner.canonicalTxs]
  refine ⟨⟨?_, ?_, hblocks ▸ h.placed, ?_, haddr ▸ h.once⟩, hcanonical ▸ h.distinct,
    hcanonical ▸ h.logged⟩
  · rw [hpositions, hblocks]
    exact h.positions
  · rw [htxs, hcanonical]
    exact h.txs
  · rw [haddr, hcanonical]
    exact h.activity

-- No two canonical blocks have one hash.
theorem Derived.inj (h : Derived log g) {i j : Nat} {b b' : Block} (hb : g.blocks[i]? = some b)
    (hb' : g.blocks[j]? = some b') (hhash : b.hash = b'.hash) : i = j := by
  have hi := (h.positions b.hash i).mpr ⟨b, hb, rfl⟩
  have hj := (h.positions b.hash j).mpr ⟨b', hb', hhash.symm⟩
  rw [hi] at hj
  exact congrArg Prod.snd (Option.some.inj hj)

-- The rows that mining adds, the last of which may be that of the system.
theorem rows_of_mine (h : mine host g pending timestamp view = some m) :
    ∃ rows sweep, Ran g.start m rows ∧
      rows.map executionOf = minedExecutions host g pending timestamp view ++ sweep ∧
      (sweep = [] ∨ sweep = [⟨sweepHash host (g.nextCtx host timestamp view),
        (minedExecutions host g pending timestamp view).length, []⟩]) := by
  rw [mine, Option.map_eq_some_iff] at h
  obtain ⟨m₁, hm₁, rfl⟩ := h
  obtain ⟨rows, hran, hrows⟩ := ran_mineTxs hm₁
  have hrows : rows.map executionOf = minedExecutions host g pending timestamp view := hrows
  have hlength : m₁.stored.length = (minedExecutions host g pending timestamp view).length := by
    rw [hran.stored, List.length_append, List.length_map, ← hrows, List.length_map]
    exact Nat.zero_add _
  obtain ⟨sweep, hsweep, rfl | ⟨logs, rfl⟩⟩ :=
    ran_mineSweeps host (g.nextCtx host timestamp view) (g.head.number + 1) m₁
  · exact ⟨_, [], hran.trans hsweep, by rw [List.append_nil, List.append_nil, hrows], Or.inl rfl⟩
  · refine ⟨_, _, hran.trans hsweep, by rw [List.map_append, hrows], Or.inr ?_⟩
    rw [← hlength]
    rfl

-- What mining adds to a block whose transactions are fresh: rows of distinct new hashes, in
-- their places, that reach what the executions of the block say.
structure Rows (es : List Execution) (g : Inner) (m : Mined)
    (rows : List (StoredTx × List Address)) : Prop where
  ran : Ran g.start m rows
  distinct : (rows.map fun r => r.1.hash).Nodup
  unmined : ∀ r ∈ rows, r.1.hash ∉ g.canonicalTxs.map StoredTx.hash
  placed : rows.map (fun r => r.1.txIndex) = List.range rows.length
  reached : ∀ r ∈ rows, ∀ a, a ∈ r.2 ↔ ∃ e ∈ es, Execution.hash e = r.1.hash ∧ a ∈ e.effects
  logged : ∀ e ∈ es, Execution.hash e ∈ rows.map fun r => r.1.hash

theorem rows_of_fresh (h : mine host g pending timestamp view = some m)
    (hfresh : FreshTxs host g pending timestamp view) :
    ∃ rows, Rows (minedExecutions host g pending timestamp view) g m rows := by
  obtain ⟨rows, sweep, hran, hrows, hsweep⟩ := rows_of_mine h
  have hhashes : (rows.map fun r => r.1.hash) =
      (minedExecutions host g pending timestamp view ++ sweep).map Execution.hash := by
    rw [← hrows, List.map_map]
    rfl
  have hsub : (rows.map fun r => r.1.hash).Sublist (minedHashes host g pending timestamp view) := by
    rw [hhashes, List.map_append, minedHashes]
    rcases hsweep with rfl | rfl
    · exact List.Sublist.append_left (List.nil_sublist _) _
    · exact List.Sublist.refl _
  have hnodup := hfresh.distinct.sublist hsub
  refine ⟨rows, hran, hnodup, ?_, ?_, ?_, ?_⟩
  · intro r hr hmem
    obtain ⟨tx, htx, hhash⟩ := List.mem_map.mp hmem
    exact hfresh.unmined tx htx (hhash ▸ hsub.subset (List.mem_map_of_mem hr))
  · have hindexes : (rows.map fun r => r.1.txIndex) =
        (minedExecutions host g pending timestamp view ++ sweep).map Execution.index := by
      rw [← hrows, List.map_map]
      rfl
    have hlength := congrArg List.length hrows
    rw [List.length_map, List.length_append] at hlength
    rw [hindexes, List.map_append, hfresh.inPlace, hlength]
    rcases hsweep with rfl | rfl
    · simp
    · simp [List.range_succ]
  · intro r hr a
    have hmem : executionOf r ∈ minedExecutions host g pending timestamp view ++ sweep :=
      hrows ▸ List.mem_map_of_mem hr
    constructor
    · intro ha
      rcases List.mem_append.mp hmem with hmem | hmem
      · exact ⟨_, hmem, rfl, ha⟩
      · rcases hsweep with rfl | rfl
        · cases hmem
        · have heffects := congrArg Execution.effects (List.mem_singleton.mp hmem)
          have ha : a ∈ (executionOf r).effects := ha
          rw [heffects] at ha
          cases ha
    · rintro ⟨e, he, hhash, ha⟩
      have he : e ∈ rows.map executionOf := hrows ▸ List.mem_append_left _ he
      obtain ⟨r', hr', rfl⟩ := List.mem_map.mp he
      obtain rfl : r' = r := List.inj_on_of_nodup_map hnodup hr' hr hhash
      exact ha
  · intro e he
    rw [hhashes]
    exact List.mem_map_of_mem (List.mem_append_left _ he)

theorem touches_append {es : List Execution} {tx : StoredTx} {a : Address} :
    Touches (log ++ es) tx a ↔ Touches log tx a ∨ ∃ e ∈ es, e.hash = tx.hash ∧ a ∈ e.effects := by
  simp only [Touches, List.mem_append, or_assoc, or_and_right, exists_or]

-- The lists hold no transaction twice where none is canonical twice.
theorem indexed_of (hpositions : ∀ hash i, g.blocksByHash.get hash = some (hash, i) ↔
      ∃ b, g.blocks[i]? = some b ∧ b.hash = hash)
    (htxs : ∀ hash tx, g.txs.get hash = some tx ↔ tx ∈ g.canonicalTxs ∧ tx.hash = hash)
    (hplaced : ∀ b ∈ g.blocks, ∀ i (tx : StoredTx), b.txs[i]? = some tx →
      tx.blockHash = b.hash ∧ tx.txIndex = i)
    (hactivity : ∀ a, g.addrIndex.activity a =
      (g.canonicalTxs.filter (Touches log · a)).map StoredTx.hash)
    (hdistinct : (g.canonicalTxs.map StoredTx.hash).Nodup)
    (hlogged : ∀ e ∈ log, e.hash ∈ g.canonicalTxs.map StoredTx.hash) : Indexed log g := by
  refine ⟨⟨hpositions, htxs, hplaced, hactivity, ?_⟩, hdistinct, hlogged⟩
  intro a
  rw [hactivity]
  exact hdistinct.sublist (List.filter_sublist.map _)

section append
variable {es : List Execution} {rows : List (StoredTx × List Address)}

theorem canonicalTxs_append (g : Inner) (m : Mined) (b : Block) :
    (g.append m b).canonicalTxs = g.canonicalTxs ++ b.txs := by
  show (g.blocks ++ [b]).flatMap Block.txs = _
  rw [List.flatMap_append, List.flatMap_singleton]
  rfl

theorem positions_append (h : Indexed log g) (hnew : ∀ b' ∈ g.blocks, b'.hash ≠ b.hash)
    (hash : Hash) (i : Nat) :
    (g.append m b).blocksByHash.get hash = some (hash, i) ↔
      ∃ b', (g.append m b).blocks[i]? = some b' ∧ b'.hash = hash := by
  show (g.blocksByHash.put (b.hash, g.blocks.length)).get hash = _ ↔
    ∃ b', (g.blocks ++ [b])[i]? = some b' ∧ b'.hash = hash
  rw [Table.get_put]
  by_cases hb : b.hash = hash
  · subst hb
    rw [if_pos rfl, Option.some.injEq, Prod.mk.injEq]
    constructor
    · rintro ⟨-, rfl⟩
      exact ⟨b, by simp, rfl⟩
    · rintro ⟨b', hb', hhash⟩
      rw [List.getElem?_append] at hb'
      split at hb'
      · exact absurd hhash (hnew b' (List.mem_of_getElem? hb'))
      · obtain ⟨hlt, -⟩ := List.getElem?_eq_some_iff.mp hb'
        rw [List.length_singleton] at hlt
        exact ⟨rfl, by omega⟩
  · rw [if_neg hb, h.positions]
    constructor
    · rintro ⟨b', hb', hhash⟩
      obtain ⟨hlt, -⟩ := List.getElem?_eq_some_iff.mp hb'
      exact ⟨b', by rw [List.getElem?_append_left hlt, hb'], hhash⟩
    · rintro ⟨b', hb', hhash⟩
      rw [List.getElem?_append] at hb'
      split at hb'
      · exact ⟨b', hb', hhash⟩
      · rw [List.mem_singleton.mp (List.mem_of_getElem? hb')] at hhash
        exact absurd hhash hb

-- A new block keeps the indexes, and its executions are logged.
theorem Indexed.append (h : Indexed log g) (hrows : Rows es g m rows)
    (htxs : b.txs = rows.map fun r => { r.1 with blockHash := b.hash })
    (hnew : ∀ b' ∈ g.blocks, b'.hash ≠ b.hash) : Indexed (log ++ es) (g.append m b) := by
  have hhashes : b.txs.map StoredTx.hash = rows.map fun r => r.1.hash := by
    rw [htxs, List.map_map]
    rfl
  have hrow : (rows.map Prod.fst).map StoredTx.hash = rows.map fun r => r.1.hash := by
    rw [List.map_map]
    rfl
  have hfresh : ∀ tx ∈ g.canonicalTxs, tx.hash ∉ rows.map fun r => r.1.hash := by
    intro tx htx hmem
    obtain ⟨r, hr, hhash⟩ := List.mem_map.mp hmem
    exact hrows.unmined r hr (hhash ▸ List.mem_map_of_mem htx)
  refine indexed_of (positions_append h hnew) ?_ ?_ ?_ ?_ ?_
  · intro hash tx
    show (b.txs.foldl Table.put m.txs).get hash = some tx ↔ _
    rw [canonicalTxs_append, List.mem_append,
      Table.get_foldl_put_of_nodup (hhashes ▸ hrows.distinct), hhashes, hrows.ran.txs,
      Table.get_foldl_put_of_nodup (hrow ▸ hrows.distinct), hrow]
    have hold : g.start.txs.get hash = some tx ↔ tx ∈ g.canonicalTxs ∧ tx.hash = hash := h.txs hash tx
    rw [hold]
    constructor
    · rintro (⟨hmem, hhash⟩ | ⟨hnot, ⟨hmem, hhash⟩ | ⟨-, hmem, hhash⟩⟩)
      · exact ⟨Or.inr hmem, hhash⟩
      · exact absurd (hhash ▸ hrow ▸ List.mem_map_of_mem hmem) hnot
      · exact ⟨Or.inl hmem, hhash⟩
    · rintro ⟨hmem | hmem, hhash⟩
      · have hnot := hhash ▸ hfresh tx hmem
        exact Or.inr ⟨hnot, Or.inr ⟨hnot, hmem, hhash⟩⟩
      · exact Or.inl ⟨hmem, hhash⟩
  · intro b' hb' i tx htx
    have hb' : b' ∈ g.blocks ++ [b] := hb'
    rcases List.mem_append.mp hb' with hb' | hb'
    · exact h.placed b' hb' i tx htx
    · rw [List.mem_singleton.mp hb'] at htx ⊢
      rw [htxs, List.getElem?_map, Option.map_eq_some_iff] at htx
      obtain ⟨r, hr, rfl⟩ := htx
      refine ⟨rfl, ?_⟩
      have hindex := congrArg (·[i]?) hrows.placed
      simp only [List.getElem?_map, hr, Option.map_some] at hindex
      obtain ⟨hlt, hget⟩ := List.getElem?_eq_some_iff.mp hindex.symm
      rw [List.getElem_range] at hget
      exact hget.symm
  · intro a
    have hold : (g.canonicalTxs.filter (Touches (log ++ es) · a)) =
        g.canonicalTxs.filter (Touches log · a) := by
      refine List.filter_congr fun tx htx => decide_eq_decide.mpr ?_
      rw [touches_append, or_iff_left]
      rintro ⟨e, he, hhash, -⟩
      exact hfresh tx htx (hhash ▸ hrows.logged e he)
    have hreach : ∀ r ∈ rows, ((fun tx => decide (Touches (log ++ es) tx a)) ∘
        fun r : StoredTx × List Address => { r.1 with blockHash := b.hash }) r =
          decide (Reaches r a) := by
      intro r hr
      refine decide_eq_decide.mpr ?_
      rw [touches_append, Reaches, hrows.reached r hr a]
      refine or_congr_left ?_
      constructor
      · rintro (ha | ⟨e, he, hhash, -⟩)
        · exact ha
        · exact absurd (hhash ▸ h.logged e he) (hrows.unmined r hr)
      · exact Or.inl
    show m.addrIndex.activity a = _
    have hactivity : g.start.addrIndex.activity a =
        (g.canonicalTxs.filter (Touches log · a)).map StoredTx.hash := h.activity a
    rw [hrows.ran.addrIndex, activity_foldl_indexRow hrows.distinct, hactivity,
      canonicalTxs_append, List.filter_append, List.map_append, hold, htxs, List.filter_map,
      List.filter_congr hreach, List.map_map]
    · rfl
    · intro r hr hmem
      rw [hactivity] at hmem
      exact hrows.unmined r hr ((List.filter_sublist.map _).subset hmem)
  · rw [canonicalTxs_append, List.map_append, hhashes]
    refine List.nodup_append.mpr ⟨h.distinct, hrows.distinct, ?_⟩
    rintro hash hold other hother rfl
    obtain ⟨tx, htx, rfl⟩ := List.mem_map.mp hold
    exact hfresh tx htx hother
  · intro e he
    rw [canonicalTxs_append, List.map_append, hhashes, List.mem_append]
    rcases List.mem_append.mp he with he | he
    · exact Or.inl (h.logged e he)
    · exact Or.inr (hrows.logged e he)

end append

end

end Ubi2.Rpc
