import Ubi2.Rpc.Derived

namespace Ubi2.Rpc

open Ubi2.Runtime Ubi2.Lib Ubi2.Lib.Encode Ubi2.Exec

section
variable {host : NodeHost} {log : List Execution} {g : Inner} {blocks : List Block}

theorem indexed_genesis (host : NodeHost) (key : Option ProposerKey) (genesisTime : U64)
    (s : MemState) : Indexed [] (Chain.genesis host key genesisTime s).inner := by
  refine indexed_of ?_ ?_ ?_ ?_ List.nodup_nil (fun _ he => absurd he List.not_mem_nil)
  · intro hash i
    rw [Table.get_eq_some_iff]
    constructor
    · rintro ⟨hmem, -⟩
      obtain ⟨rfl, rfl⟩ := Prod.mk.inj (List.mem_singleton.mp hmem)
      exact ⟨_, rfl, rfl⟩
    · rintro ⟨b, hb, hhash⟩
      have hmem := List.mem_of_getElem? hb
      obtain ⟨hlt, -⟩ := List.getElem?_eq_some_iff.mp hb
      have hlt : i < 1 := hlt
      obtain rfl : i = 0 := by omega
      rw [List.mem_singleton.mp hmem] at hhash
      subst hhash
      exact ⟨List.mem_singleton.mpr rfl, rfl⟩
  · intro hash tx
    constructor
    · intro h
      cases h
    · rintro ⟨hmem, -⟩
      cases hmem
  · intro b hb i tx htx
    rw [List.mem_singleton.mp hb] at htx
    cases htx
  · exact fun _ => rfl

-- The positions that are left once some blocks are unwound.
theorem get_foldl_eraseBlock {l : List Block} {x : HashIndex × Table StoredTx.hash} {hash : Hash}
    {e : Hash × Nat} :
    (l.foldl eraseBlock x).1.get hash = some e ↔
      (∀ b ∈ l, b.hash ≠ hash) ∧ x.1.get hash = some e := by
  induction l generalizing x with
  | nil => simp
  | cons b l ih =>
    have herase : (eraseBlock x b).1.get hash = if hash = b.hash then none else x.1.get hash :=
      Table.get_erase _ _ _
    rw [List.foldl_cons, ih, herase, List.forall_mem_cons]
    by_cases hb : b.hash = hash
    · simp [hb]
    · simp [hb, Ne.symm hb]

-- Blocks without transactions are unwound without a trace.
theorem foldl_eraseBlock_of_nil {l : List Block} (hempty : ∀ b ∈ l, b.txs = [])
    (x : HashIndex × Table StoredTx.hash) : (l.foldl eraseBlock x).2 = x.2 := by
  induction l generalizing x with
  | nil => rfl
  | cons b l ih =>
    rw [List.foldl_cons, ih fun b' hb' => hempty b' (List.mem_cons_of_mem _ hb'), eraseBlock,
      hempty b List.mem_cons_self]
    rfl

theorem canonicalTxs_truncate {caHeight : Nat} (s : MemState)
    (hempty : ∀ b ∈ g.blocks.drop (caHeight + 1), b.txs = []) :
    (g.truncate caHeight s).canonicalTxs = g.canonicalTxs := by
  have hdrop : (g.blocks.drop (caHeight + 1)).flatMap Block.txs = [] :=
    List.flatMap_eq_nil_iff.mpr hempty
  have hsplit : g.canonicalTxs = (g.blocks.take (caHeight + 1)).flatMap Block.txs ++
      (g.blocks.drop (caHeight + 1)).flatMap Block.txs := by
    rw [← List.flatMap_append, List.take_append_drop]
    rfl
  rw [hsplit, hdrop, List.append_nil]
  rfl

-- Unwinding blocks without transactions keeps the indexes.
theorem Indexed.truncate {caHeight : Nat} (h : Indexed log g) (s : MemState)
    (hempty : ∀ b ∈ g.blocks.drop (caHeight + 1), b.txs = []) :
    Indexed log (g.truncate caHeight s) := by
  have hcanonical := canonicalTxs_truncate s hempty
  refine ⟨⟨?_, ?_, ?_, ?_, h.once⟩, hcanonical ▸ h.distinct, hcanonical ▸ h.logged⟩
  · intro hash i
    have hget : (g.truncate caHeight s).blocksByHash.get hash = some (hash, i) ↔
        (∀ b ∈ g.blocks.drop (caHeight + 1), b.hash ≠ hash) ∧
          g.blocksByHash.get hash = some (hash, i) := get_foldl_eraseBlock
    have hblocks : (g.truncate caHeight s).blocks[i]? =
        if i < caHeight + 1 then g.blocks[i]? else none := List.getElem?_take
    rw [hget, hblocks, h.positions]
    constructor
    · rintro ⟨hkept, b, hb, hhash⟩
      refine ⟨b, ?_, hhash⟩
      rw [if_pos, hb]
      by_contra hge
      refine hkept b (List.mem_iff_getElem?.mpr ⟨i - (caHeight + 1), ?_⟩) hhash
      rw [List.getElem?_drop, Nat.add_sub_of_le (by omega), hb]
    · rintro ⟨b, hb, hhash⟩
      split at hb
      · rename_i hlow
        refine ⟨?_, b, hb, hhash⟩
        intro b' hb' hhash'
        obtain ⟨j, hj⟩ := List.mem_iff_getElem?.mp hb'
        rw [List.getElem?_drop] at hj
        have hij := h.inj hb hj (hhash.trans hhash'.symm)
        omega
      · cases hb
  · intro hash tx
    have htxs : (g.truncate caHeight s).txs = g.txs :=
      foldl_eraseBlock_of_nil hempty (g.blocksByHash, g.txs)
    rw [htxs, hcanonical]
    exact h.txs hash tx
  · exact fun b hb => h.placed b (List.mem_of_mem_take hb)
  · intro a
    rw [hcanonical]
    exact h.activity a

-- What a load builds, part by part.
theorem foldl_add (l : List (Block × Nat)) (x : Indexes) :
    l.foldl Indexes.add x =
      ⟨(l.map fun e => (e.1.hash, e.2)).foldl Table.put x.blocksByHash,
        (l.flatMap fun e => e.1.txs).foldl Table.put x.txs,
        (l.flatMap fun e => e.1.txs).foldl indexTx x.addrIndex⟩ := by
  induction l generalizing x with
  | nil => rfl
  | cons e l ih =>
    rw [List.foldl_cons, ih, List.flatMap_cons, List.foldl_append, List.foldl_append]
    rfl

theorem ofBlocks_eq (blocks : List Block) :
    Indexes.ofBlocks blocks =
      ⟨(blocks.zipIdx.map fun e => (e.1.hash, e.2)).foldl Table.put ∅,
        (blocks.flatMap Block.txs).foldl Table.put ∅,
        (blocks.flatMap Block.txs).foldl indexTx ∅⟩ := by
  have htxs : (blocks.zipIdx.flatMap fun e => e.1.txs) = blocks.flatMap Block.txs := by
    rw [← List.flatMap_map Prod.fst Block.txs, List.zipIdx_map_fst]
  rw [Indexes.ofBlocks, foldl_add, htxs]

-- The rows of a load have no effects.
theorem foldl_indexTx (txs : List StoredTx) (index : AddrIndex) :
    txs.foldl indexTx index = (txs.map fun tx => (tx, [])).foldl indexRow index := by
  rw [List.foldl_map]
  rfl

-- Every address that an effect reached is named by the record of its transaction.
def Named (log : List Execution) (g : Inner) : Prop :=
  ∀ tx ∈ g.canonicalTxs, ∀ e ∈ log, e.hash = tx.hash → ∀ a ∈ e.effects, a ∈ affectedAddresses tx

-- A load rebuilds the indexes of the blocks, where no effect reached further than the records
-- say.
theorem Indexed.loadInto (h : Indexed log g) (hnamed : Named log g) (chain : Chain) (s : MemState) :
    Indexed log (chain.loadInto s g.blocks g.genesisPresent).inner := by
  have hblocks : (chain.loadInto s g.blocks g.genesisPresent).inner.canonicalTxs = g.canonicalTxs :=
    rfl
  have hpositions : (chain.loadInto s g.blocks g.genesisPresent).inner.blocksByHash =
      (g.blocks.zipIdx.map fun e => (e.1.hash, e.2)).foldl Table.put ∅ :=
    congrArg Indexes.blocksByHash (ofBlocks_eq g.blocks)
  have htxs : (chain.loadInto s g.blocks g.genesisPresent).inner.txs =
      g.canonicalTxs.foldl Table.put ∅ := congrArg Indexes.txs (ofBlocks_eq g.blocks)
  have haddr : (chain.loadInto s g.blocks g.genesisPresent).inner.addrIndex =
      g.canonicalTxs.foldl indexTx ∅ := congrArg Indexes.addrIndex (ofBlocks_eq g.blocks)
  refine indexed_of ?_ ?_ h.placed ?_ h.distinct h.logged
  · intro hash i
    have hkeys : ((g.blocks.zipIdx.map fun e => (e.1.hash, e.2)).map Prod.fst).Nodup := by
      rw [List.map_map]
      refine List.Nodup.map_on ?_ ?_
      · rintro ⟨b, i⟩ hb ⟨b', j⟩ hb' hhash
        have hb : g.blocks[i]? = some b := List.mem_zipIdx_iff_getElem?.mp hb
        have hb' : g.blocks[j]? = some b' := List.mem_zipIdx_iff_getElem?.mp hb'
        obtain rfl := h.inj hb hb' hhash
        rw [Option.some.inj (hb.symm.trans hb')]
      · refine List.Nodup.of_map Prod.snd ?_
        rw [List.zipIdx_map_snd]
        exact List.nodup_range'
    rw [hpositions, Table.get_foldl_put_of_nodup hkeys, Table.get_empty]
    constructor
    · rintro (⟨hmem, -⟩ | ⟨-, hnone⟩)
      · obtain ⟨⟨b, j⟩, hb, heq⟩ := List.mem_map.mp hmem
        obtain ⟨rfl, rfl⟩ := Prod.mk.inj heq
        exact ⟨b, List.mem_zipIdx_iff_getElem?.mp hb, rfl⟩
      · cases hnone
    · rintro ⟨b, hb, rfl⟩
      exact Or.inl ⟨List.mem_map.mpr ⟨(b, i), List.mem_zipIdx_iff_getElem?.mpr hb, rfl⟩, rfl⟩
  · intro hash tx
    rw [htxs, Table.get_foldl_put_of_nodup h.distinct, Table.get_empty, hblocks]
    constructor
    · rintro (hmem | ⟨-, hnone⟩)
      · exact hmem
      · cases hnone
    · exact Or.inl
  · intro a
    have hreach : ∀ tx ∈ g.canonicalTxs,
        ((fun r => decide (Reaches r a)) ∘ fun tx : StoredTx => (tx, [])) tx =
          decide (Touches log tx a) := by
      intro tx htx
      refine decide_eq_decide.mpr ?_
      constructor
      · rintro (ha | ha)
        · exact Or.inl ha
        · cases ha
      · rintro (ha | ⟨e, he, hhash, ha⟩)
        · exact Or.inl ha
        · exact Or.inl (hnamed tx htx e he hhash a ha)
    rw [haddr, foldl_indexTx, activity_foldl_indexRow, List.filter_map, List.filter_congr hreach,
      List.map_map]
    · rfl
    · rw [List.map_map]
      exact h.distinct
    · intro r hr hmem
      cases hmem

end

end Ubi2.Rpc
