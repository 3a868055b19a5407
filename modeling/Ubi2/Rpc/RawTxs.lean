import Ubi2.Rpc.Agreement

namespace Ubi2.Rpc

open Ubi2.Runtime Ubi2.Lib Ubi2.Lib.Encode Ubi2.Exec

-- No two of the raw transactions have one hash, and none has that of a transaction of the
-- system.
structure Binds (host : NodeHost) (raws : List Bytes) : Prop where
  distinct : ∀ raw ∈ raws, ∀ raw' ∈ raws, host.keccak256 raw = host.keccak256 raw' → raw = raw'
  sweepless : ∀ raw ∈ raws, ∀ ctx, host.keccak256 raw ≠ sweepHash host ctx

-- The cache holds raw transactions under their own hashes.
def Keyed (host : NodeHost) (raws : List Bytes) (rawTx : RawTxs) : Prop :=
  ∀ e ∈ rawTx.rows, e.1 = host.keccak256 e.2 ∧ e.2 ∈ raws

-- A stored transaction is in the cache, or is one of the system.
def Known (host : NodeHost) (rawTx : RawTxs) (hash : Hash) : Prop :=
  (rawTx.get hash).isSome ∨ ∃ ctx, hash = sweepHash host ctx

def Grows (t t' : RawTxs) : Prop := ∀ hash, (t.get hash).isSome → (t'.get hash).isSome

section
variable {host : NodeHost} {raws : List Bytes} {t t' : RawTxs}

theorem Grows.refl (t : RawTxs) : Grows t t := fun _ h => h

theorem Grows.put (e : Hash × Bytes) : Grows t (t.put e) := by
  intro hash h
  rw [Table.get_put]
  split_ifs
  · rfl
  · exact h

theorem Grows.cacheRawTxs (host : NodeHost) (chain : Chain) (l : List Bytes) :
    Grows chain.inner.rawTx (chain.cacheRawTxs host l).inner.rawTx := by
  intro hash h
  show ((l.foldl (fun t raw => t.put (host.keccak256 raw, raw)) chain.inner.rawTx).get hash).isSome
  generalize chain.inner.rawTx = t at h
  induction l generalizing t with
  | nil => exact h
  | cons raw l ih => exact ih _ (Grows.put _ hash h)

theorem Keyed.put (h : Keyed host raws t) {raw : Bytes} (hraw : raw ∈ raws) :
    Keyed host raws (t.put (host.keccak256 raw, raw)) := by
  intro e he
  rcases Table.mem_put.mp he with rfl | ⟨hmem, -⟩
  · exact ⟨rfl, hraw⟩
  · exact h e hmem

theorem Keyed.cacheRawTxs {chain : Chain} (h : Keyed host raws chain.inner.rawTx) {l : List Bytes}
    (hl : ∀ raw ∈ l, raw ∈ raws) : Keyed host raws (chain.cacheRawTxs host l).inner.rawTx := by
  show Keyed host raws (l.foldl (fun t raw => t.put (host.keccak256 raw, raw)) chain.inner.rawTx)
  generalize chain.inner.rawTx = t at h
  induction l generalizing t with
  | nil => exact h
  | cons raw l ih =>
    exact ih (fun r hr => hl r (List.mem_cons_of_mem _ hr)) _ (h.put (hl raw List.mem_cons_self))

theorem Keyed.of_get (h : Keyed host raws t) {hash : Hash} {e : Hash × Bytes}
    (hget : t.get hash = some e) : hash = host.keccak256 e.2 ∧ e = (hash, e.2) ∧ e.2 ∈ raws := by
  obtain ⟨hkey, hraw⟩ := h e (Table.mem_of_get hget)
  have hhash : e.1 = hash := Table.key_of_get hget
  exact ⟨by rw [← hhash, hkey], Prod.ext hhash rfl, hraw⟩

theorem Keyed.get_sweep (h : Keyed host raws t) (hbinds : Binds host raws) {hash : Hash}
    {ctx : BlockCtx} (hsweep : hash = sweepHash host ctx) : t.get hash = none := by
  rw [Option.eq_none_iff_forall_ne_some]
  intro e he
  obtain ⟨hkey, -, hraw⟩ := h.of_get he
  exact hbinds.sweepless _ hraw ctx (hkey.symm.trans hsweep)

-- What is known under a hash stays, however the cache grows.
theorem Keyed.get_eq (hbinds : Binds host raws) (h : Keyed host raws t) (h' : Keyed host raws t')
    (hgrows : Grows t t') {hash : Hash} (hknown : Known host t hash) :
    t'.get hash = t.get hash := by
  rcases hknown with hcached | ⟨ctx, hsweep⟩
  · obtain ⟨e, he⟩ := Option.isSome_iff_exists.mp hcached
    obtain ⟨e', he'⟩ := Option.isSome_iff_exists.mp (hgrows hash hcached)
    obtain ⟨hkey, heq, hraw⟩ := h.of_get he
    obtain ⟨hkey', heq', hraw'⟩ := h'.of_get he'
    have hraws : e'.2 = e.2 := hbinds.distinct _ hraw' _ hraw (hkey'.symm.trans hkey)
    rw [he, he', heq, heq', hraws]
  · rw [h.get_sweep hbinds hsweep, h'.get_sweep hbinds hsweep]

theorem Keyed.get_cacheRawTxs {chain : Chain} {l : List Bytes} {raw : Bytes}
    (h : Keyed host raws (chain.cacheRawTxs host l).inner.rawTx) (hbinds : Binds host raws)
    (hl : ∀ raw ∈ l, raw ∈ raws) (hraw : raw ∈ l) :
    (chain.cacheRawTxs host l).inner.rawTx.get (host.keccak256 raw) =
      some (host.keccak256 raw, raw) := by
  obtain ⟨before, after, rfl⟩ := List.append_of_mem hraw
  have hsplit : (chain.cacheRawTxs host (before ++ raw :: after)).inner.rawTx =
      (((chain.cacheRawTxs host before).cacheRawTxs host [raw]).cacheRawTxs host after).inner.rawTx := by
    simp only [Chain.cacheRawTxs, List.foldl_append, List.foldl_cons, List.foldl_nil]
  have hput : (((chain.cacheRawTxs host before).cacheRawTxs host [raw]).inner.rawTx.get
      (host.keccak256 raw)).isSome := by
    have hget : ((chain.cacheRawTxs host before).cacheRawTxs host [raw]).inner.rawTx.get
        (host.keccak256 raw) = some (host.keccak256 raw, raw) := Table.get_put_self _ _
    rw [hget]
    rfl
  have hsome := hsplit ▸ Grows.cacheRawTxs host _ after _ hput
  obtain ⟨e, he⟩ := Option.isSome_iff_exists.mp hsome
  obtain ⟨hkey, heq, hmem⟩ := h.of_get he
  rw [he, heq, hbinds.distinct _ hmem raw (hl raw hraw) hkey.symm]

theorem mem_of_mapM {l : List Bytes} {pending : List PendingTx}
    (h : l.mapM host.decodePendingTx = some pending) {q : PendingTx} (hq : q ∈ pending) :
    ∃ raw ∈ l, host.decodePendingTx raw = some q := by
  induction l generalizing pending with
  | nil =>
    cases h
    cases hq
  | cons raw l ih =>
    rw [List.mapM_cons] at h
    obtain ⟨q', hq', h⟩ := Option.bind_eq_some_iff.mp h
    obtain ⟨rest, hrest, h⟩ := Option.bind_eq_some_iff.mp h
    cases h
    rcases List.mem_cons.mp hq with rfl | hq
    · exact ⟨raw, List.mem_cons_self, hq'⟩
    · obtain ⟨raw', hraw', hdecode⟩ := ih hrest hq
      exact ⟨raw', List.mem_cons_of_mem _ hraw', hdecode⟩

theorem Cached.known {p : PendingTx} (h : Cached host t p) : Known host t p.hash := by
  obtain ⟨raw, hget, -⟩ := h
  exact Or.inl (by rw [hget]; rfl)

theorem Cached.grows (hbinds : Binds host raws) (h : Keyed host raws t)
    (h' : Keyed host raws t') (hgrows : Grows t t') {p : PendingTx} (hp : Cached host t p) :
    Cached host t' p := by
  have heq := h.get_eq hbinds h' hgrows hp.known
  obtain ⟨raw, hget, hdecode⟩ := hp
  exact ⟨raw, by rw [heq, hget], hdecode⟩

theorem Known.grows (hgrows : Grows t t') {hash : Hash} (h : Known host t hash) :
    Known host t' hash := h.imp_left (hgrows hash)

theorem keccak_rawsOf {pending : List PendingTx} (hkeyed : Keyed host raws t)
    (h : ∀ q ∈ pending, Cached host t q) :
    (rawsOf t (pending.map PendingTx.hash)).map host.keccak256 = pending.map PendingTx.hash := by
  induction pending with
  | nil => rfl
  | cons q pending ih =>
    obtain ⟨raw, hget, -⟩ := h q List.mem_cons_self
    have hrest := ih fun r hr => h r (List.mem_cons_of_mem _ hr)
    have hhash : q.hash = host.keccak256 raw := (hkeyed.of_get hget).1
    simp only [rawsOf, List.map_cons, List.filterMap_cons, hget, Option.map_some] at hrest ⊢
    rw [hrest, ← hhash]

-- Blocks are served alike from caches that agree on what is known.
theorem wireBlockFrom_eq {chain chain' : Chain} {b : Block} (hbinds : Binds host raws)
    (h : Keyed host raws chain.inner.rawTx) (h' : Keyed host raws chain'.inner.rawTx)
    (hgrows : Grows chain.inner.rawTx chain'.inner.rawTx)
    (hknown : ∀ tx ∈ b.txs, Known host chain.inner.rawTx tx.hash) :
    chain'.wireBlockFrom b = chain.wireBlockFrom b := by
  have hraws : chain'.rawTxsForBlock b = chain.rawTxsForBlock b := by
    rw [Chain.rawTxsForBlock, Chain.rawTxsForBlock]
    refine List.filterMap_congr ?_
    intro tx htx
    rw [h.get_eq hbinds h' hgrows (hknown tx htx)]
  rw [Chain.wireBlockFrom, hraws, Chain.wireBlockFrom]

end

end Ubi2.Rpc
