import Ubi2.Rpc.Serving

namespace Ubi2.Rpc

open Ubi2.Runtime Ubi2.Lib Ubi2.Lib.Encode Ubi2.Exec

-- A transaction that was charged while its block ran, with its place among those that were
-- offered and the addresses that the contract effect it committed reached.
structure Execution where
  hash : Hash
  index : Nat
  effects : List Address

def executions (host : NodeHost) (ctx : BlockCtx) : Nat → List PendingTx → MemState → List Execution
  | _, [], _ => []
  | i, p :: pending, s =>
    (applyTx host.toHost ctx (kernelTxFromPending p) s).elim [] fun r =>
      (r.1.toList.map fun o =>
        ⟨p.hash, i, if o.success then contractEffectAddresses r.2 p.kind else []⟩) ++
        executions host ctx (i + 1) pending r.2

-- The list of an address.
def AddrIndex.activity (index : AddrIndex) (a : Address) : List Hash :=
  ((index.get a).map Prod.snd).getD []

-- A stored transaction and the addresses its effect reached, as they enter the index.
def indexRow (index : AddrIndex) (r : StoredTx × List Address) : AddrIndex :=
  r.2.foldl (fun index a => index.push a r.1.hash) (indexTx index r.1)

def executionOf (r : StoredTx × List Address) : Execution := ⟨r.1.hash, r.1.txIndex, r.2⟩

-- What running some transactions adds to a block that is being mined.
structure Ran (m m' : Mined) (rows : List (StoredTx × List Address)) : Prop where
  stored : m'.stored = m.stored ++ rows.map Prod.fst
  txs : m'.txs = (rows.map Prod.fst).foldl Table.put m.txs
  addrIndex : m'.addrIndex = rows.foldl indexRow m.addrIndex

section
variable {host : NodeHost} {ctx : BlockCtx} {number i : Nat} {index : AddrIndex}
variable {a b : Address} {hash : Hash}

theorem activity_push : (index.push a hash).activity b =
    if a = b ∧ (index.activity b).getLast? ≠ some hash then index.activity b ++ [hash]
    else index.activity b := by
  have hput : index.push a hash = index.put (a,
      if (index.activity a).getLast? ≠ some hash then index.activity a ++ [hash]
      else index.activity a) := rfl
  rw [AddrIndex.activity, hput, Table.get_put]
  by_cases hab : a = b
  · subst hab
    rw [if_pos rfl, Option.map_some, Option.getD_some]
    exact if_congr (Iff.intro (⟨rfl, ·⟩) And.right) rfl rfl
  · rw [if_neg hab, if_neg fun h => hab h.1]
    rfl

-- A transaction that an address already ends with is not added again.
theorem activity_foldl_push_of_last {l : List Address}
    (h : (index.activity b).getLast? = some hash) :
    (l.foldl (fun index a => index.push a hash) index).activity b = index.activity b := by
  induction l generalizing index with
  | nil => rfl
  | cons a l ih =>
    have hpush : (index.push a hash).activity b = index.activity b := by
      rw [activity_push, if_neg fun hne => hne.2 h]
    rw [List.foldl_cons, ih (by rw [hpush, h]), hpush]

theorem activity_foldl_push {l : List Address} (h : hash ∉ index.activity b) :
    (l.foldl (fun index a => index.push a hash) index).activity b =
      index.activity b ++ if b ∈ l then [hash] else [] := by
  induction l generalizing index with
  | nil => simp
  | cons a l ih =>
    have hlast : (index.activity b).getLast? ≠ some hash :=
      fun hlast => h (List.mem_of_getLast? hlast)
    rw [List.foldl_cons]
    by_cases hab : a = b
    · have hpush : (index.push a hash).activity b = index.activity b ++ [hash] := by
        rw [activity_push, if_pos ⟨hab, hlast⟩]
      rw [activity_foldl_push_of_last (by rw [hpush, List.getLast?_concat]), hpush,
        if_pos (List.mem_cons.mpr (Or.inl hab.symm))]
    · have hpush : (index.push a hash).activity b = index.activity b := by
        rw [activity_push, if_neg fun hab' => hab hab'.1]
      rw [ih (by rw [hpush]; exact h), hpush]
      simp [Ne.symm hab]

-- Whether a row is one of an address.
def Reaches (r : StoredTx × List Address) (a : Address) : Prop :=
  a ∈ affectedAddresses r.1 ∨ a ∈ r.2

instance (r : StoredTx × List Address) (a : Address) : Decidable (Reaches r a) :=
  inferInstanceAs (Decidable (_ ∨ _))

theorem indexRow_eq (index : AddrIndex) (r : StoredTx × List Address) :
    indexRow index r =
      (affectedAddresses r.1 ++ r.2).foldl (fun index a => index.push a r.1.hash) index :=
  List.foldl_append.symm

-- Rows of new transactions are added to the lists of the addresses they reach, in order.
theorem activity_foldl_indexRow {rows : List (StoredTx × List Address)}
    (hnodup : (rows.map fun r => r.1.hash).Nodup)
    (hnew : ∀ r ∈ rows, r.1.hash ∉ index.activity a) :
    (rows.foldl indexRow index).activity a =
      index.activity a ++ (rows.filter (Reaches · a)).map fun r => r.1.hash := by
  induction rows generalizing index with
  | nil => simp
  | cons r rows ih =>
    rw [List.map_cons, List.nodup_cons] at hnodup
    have hone : (indexRow index r).activity a =
        index.activity a ++ if Reaches r a then [r.1.hash] else [] := by
      rw [indexRow_eq, activity_foldl_push (hnew r List.mem_cons_self)]
      exact congrArg _ (if_congr List.mem_append rfl rfl)
    rw [List.foldl_cons, ih hnodup.2, hone]
    · by_cases hreach : Reaches r a <;> simp [hreach]
    · intro r' hr'
      rw [hone, List.mem_append, not_or]
      refine ⟨hnew r' (List.mem_cons_of_mem _ hr'), ?_⟩
      intro hmem
      split at hmem
      · rw [List.mem_singleton] at hmem
        exact hnodup.1 (hmem ▸ List.mem_map_of_mem hr')
      · cases hmem

-- What is in a list stays there.
theorem mem_activity_foldl_indexRow {rows : List (StoredTx × List Address)}
    (h : hash ∈ index.activity a) : hash ∈ (rows.foldl indexRow index).activity a := by
  have hpush : ∀ (index : AddrIndex) (b : Address) (other : Hash), hash ∈ index.activity a →
      hash ∈ (index.push b other).activity a := by
    intro index b other h
    rw [activity_push]
    split
    · exact List.mem_append_left _ h
    · exact h
  have hrow : ∀ (l : List Address) (index : AddrIndex) (other : Hash), hash ∈ index.activity a →
      hash ∈ (l.foldl (fun index b => index.push b other) index).activity a := by
    intro l
    induction l with
    | nil => exact fun _ _ h => h
    | cons b l ih => exact fun index other h => ih _ other (hpush index b other h)
  induction rows generalizing index with
  | nil => exact h
  | cons r rows ih =>
    apply ih
    rw [indexRow_eq]
    exact hrow _ _ _ h

theorem Ran.refl (m : Mined) (s : MemState) : Ran m { m with state := s } [] :=
  ⟨by simp, rfl, rfl⟩

theorem Ran.store (m : Mined) (s : MemState) (tx : StoredTx) (extra : List Address) :
    Ran m (Mined.store { m with state := s } tx extra) [(tx, extra)] :=
  ⟨rfl, rfl, rfl⟩

theorem Ran.trans {m m₁ m₂ : Mined} {rows rows' : List (StoredTx × List Address)}
    (h : Ran m m₁ rows) (h' : Ran m₁ m₂ rows') : Ran m m₂ (rows ++ rows') := by
  refine ⟨?_, ?_, ?_⟩
  · rw [h'.stored, h.stored, List.map_append, List.append_assoc]
  · rw [h'.txs, h.txs, List.map_append, List.foldl_append]
  · rw [h'.addrIndex, h.addrIndex, List.foldl_append]

-- The loop over the transactions of a block adds one row for each that is charged.
theorem ran_mineTxs {pending : List PendingTx} {m m' : Mined}
    (h : mineTxs host ctx number i pending m = some m') :
    ∃ rows, Ran m m' rows ∧
      rows.map executionOf = executions host ctx i pending m.state := by
  induction pending generalizing m i with
  | nil =>
    cases h
    exact ⟨[], Ran.refl m' m'.state, rfl⟩
  | cons p pending ih =>
    rw [mineTxs, mineTx] at h
    rw [executions]
    cases happly : applyTx host.toHost ctx (kernelTxFromPending p) m.state with
    | none => simp [happly] at h
    | some r =>
      obtain ⟨o, s⟩ := r
      rw [happly, Option.map_some, Option.bind_some] at h
      obtain ⟨rows, hran, hrows⟩ := ih h
      rw [Option.elim_some]
      cases o with
      | none => exact ⟨rows, (Ran.refl m s).trans hran, hrows⟩
      | some o =>
        refine ⟨_ :: rows, (Ran.store m s _ _).trans hran, ?_⟩
        rw [List.map_cons, hrows]
        rfl

-- The sweeps add one row at most, for the transaction of the system.
theorem ran_mineSweeps (host : NodeHost) (ctx : BlockCtx) (number : Nat) (m : Mined) :
    ∃ rows, Ran m (mineSweeps host ctx number m) rows ∧
      (rows = [] ∨ ∃ logs, rows = [(sweepTx host ctx number m.stored.length logs, [])]) := by
  rw [mineSweeps]
  split
  · exact ⟨[], Ran.refl m _, Or.inl rfl⟩
  · exact ⟨_, Ran.store m _ _ _, Or.inr ⟨_, rfl⟩⟩

end

end Ubi2.Rpc
