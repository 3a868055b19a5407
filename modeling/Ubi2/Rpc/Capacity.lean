import Ubi2.Rpc.Admission
import Ubi2.Rpc.Agreement
import Ubi2.RuntimeWasm.Wire

namespace Ubi2.Rpc

open Ubi2.Runtime Ubi2.Lib Ubi2.Lib.Encode Ubi2.Exec Ubi2.Network

-- Submissions, each at a reading of the node's clock.
def Chain.ingestAll (host : NodeHost) : Chain → List (U64 × Bytes) → Chain
  | chain, [] => chain
  | chain, (now, raw) :: submissions =>
    ingestAll host (chain.ingestRawTx host now raw).2 submissions

-- The bytes that what the next block stores was submitted as.
def Chain.minedRaws (host : NodeHost) (chain : Chain) (timestamp : U64) (view : U32) :
    List Bytes :=
  rawsOf chain.inner.rawTx ((chain.mined host timestamp view).map PendingTx.hash)

def signatureLength (key : Option ProposerKey) : Nat :=
  match key with
  | some _ => MAX_SIG_BYTES
  | none => 0

-- The wire form of a block carries the bytes of each transaction that was mined, and comes
-- back from both decoders as it was.
structure FitsWire (w : WireBlock) (mined : List PendingTx) : Prop where
  carried : w.rawTxs.length = mined.length
  network : Network.decode (Network.encode w) = .ok w
  light : RuntimeWasm.decode (Network.encode w) = .ok w

section
variable {host : NodeHost} {chain chain' : Chain} {b : Block} {timestamp : U64} {view : U32}

theorem length_flatMap_putBytes (raws : List Bytes) :
    (raws.flatMap putBytes).length = (raws.map fun raw => 4 + raw.length).sum := by
  induction raws with
  | nil => rfl
  | cons raw raws ih => simp [ih, length_putBytes]

-- Both decoders give a block back exactly when it fits the smaller caps.
theorem decoders_give_back_iff {w : WireBlock} :
    Network.decode (Network.encode w) = .ok w ∧ RuntimeWasm.decode (Network.encode w) = .ok w ↔
      Network.Fits Network.MAX_TX_BYTES w ∧
        (Network.encode w).length ≤ RuntimeWasm.MAX_BLOCK_BYTES := by
  have hcaps : RuntimeWasm.MAX_BLOCK_BYTES ≤ Network.MAX_BLOCK_BYTES := by decide
  rw [Network.decode_ok_iff, RuntimeWasm.decode_ok_iff]
  constructor
  · rintro ⟨⟨hfits, -, -⟩, -, -, hlen⟩
    exact ⟨hfits, hlen⟩
  · rintro ⟨hfits, hlen⟩
    exact ⟨⟨hfits, rfl, hlen.trans hcaps⟩, hfits, rfl, hlen⟩

-- Every queued transaction has bytes cached under its hash.
def Cache (chain : Chain) : Prop :=
  ∀ p ∈ chain.inner.mempool, ∃ raw, chain.inner.rawTx.get p.hash = some (p.hash, raw)

theorem cache_ingestRawTx (h : Cache chain) (now : U64) (raw : Bytes) :
    Cache (chain.ingestRawTx host now raw).2 := by
  rcases ingestRawTx_cases (Prod.eta (chain.ingestRawTx host now raw)).symm with
    ⟨e, -, heq⟩ | ⟨q, -, -, -, heq⟩
  · rw [heq]
    exact h
  · rw [heq]
    intro p hp
    have hget : (chain.enqueue q raw).inner.rawTx.get p.hash =
        if q.hash = p.hash then some (q.hash, raw) else chain.inner.rawTx.get p.hash :=
      Table.get_put chain.inner.rawTx (q.hash, raw) p.hash
    by_cases hsame : q.hash = p.hash
    · rw [hget, if_pos hsame, hsame]
      exact ⟨raw, rfl⟩
    · rw [hget, if_neg hsame]
      rcases List.mem_append.mp hp with hp | hp
      · exact h p hp
      · exact absurd (congrArg PendingTx.hash (List.mem_singleton.mp hp)).symm hsame

theorem cache_ingestAll (h : Cache chain) (submissions : List (U64 × Bytes)) :
    Cache (chain.ingestAll host submissions) := by
  induction submissions generalizing chain with
  | nil => exact h
  | cons s submissions ih => exact ih (cache_ingestRawTx h s.1 s.2)

-- Submissions leave the key and the blocks alone.
theorem head_ingestAll (host : NodeHost) (chain : Chain) (submissions : List (U64 × Bytes)) :
    (chain.ingestAll host submissions).proposerKey = chain.proposerKey ∧
      (chain.ingestAll host submissions).head = chain.head := by
  induction submissions generalizing chain with
  | nil => exact ⟨rfl, rfl⟩
  | cons s submissions ih =>
    obtain ⟨hkey, hhead⟩ := ih (chain.ingestRawTx host s.1 s.2).2
    rw [Chain.ingestAll, hkey, hhead]
    rcases ingestRawTx_cases (Prod.eta (chain.ingestRawTx host s.1 s.2)).symm with
      ⟨e, -, heq⟩ | ⟨q, -, -, -, heq⟩
    · rw [heq]
      exact ⟨rfl, rfl⟩
    · rw [heq]
      exact ⟨rfl, rfl⟩

theorem length_rawsOf {rawTx : RawTxs} {pending : List PendingTx}
    (h : ∀ p ∈ pending, ∃ raw, rawTx.get p.hash = some (p.hash, raw)) :
    (rawsOf rawTx (pending.map PendingTx.hash)).length = pending.length := by
  rw [rawsOf, ← List.length_map PendingTx.hash, List.filterMap_length_eq_length]
  intro hash hmem
  obtain ⟨p, hp, rfl⟩ := List.mem_map.mp hmem
  obtain ⟨raw, hget⟩ := h p hp
  rw [hget]
  rfl

-- A block is produced when its transactions and sweeps do not panic.
theorem exists_produced {m : Mined}
    (h : mine host chain.inner chain.inner.mempool timestamp view = some m) :
    ∃ b chain', chain.produceBlockAtView host timestamp view = some (b, chain') := by
  have hmine : mine host { chain.inner with mempool := [] } chain.inner.mempool timestamp view =
      some m := h
  rw [Chain.produceBlockAtView, Chain.executeBlock]
  simp only [hmine]
  exact ⟨_, _, rfl⟩

-- A produced block stores what is mined, and a transaction of the system after it.
theorem hashes_produced
    (hproduce : chain.produceBlockAtView host timestamp view = some (b, chain')) :
    ∃ m, mineTxs host (chain.inner.nextCtx host timestamp view) (chain.head.number + 1) 0
        chain.inner.mempool chain.inner.start = some m ∧
      ∃ sweep, (∀ hash ∈ sweep,
          hash = sweepHash host (chain.inner.nextCtx host timestamp view)) ∧
        b.txs.map StoredTx.hash =
          (chain.mined host timestamp view).map PendingTx.hash ++ sweep := by
  obtain ⟨m', hmine, hb, -⟩ := executeBlock_eq_some hproduce
  rw [mine, Option.map_eq_some_iff] at hmine
  obtain ⟨m, hm, rfl⟩ := hmine
  have hstored : m.stored.map StoredTx.hash =
      (chain.mined host timestamp view).map PendingTx.hash := mineTxs_stored hm
  refine ⟨m, hm, ?_⟩
  rw [hb, mineBlock_txs_hash]
  exact stored_hashes host (chain.inner.nextCtx host timestamp view) (chain.head.number + 1)
    hstored

-- The wire form of a produced block.
theorem rawTxs_produced
    (hsweep : chain.inner.rawTx.get (sweepHash host (chain.inner.nextCtx host timestamp view)) =
      none)
    (hproduce : chain.produceBlockAtView host timestamp view = some (b, chain')) :
    (chain'.wireBlockFrom b).rawTxs = chain.minedRaws host timestamp view := by
  obtain ⟨-, -, sweep, hsweeps, htxs⟩ := hashes_produced hproduce
  obtain ⟨-, -, -, rfl⟩ := executeBlock_eq_some hproduce
  have hnone : ∀ hash ∈ sweep, chain.inner.rawTx.get hash = none := by
    intro hash hmem
    rw [hsweeps hash hmem, hsweep]
  rw [Chain.wireBlockFrom, rawTxsForBlock_eq, htxs]
  exact rawsOf_append hnone

theorem fields_produced
    (hproduce : chain.produceBlockAtView host timestamp view = some (b, chain')) :
    b.number = chain.head.number + 1 ∧
      b.proposerSig = (stampOf chain.proposerKey none).2 b.hash := by
  obtain ⟨m, -, hb, -⟩ := executeBlock_eq_some hproduce
  rw [hb]
  exact ⟨rfl, rfl⟩

-- What admission lets in fits the wire exactly when no transaction that is mined is longer
-- than a transaction may be, and the block not longer than the light client takes.
theorem produced_fits_wire_iff {submissions : List (U64 × Bytes)} {mempool : Chain}
    (hempty : chain.inner.mempool = []) (hheight : chain.head.number + 1 < 2 ^ 64)
    (hsigns : ∀ key, chain.proposerKey = some key →
      ∀ hash, (key.signPrehash hash).length = MAX_SIG_BYTES)
    (hingest : chain.ingestAll host submissions = mempool)
    (hsweep : mempool.inner.rawTx.get
      (sweepHash host (mempool.inner.nextCtx host timestamp view)) = none)
    (hproduce : mempool.produceBlockAtView host timestamp view = some (b, chain')) :
    FitsWire (chain'.wireBlockFrom b) (mempool.mined host timestamp view) ↔
      (∀ raw ∈ mempool.minedRaws host timestamp view, raw.length ≤ Network.MAX_TX_BYTES) ∧
        144 + signatureLength mempool.proposerKey +
          ((mempool.minedRaws host timestamp view).map fun raw => 4 + raw.length).sum ≤
            RuntimeWasm.MAX_BLOCK_BYTES := by
  obtain ⟨hkey, hhead⟩ := head_ingestAll host chain submissions
  rw [hingest] at hkey hhead
  obtain ⟨hnumber, hsig⟩ := fields_produced hproduce
  have hraws := rawTxs_produced hsweep hproduce
  have hcache : Cache mempool := by
    rw [← hingest]
    refine cache_ingestAll ?_ submissions
    intro p hp
    rw [hempty] at hp
    cases hp
  have hcarried : (chain'.wireBlockFrom b).rawTxs.length =
      (mempool.mined host timestamp view).length := by
    rw [hraws]
    exact length_rawsOf fun p hp => hcache p (mem_survivors hp)
  have hsigLength : (chain'.wireBlockFrom b).proposerSig.length =
      signatureLength mempool.proposerKey := by
    show b.proposerSig.length = _
    rw [hsig, hkey]
    cases hk : chain.proposerKey with
    | none => rfl
    | some key => exact hsigns key hk b.hash
  have hlength : (Network.encode (chain'.wireBlockFrom b)).length =
      144 + signatureLength mempool.proposerKey +
        ((mempool.minedRaws host timestamp view).map fun raw => 4 + raw.length).sum := by
    rw [length_encode, length_flatMap_putBytes, hsigLength, hraws]
    omega
  have hfits : Network.Fits Network.MAX_TX_BYTES (chain'.wireBlockFrom b) ↔
      ∀ raw ∈ mempool.minedRaws host timestamp view, raw.length ≤ Network.MAX_TX_BYTES := by
    rw [← hraws]
    refine ⟨Network.Fits.rawTxs, fun h => ⟨?_, ?_, h⟩⟩
    · show b.number < _
      rw [hnumber, hhead]
      exact hheight
    · rw [hsigLength]
      cases mempool.proposerKey with
      | none => exact Nat.zero_le _
      | some key => exact le_refl _
  rw [← hlength, ← hfits, ← decoders_give_back_iff]
  constructor
  · intro h
    exact ⟨h.network, h.light⟩
  · rintro ⟨hnetwork, hlight⟩
    exact ⟨hcarried, hnetwork, hlight⟩

end

-- A host whose decoder takes the payment that the first byte encodes and ignores what
-- comes after it.
def paddingHost : NodeHost where
  toHost := devnetHost.toHost
  decodePendingTx := fun raw => raw.head?.map payment
  recoverProposer := devnetHost.recoverProposer

-- The payment of the streaming account is admitted whatever follows it, and is mined.
theorem ingest_padded (padding : Bytes) :
    (payingChain []).ingestAll paddingHost [(10#64, 6#8 :: padding)] =
      (payingChain []).enqueue (payment 6#8) (6#8 :: padding) := by
  have hgate : submitGate (payingChain []).inner 10#64 (payment 6#8) = none := by
    decide +kernel
  show ((payingChain []).ingestRawTx paddingHost 10#64 (6#8 :: padding)).2 = _
  simp only [Chain.ingestRawTx, paddingHost, List.head?_cons, Option.map_some, hgate]

theorem rawTx_padded (padding : Bytes) (hash : Hash) :
    ((payingChain []).enqueue (payment 6#8) (6#8 :: padding)).inner.rawTx.get hash =
      if 6#256 = hash then some (6#256, 6#8 :: padding) else none :=
  Table.get_put (∅ : RawTxs) (6#256, 6#8 :: padding) hash

theorem mined_padded (padding : Bytes) :
    ((payingChain []).enqueue (payment 6#8) (6#8 :: padding)).mined paddingHost 10#64 0#32 =
      [payment 6#8] := by
  have hpays : (applyTx paddingHost.toHost ((payingChain []).inner.nextCtx paddingHost 10#64 0#32)
      (kernelTxFromPending (payment 6#8)) (payingChain []).inner.start.state).any
      (fun r => r.1.isSome) = true := by
    decide +kernel
  show survivors paddingHost ((payingChain []).inner.nextCtx paddingHost 10#64 0#32)
    [payment 6#8] (payingChain []).inner.start.state = _
  cases happly : applyTx paddingHost.toHost
      ((payingChain []).inner.nextCtx paddingHost 10#64 0#32) (kernelTxFromPending (payment 6#8))
      (payingChain []).inner.start.state with
  | none =>
    rw [happly] at hpays
    cases hpays
  | some r =>
    rw [happly, Option.any_some] at hpays
    rw [survivors, happly, Option.elim_some, if_pos hpays]
    rfl

theorem minedRaws_padded (padding : Bytes) :
    ((payingChain []).enqueue (payment 6#8) (6#8 :: padding)).minedRaws paddingHost 10#64 0#32 =
      [6#8 :: padding] := by
  have hget := rawTx_padded padding 6#256
  rw [if_pos rfl] at hget
  rw [Chain.minedRaws, mined_padded, List.map_singleton, rawsOf]
  show List.filterMap _ [6#256] = _
  simp [hget]

theorem sweep_padded (padding : Bytes) :
    ((payingChain []).enqueue (payment 6#8) (6#8 :: padding)).inner.rawTx.get
      (sweepHash paddingHost (((payingChain []).enqueue (payment 6#8)
        (6#8 :: padding)).inner.nextCtx paddingHost 10#64 0#32)) = none := by
  have hother : ¬ 6#256 = sweepHash paddingHost
      ((payingChain []).inner.nextCtx paddingHost 10#64 0#32) := by
    decide +kernel
  rw [rawTx_padded]
  exact if_neg hother

theorem produce_padded (padding : Bytes) : ∃ b chain',
    ((payingChain []).enqueue (payment 6#8) (6#8 :: padding)).produceBlockAtView paddingHost
      10#64 0#32 = some (b, chain') := by
  have hmine : (mine paddingHost (payingChain []).inner [payment 6#8] 10#64 0#32).isSome := by
    decide +kernel
  obtain ⟨m, hmine⟩ := Option.isSome_iff_exists.mp hmine
  exact exists_produced hmine

theorem produced_fits_wire_payment : ∃ b chain',
    ((payingChain []).ingestAll paddingHost [(10#64, [6#8])]).produceBlockAtView paddingHost
      10#64 0#32 = some (b, chain') ∧
    FitsWire (chain'.wireBlockFrom b) [payment 6#8] := by
  obtain ⟨b, chain', hproduce⟩ := produce_padded []
  have hsigns : ∀ key, (payingChain []).proposerKey = some key →
      ∀ hash, (key.signPrehash hash).length = MAX_SIG_BYTES := by
    intro key hkey hash
    cases hkey
    simp [ProposerKey.devnet, beBytes, length_natBytes, MAX_SIG_BYTES]
  have hfits := produced_fits_wire_iff rfl (by decide) hsigns (ingest_padded [])
    (sweep_padded []) hproduce
  rw [mined_padded, minedRaws_padded] at hfits
  refine ⟨b, chain', ?_, hfits.mpr ?_⟩
  · rw [ingest_padded]
    exact hproduce
  · decide

-- One byte too many behind a payment that is admitted and mined.
theorem admitted_tx_exceeds_wire : ∃ b chain',
    ((payingChain []).ingestAll paddingHost
      [(10#64, 6#8 :: List.replicate Network.MAX_TX_BYTES 0#8)]).produceBlockAtView paddingHost
        10#64 0#32 = some (b, chain') ∧
    Network.decode (Network.encode (chain'.wireBlockFrom b)) ≠ .ok (chain'.wireBlockFrom b) ∧
    RuntimeWasm.decode (Network.encode (chain'.wireBlockFrom b)) ≠
      .ok (chain'.wireBlockFrom b) := by
  obtain ⟨b, chain', hproduce⟩ := produce_padded (List.replicate Network.MAX_TX_BYTES 0#8)
  have hraws := rawTxs_produced (sweep_padded _) hproduce
  rw [minedRaws_padded] at hraws
  have hlong : ¬ Network.Fits Network.MAX_TX_BYTES (chain'.wireBlockFrom b) := by
    intro hfits
    have hshort := hfits.rawTxs _ (by rw [hraws]; exact List.mem_singleton_self _)
    rw [List.length_cons, List.length_replicate] at hshort
    exact absurd hshort (by decide)
  refine ⟨b, chain', ?_, ?_, ?_⟩
  · rw [ingest_padded]
    exact hproduce
  · intro hdecode
    exact hlong (Network.decode_ok_iff.mp hdecode).1
  · intro hdecode
    exact hlong (RuntimeWasm.decode_ok_iff.mp hdecode).1

end Ubi2.Rpc
