import Ubi2.Exec.Moves
import Ubi2.Rpc.Follow

namespace Ubi2.Rpc

open Ubi2.Runtime Ubi2.Lib Ubi2.Lib.Encode Ubi2.Exec

-- The transactions whose fee is charged, which are those a block stores.
def survivors (host : NodeHost) (ctx : BlockCtx) : List PendingTx → MemState → List PendingTx
  | [], _ => []
  | p :: pending, s =>
    (applyTx host.toHost ctx (kernelTxFromPending p) s).elim [] fun r =>
      (if r.1.isSome then [p] else []) ++ survivors host ctx pending r.2

-- Whether each dropped transaction finds no stream inflow of its sender to fold in.
def quietDrops (host : NodeHost) (ctx : BlockCtx) : List PendingTx → MemState → Bool
  | [], _ => true
  | p :: pending, s =>
    (applyTx host.toHost ctx (kernelTxFromPending p) s).elim true fun r =>
      (r.1.isSome || s.ledger.settleIncoming p.from_ ctx.timestamp = s.ledger) &&
        quietDrops host ctx pending r.2

-- The transactions that the next block stores.
def Chain.mined (host : NodeHost) (chain : Chain) (timestamp : U64) (view : U32) :
    List PendingTx :=
  survivors host (chain.inner.nextCtx host timestamp view) chain.inner.mempool
    chain.inner.start.state

def sweepLogs (host : NodeHost) (ctx : BlockCtx) (s : MemState) : List TxLog :=
  let scan := sweepSybilScan host s ctx.blockHash ctx.number
  scan.1 ++ (sweepFinalize host scan.2 ctx.number ctx.timestamp).1

section
variable {host : NodeHost} {ctx : BlockCtx} {number : Nat}

theorem mineSweeps_state (m : Mined) :
    (mineSweeps host ctx number m).state = runSweeps host.toHost ctx m.state := by
  rw [runSweeps, ← sweepSybilScan_state, ← sweepFinalize_state, mineSweeps]
  split_ifs <;> rfl

theorem mineSweeps_stored (m : Mined) :
    (mineSweeps host ctx number m).stored = m.stored ++
      if sweepLogs host ctx m.state = [] then []
      else [sweepTx host ctx number m.stored.length (sweepLogs host ctx m.state)] := by
  rw [mineSweeps]
  split_ifs with hlogs hlogs' hlogs'
  · rw [List.append_nil]
  · exact absurd hlogs hlogs'
  · exact absurd hlogs' hlogs
  · rfl

-- A transaction leaves one stored transaction under its hash, or is dropped and leaves
-- none.
theorem mineTx_of_some {p : PendingTx} {m : Mined} {o : OpOutcome} {s : MemState}
    (h : applyTx host.toHost ctx (kernelTxFromPending p) m.state = some (some o, s))
    (number i : Nat) :
    ∃ (m' : Mined) (tx : StoredTx), mineTx host ctx number i p m = some m' ∧ m'.state = s ∧
      tx.hash = p.hash ∧ m'.stored = m.stored ++ [tx] := by
  rw [mineTx, h]
  exact ⟨_, minedTx ctx number i p o _, rfl, rfl, rfl, rfl⟩

theorem mineTx_of_none {p : PendingTx} {m : Mined} {s : MemState}
    (h : applyTx host.toHost ctx (kernelTxFromPending p) m.state = some (none, s))
    (i : Nat) : mineTx host ctx number i p m = some { m with state := s } := by
  rw [mineTx, h]
  rfl

-- A dropped transaction without inflow leaves the state as it was.
theorem state_of_quiet_drop {p : PendingTx} {s s' : MemState}
    (h : applyTx host.toHost ctx (kernelTxFromPending p) s = some (none, s'))
    (hquiet : s.ledger.settleIncoming p.from_ ctx.timestamp = s.ledger) : s' = s := by
  rcases applyTx_cases h with ⟨e, l, hfee, -, rfl⟩ | ⟨_, _, _, _, -, -, ho, -⟩
  · have hl : (s.ledger.chargeFee p.from_ p.kind.gas ctx.timestamp).2 = l :=
      congrArg Prod.snd hfee
    have herr : (s.ledger.chargeFee p.from_ p.kind.gas ctx.timestamp).1 = .error e :=
      congrArg Prod.fst hfee
    rw [Ledger.chargeFee, hquiet] at hl herr
    dsimp only at hl herr
    split_ifs at hl herr
    rw [← hl]
  · cases ho

-- Mining the survivors alone leads to the same state and stores the same hashes, when
-- the drops were quiet.
theorem mineTxs_survivors {pending : List PendingTx} {m m' : Mined} {i : Nat} (j : Nat)
    (m₂ : Mined)
    (h : mineTxs host ctx number i pending m = some m')
    (hquiet : quietDrops host ctx pending m.state) (hstate : m₂.state = m.state) :
    ∃ xs m₂' ys,
      mineTxs host ctx number j (survivors host ctx pending m.state) m₂ = some m₂' ∧
      m₂'.state = m'.state ∧ m'.stored = m.stored ++ xs ∧ m₂'.stored = m₂.stored ++ ys ∧
      xs.map StoredTx.hash = (survivors host ctx pending m.state).map PendingTx.hash ∧
      ys.map StoredTx.hash = (survivors host ctx pending m.state).map PendingTx.hash := by
  induction pending generalizing m m₂ i j with
  | nil =>
    cases h
    exact ⟨[], m₂, [], rfl, hstate, by simp, by simp, rfl, rfl⟩
  | cons p pending ih =>
    rw [mineTxs] at h
    rw [quietDrops] at hquiet
    rw [survivors]
    cases happly : applyTx host.toHost ctx (kernelTxFromPending p) m.state with
    | none => simp [mineTx, happly] at h
    | some r =>
      obtain ⟨o, s⟩ := r
      rw [happly, Option.elim_some] at hquiet
      rw [Option.elim_some]
      obtain ⟨hdrop, hquiet⟩ := Bool.and_eq_true_iff.mp hquiet
      cases o with
      | none =>
        rw [mineTx_of_none happly, Option.bind_some] at h
        have hs : s = m.state := state_of_quiet_drop happly (by simpa using hdrop)
        exact ih j m₂ h hquiet (hstate.trans hs.symm)
      | some o =>
        obtain ⟨m₁, tx, hmine, rfl, htx, hstored⟩ := mineTx_of_some happly number i
        rw [hmine, Option.bind_some] at h
        have happly₂ : applyTx host.toHost ctx (kernelTxFromPending p) m₂.state =
            some (some o, m₁.state) := hstate ▸ happly
        obtain ⟨m₂₁, tx₂, hmine₂, hstate₂, htx₂, hstored₂⟩ :=
          mineTx_of_some happly₂ number j
        obtain ⟨xs, m₂', ys, hrest, hstate', hxs, hys, hxs', hys'⟩ := ih (j + 1) m₂₁ h hquiet hstate₂
        simp only [Option.isSome_some, if_true, List.singleton_append]
        refine ⟨tx :: xs, m₂', tx₂ :: ys, ?_, hstate', ?_, ?_, ?_, ?_⟩
        · rw [mineTxs, hmine₂, Option.bind_some]
          exact hrest
        · simp [hxs, hstored]
        · simp [hys, hstored₂]
        · simp [htx, hxs']
        · simp [htx₂, hys']

-- Mining stores one transaction for each survivor, in order.
theorem mineTxs_stored {pending : List PendingTx} {m m' : Mined} {i : Nat}
    (h : mineTxs host ctx number i pending m = some m') :
    m'.stored.map StoredTx.hash = m.stored.map StoredTx.hash ++
      (survivors host ctx pending m.state).map PendingTx.hash := by
  induction pending generalizing m i with
  | nil =>
    cases h
    simp [survivors]
  | cons p pending ih =>
    rw [mineTxs] at h
    rw [survivors]
    cases happly : applyTx host.toHost ctx (kernelTxFromPending p) m.state with
    | none => simp [mineTx, happly] at h
    | some r =>
      obtain ⟨o, s⟩ := r
      rw [Option.elim_some]
      cases o with
      | none =>
        rw [mineTx_of_none happly, Option.bind_some] at h
        exact ih h
      | some o =>
        obtain ⟨m₁, tx, hmine, rfl, htx, hstored⟩ := mineTx_of_some happly number i
        rw [hmine, Option.bind_some] at h
        rw [ih h, hstored]
        simp [htx]

theorem mem_survivors {pending : List PendingTx} {s : MemState} {p : PendingTx}
    (h : p ∈ survivors host ctx pending s) : p ∈ pending := by
  induction pending generalizing s with
  | nil => exact h
  | cons q pending ih =>
    rw [survivors] at h
    cases happly : applyTx host.toHost ctx (kernelTxFromPending q) s with
    | none => simp [happly] at h
    | some r =>
      rw [happly, Option.elim_some] at h
      rcases List.mem_append.mp h with h | h
      · split_ifs at h with hsome
        · exact List.mem_singleton.mp h ▸ List.mem_cons_self
        · cases h
      · exact List.mem_cons_of_mem _ (ih h)

-- Seeding the validators of genesis early makes no difference to the first block.
theorem blockStart_seed (n : Nat) (s : MemState) :
    blockStart (n + 1) (seedEpochValidators n s) = blockStart (n + 1) s := by
  by_cases h : n = 0 ∧ s.epochValidators = []
  · rw [seedEpochValidators, if_pos h, h.1]
    rfl
  · rw [seedEpochValidators, if_neg h]

theorem seedEpochValidators_idem (n : Nat) (s : MemState) :
    seedEpochValidators n (seedEpochValidators n s) = seedEpochValidators n s := by
  by_cases h : n = 0 ∧ s.epochValidators = []
  · simp only [seedEpochValidators, if_pos h]
    split_ifs <;> rfl
  · simp only [seedEpochValidators, if_neg h]

-- The bytes of a transaction are cached under its hash and decode to it, which is how
-- admission to the mempool leaves them.
def Cached (host : NodeHost) (rawTx : RawTxs) (p : PendingTx) : Prop :=
  ∃ raw, rawTx.get p.hash = some (p.hash, raw) ∧ host.decodePendingTx raw = some p

def rawsOf (rawTx : RawTxs) (hashes : List Hash) : List Bytes :=
  hashes.filterMap fun hash => (rawTx.get hash).map Prod.snd

theorem rawTxsForBlock_eq (chain : Chain) (b : Block) :
    chain.rawTxsForBlock b = rawsOf chain.inner.rawTx (b.txs.map StoredTx.hash) := by
  rw [Chain.rawTxsForBlock, rawsOf, List.filterMap_map]
  rfl

theorem decode_rawsOf {rawTx : RawTxs} {pending : List PendingTx}
    (h : ∀ p ∈ pending, Cached host rawTx p) :
    (rawsOf rawTx (pending.map PendingTx.hash)).mapM host.decodePendingTx = some pending := by
  induction pending with
  | nil => rfl
  | cons p pending ih =>
    obtain ⟨raw, hget, hdecode⟩ := h p (by simp)
    have hrest := ih fun q hq => h q (List.mem_cons_of_mem _ hq)
    simp only [rawsOf, List.map_cons, List.filterMap_cons, hget, Option.map_some] at hrest ⊢
    simp only [List.mapM_cons, hdecode, hrest]
    rfl

end

-- Two nodes with the same canonical chain and the same state.
structure SameParent (p f : Chain) : Prop where
  blocks : f.inner.blocks = p.inner.blocks
  state : f.inner.state = p.inner.state

-- Two nodes with the same head and, once the validators of genesis are seeded, the same
-- state.
structure SameHead (p f : Chain) : Prop where
  head : f.head = p.head
  state : f.ensureEpochValidatorsSeeded.inner.state = p.ensureEpochValidatorsSeeded.inner.state

-- Two nodes whose heads a block above them cannot tell apart, and whose states are the
-- same once the validators of genesis are seeded.
structure SameTip (p f : Chain) : Prop where
  number : f.head.number = p.head.number
  hash : f.head.hash = p.head.hash
  timestamp : f.head.timestamp = p.head.timestamp
  state : f.ensureEpochValidatorsSeeded.inner.state = p.ensureEpochValidatorsSeeded.inner.state

-- What the header of the next block needs: a later timestamp, a view in range and an
-- author that is scheduled for it.
structure Presentable (p : Chain) (key : ProposerKey) (timestamp : U64) (view : U32)
    (validatorOverride : Option Address) : Prop where
  timely : p.head.timestamp < timestamp
  inView : view < VIEW_MAX
  scheduled :
    let v := effectiveValidatorSet p.ensureEpochValidatorsSeeded.inner.state validatorOverride
    v[proposerIndex (p.head.number + 1) view v.length]? = some key.address

-- A dropped transaction has no inflow to fold in, and no sweep has anything to log when
-- one is dropped.
structure HarmlessDrops (host : NodeHost) (p : Chain) (timestamp : U64) (view : U32) :
    Prop where
  quiet : quietDrops host (p.inner.nextCtx host timestamp view) p.inner.mempool
    p.inner.start.state
  sweepless :
    survivors host (p.inner.nextCtx host timestamp view) p.inner.mempool
      p.inner.start.state = p.inner.mempool ∨
    ∀ m, mineTxs host (p.inner.nextCtx host timestamp view) (p.head.number + 1) 0
        p.inner.mempool p.inner.start = some m →
      sweepLogs host (p.inner.nextCtx host timestamp view) m.state = []

-- What production relies on: signatures that recover to their signer, cached bytes for
-- what the mempool holds, and none under the hash of the system's transaction.
structure Producer (host : NodeHost) (p : Chain) (key : ProposerKey) (timestamp : U64)
    (view : U32) : Prop where
  keyed : p.proposerKey = some key
  signs : ∀ hash, host.recoverProposer hash (key.signPrehash hash) = some key.address
  cached : ∀ tx ∈ p.inner.mempool, Cached host p.inner.rawTx tx
  sweep : p.inner.rawTx.get (sweepHash host (p.inner.nextCtx host timestamp view)) = none

-- The follower applies the block as it was gossiped and ends in the producer's state.
def Follows (host : NodeHost) (f p' : Chain) (b : Block)
    (validatorOverride : Option Address) : Prop :=
  ∃ b' f', f.validateAndApplyBlock host (p'.wireBlockFrom b) validatorOverride =
    some (.ok b', f') ∧ f'.inner.state = p'.inner.state

section
variable {host : NodeHost} {p p' f : Chain} {key : ProposerKey} {timestamp : U64} {view : U32}
variable {validatorOverride : Option Address} {b : Block}

theorem SameParent.head (h : SameParent p f) : f.head = p.head := by
  simp only [Chain.head, Inner.head, h.blocks]

theorem SameParent.sameHead (h : SameParent p f) : SameHead p f := by
  refine ⟨h.head, ?_⟩
  simp only [Chain.ensureEpochValidatorsSeeded, h.head, h.state]

theorem SameHead.sameTip (h : SameHead p f) : SameTip p f := by
  obtain ⟨hhead, hstate⟩ := h
  exact ⟨by rw [hhead], by rw [hhead], by rw [hhead], hstate⟩

namespace SameTip

theorem refl (p : Chain) : SameTip p p := ⟨rfl, rfl, rfl, rfl⟩

theorem symm (h : SameTip p f) : SameTip f p :=
  ⟨h.number.symm, h.hash.symm, h.timestamp.symm, h.state.symm⟩

theorem trans {q : Chain} (h : SameTip p q) (h' : SameTip q f) : SameTip p f :=
  ⟨h'.number.trans h.number, h'.hash.trans h.hash, h'.timestamp.trans h.timestamp,
    h'.state.trans h.state⟩

theorem start (h : SameTip p f) :
    f.ensureEpochValidatorsSeeded.inner.start.state = p.inner.start.state := by
  have hnumber : f.ensureEpochValidatorsSeeded.inner.head.number = p.inner.head.number := h.number
  have hseed : f.ensureEpochValidatorsSeeded.inner.state =
      seedEpochValidators p.inner.head.number p.inner.state := h.state
  simp only [Inner.start, hseed, hnumber, blockStart_seed]

theorem nextCtx (h : SameTip p f) :
    f.ensureEpochValidatorsSeeded.inner.nextCtx host timestamp view =
      p.inner.nextCtx host timestamp view := by
  have hnumber : f.ensureEpochValidatorsSeeded.inner.head.number = p.inner.head.number := h.number
  have hhash : f.ensureEpochValidatorsSeeded.inner.head.hash = p.inner.head.hash := h.hash
  rw [Inner.nextCtx, hnumber, hhash, Inner.nextCtx]

end SameTip

namespace SameHead

theorem refl (p : Chain) : SameHead p p := ⟨rfl, rfl⟩

theorem symm (h : SameHead p f) : SameHead f p := ⟨h.head.symm, h.state.symm⟩

theorem trans {q : Chain} (h : SameHead p q) (h' : SameHead q f) : SameHead p f :=
  ⟨h'.head.trans h.head, h'.state.trans h.state⟩

theorem seeded (p : Chain) : SameHead p p.ensureEpochValidatorsSeeded :=
  ⟨rfl, seedEpochValidators_idem _ _⟩

theorem presentable_iff (h : SameHead p f) :
    Presentable f key timestamp view validatorOverride ↔
      Presentable p key timestamp view validatorOverride := by
  constructor
  · rintro ⟨htimely, hinView, hscheduled⟩
    exact ⟨h.head ▸ htimely, hinView, h.state ▸ h.head ▸ hscheduled⟩
  · rintro ⟨htimely, hinView, hscheduled⟩
    exact ⟨h.head.symm ▸ htimely, hinView, h.state.symm ▸ h.head.symm ▸ hscheduled⟩

end SameHead

-- What a producer that was handed the mempool makes of it.
theorem produce_eq_some (hkey : p.proposerKey = some key)
    (h : p.produceBlockAtView host timestamp view = some (b, p')) :
    ∃ m, mineTxs host (p.inner.nextCtx host timestamp view) (p.head.number + 1) 0
        p.inner.mempool p.inner.start = some m ∧
      b = mineBlock host (some key) p.head p.inner.mempool.length timestamp view none
        (mineSweeps host (p.inner.nextCtx host timestamp view) (p.head.number + 1) m) ∧
      p'.inner.state = runSweeps host.toHost (p.inner.nextCtx host timestamp view) m.state ∧
      p'.inner.rawTx = p.inner.rawTx := by
  obtain ⟨m', hmine, hb, rfl⟩ := executeBlock_eq_some h
  rw [mine, Option.map_eq_some_iff] at hmine
  obtain ⟨m, hm, rfl⟩ := hmine
  refine ⟨m, hm, ?_, mineSweeps_state m, rfl⟩
  rw [hb, ← hkey]
  rfl

-- A block stores the survivors, and the system's transaction after them.
theorem stored_hashes (host : NodeHost) (ctx : BlockCtx) (number : Nat) {m : Mined}
    {kept : List PendingTx}
    (hstored : m.stored.map StoredTx.hash = kept.map PendingTx.hash) :
    ∃ sweep : List Hash, (∀ hash ∈ sweep, hash = sweepHash host ctx) ∧
      (mineSweeps host ctx number m).stored.map StoredTx.hash =
        kept.map PendingTx.hash ++ sweep := by
  rw [mineSweeps_stored, List.map_append, hstored]
  refine ⟨_, ?_, rfl⟩
  intro hash hmem
  split_ifs at hmem
  · cases hmem
  · exact List.mem_singleton.mp hmem

-- The root commits to the survivors and nothing else, where no sweep is logged after a
-- drop.
theorem root_hashes (host : NodeHost) (ctx : BlockCtx) (number : Nat) {m : Mined}
    {pending kept : List PendingTx}
    (hstored : m.stored.map StoredTx.hash = kept.map PendingTx.hash)
    (hkept : kept.length ≤ pending.length)
    (hdrops : kept = pending ∨ sweepLogs host ctx m.state = []) :
    ((mineSweeps host ctx number m).stored.take (min pending.length
      (mineSweeps host ctx number m).stored.length)).map StoredTx.hash =
        kept.map PendingTx.hash := by
  have hlen : m.stored.length = kept.length := by
    simpa using congrArg List.length hstored
  rw [mineSweeps_stored, ← hstored]
  congr 1
  rcases hdrops with rfl | hlogs
  · rw [List.length_append, hlen, Nat.min_eq_left (Nat.le_add_right _ _), ← hlen,
      List.take_left]
  · rw [if_pos hlogs, List.append_nil, hlen, Nat.min_eq_right hkept, ← hlen, List.take_length]

theorem length_survivors_le {ctx : BlockCtx} (pending : List PendingTx) (s : MemState) :
    (survivors host ctx pending s).length ≤ pending.length := by
  induction pending generalizing s with
  | nil => exact le_refl _
  | cons q pending ih =>
    rw [survivors]
    cases happly : applyTx host.toHost ctx (kernelTxFromPending q) s with
    | none => simp
    | some r =>
      have := ih r.2
      rw [Option.elim_some, List.length_append, List.length_cons]
      split_ifs
      · rw [List.length_singleton]
        omega
      · rw [List.length_nil]
        omega

-- A hash with nothing under it contributes no bytes.
theorem rawsOf_append {rawTx : RawTxs} {hashes rest : List Hash}
    (h : ∀ hash ∈ rest, rawTx.get hash = none) :
    rawsOf rawTx (hashes ++ rest) = rawsOf rawTx hashes := by
  have hrest : rest.filterMap (fun hash => (rawTx.get hash).map Prod.snd) = [] := by
    rw [List.filterMap_eq_nil_iff]
    intro hash hmem
    rw [h hash hmem]
    rfl
  rw [rawsOf, List.filterMap_append, hrest, List.append_nil, rawsOf]

theorem mineBlock_txs_hash {key : Option ProposerKey} {parent : Block} {count : Nat}
    {proposerOverride : Option (Address × Bytes)} {m : Mined} :
    (mineBlock host key parent count timestamp view proposerOverride m).txs.map StoredTx.hash =
      m.stored.map StoredTx.hash := by
  simp [mineBlock, Function.comp_def]

-- The bytes a producer gossips decode to the survivors.
theorem decode_wire {m : Mined} {kept : List PendingTx}
    (hproducer : Producer host p key timestamp view)
    (hkept : ∀ tx ∈ kept, tx ∈ p.inner.mempool)
    (hstored : m.stored.map StoredTx.hash = kept.map PendingTx.hash)
    (hraw : p'.inner.rawTx = p.inner.rawTx)
    (hb : b.txs.map StoredTx.hash =
      (mineSweeps host (p.inner.nextCtx host timestamp view) (p.head.number + 1) m).stored.map
        StoredTx.hash) :
    (p'.wireBlockFrom b).rawTxs.mapM host.decodePendingTx = some kept := by
  obtain ⟨sweep, hsweep, hall⟩ := stored_hashes host
    (p.inner.nextCtx host timestamp view) (p.head.number + 1) hstored
  have hnone : ∀ hash ∈ sweep, p.inner.rawTx.get hash = none :=
    fun hash hmem => hsweep hash hmem ▸ hproducer.sweep
  have hraws : (p'.wireBlockFrom b).rawTxs = rawsOf p.inner.rawTx (kept.map PendingTx.hash) := by
    rw [Chain.wireBlockFrom, rawTxsForBlock_eq, hb, hall, hraw, rawsOf_append hnone]
  rw [hraws]
  exact decode_rawsOf fun tx hmem => hproducer.cached tx (hkept tx hmem)

-- The header of a produced block passes a follower's checks exactly when it is
-- presentable.
theorem headerError_produced (validatorOverride : Option Address) (hsame : SameTip p f)
    (hkeyed : p.proposerKey = some key)
    (hsigns : ∀ hash, host.recoverProposer hash (key.signPrehash hash) = some key.address)
    (hproduce : p.produceBlockAtView host timestamp view = some (b, p')) :
    headerError host f.head f.ensureEpochValidatorsSeeded.inner.state validatorOverride
      (p'.wireBlockFrom b) = none ↔ Presentable p key timestamp view validatorOverride := by
  obtain ⟨m, -, hb, -, -⟩ := produce_eq_some hkeyed hproduce
  have hhash : (p'.wireBlockFrom b).hash host = b.hash := by rw [hb]; rfl
  have hsig : b.proposerSig = key.signPrehash b.hash := by rw [hb]; rfl
  have hauthor : b.proposer = key.address := by rw [hb]; rfl
  have hnumber : b.number = p.head.number + 1 := by rw [hb]; rfl
  have hparent : b.parentHash = p.head.hash := by rw [hb]; rfl
  have htime : b.timestamp = timestamp := by rw [hb]; rfl
  have hview : b.view = view := by rw [hb]; rfl
  have hrecover : host.recoverProposer ((p'.wireBlockFrom b).hash host) b.proposerSig =
      some b.proposer := by rw [hhash, hsig, hauthor, hsigns]
  rw [headerError_eq_none, hsame.number, hsame.hash, hsame.timestamp, hsame.state]
  simp only [Chain.wireBlockFrom] at hrecover ⊢
  rw [hnumber, hparent, htime, hview]
  constructor
  · rintro ⟨-, -, htimely, hinView, hscheduled, -⟩
    exact ⟨htimely, hinView, hauthor ▸ hscheduled⟩
  · rintro ⟨htimely, hinView, hscheduled⟩
    exact ⟨rfl, rfl, htimely, hinView, hauthor ▸ hscheduled, by simpa [hnumber, hparent, htime, hview] using hrecover⟩

-- Running the survivors on a node at the same tip mines the block that was mined.
theorem follower_mines {m : Mined} {stamp : Option (Address × Bytes)} {by_ : Option ProposerKey}
    (hsame : SameTip p f) (hdrops : HarmlessDrops host p timestamp view)
    (hm : mineTxs host (p.inner.nextCtx host timestamp view) (p.head.number + 1) 0
      p.inner.mempool p.inner.start = some m)
    (hb : b = mineBlock host by_ p.head p.inner.mempool.length timestamp view stamp
      (mineSweeps host (p.inner.nextCtx host timestamp view) (p.head.number + 1) m)) :
    ∃ m₂, mine host f.ensureEpochValidatorsSeeded.inner (p.mined host timestamp view) timestamp
        view = some m₂ ∧
      m₂.state = runSweeps host.toHost (p.inner.nextCtx host timestamp view) m.state ∧
      computeTxsRoot host (m₂.stored.take (min (p.mined host timestamp view).length
        m₂.stored.length)) = b.txsRoot ∧
      b.stateRoot = stateRoot m₂.state ∧
      txsRootOf host ((p.mined host timestamp view).map PendingTx.hash) = b.txsRoot := by
  obtain ⟨xs, m₂, ys, hmine, hstate, hxs, hys, hxs', hys'⟩ :=
    mineTxs_survivors 0 f.ensureEpochValidatorsSeeded.inner.start hm hdrops.quiet
      hsame.start
  have hxs : m.stored = xs := hxs
  have hys : m₂.stored = ys := hys
  subst hxs hys
  have hnumber : f.ensureEpochValidatorsSeeded.inner.head.number = p.head.number := hsame.number
  have hroot := root_hashes host (p.inner.nextCtx host timestamp view)
    (p.head.number + 1) hxs'
    (length_survivors_le p.inner.mempool p.inner.start.state)
    (hdrops.sweepless.imp_right fun hlogs => hlogs m hm)
  have hcommitted : txsRootOf host ((p.mined host timestamp view).map PendingTx.hash) =
      b.txsRoot := by
    rw [hb, mineBlock]
    simp only [computeTxsRoot, hroot]
    rfl
  refine ⟨mineSweeps host (p.inner.nextCtx host timestamp view) (p.head.number + 1) m₂, ?_,
    ?_, ?_, ?_, hcommitted⟩
  · rw [mine, hsame.nextCtx, hnumber, Chain.mined, hmine]
    rfl
  · rw [mineSweeps_state, hstate]
  · have hroot₂ := root_hashes host (p.inner.nextCtx host timestamp view)
      (p.head.number + 1) hys' (le_refl _) (Or.inl rfl)
    rw [← hcommitted, computeTxsRoot, Chain.mined, hroot₂]
  · rw [hb, mineBlock, mineSweeps_state, mineSweeps_state, hstate]

-- A block whose drops were harmless applies on every node at the tip it was mined on, from
-- the bytes of the survivors, and leads to the state it was mined to.
theorem applies_of_mined {m : Mined} {stamp : Option (Address × Bytes)}
    {by_ : Option ProposerKey} {w : WireBlock} (hsame : SameTip p f)
    (hdrops : HarmlessDrops host p timestamp view)
    (hm : mineTxs host (p.inner.nextCtx host timestamp view) (p.head.number + 1) 0
      p.inner.mempool p.inner.start = some m)
    (hb : b = mineBlock host by_ p.head p.inner.mempool.length timestamp view stamp
      (mineSweeps host (p.inner.nextCtx host timestamp view) (p.head.number + 1) m))
    (hwire : w = { w with
      number := b.number, parentHash := b.parentHash, timestamp := b.timestamp, view := b.view
      txsRoot := b.txsRoot, stateRoot := b.stateRoot, proposer := b.proposer
      proposerSig := b.proposerSig })
    (hheader : headerError host f.head f.ensureEpochValidatorsSeeded.inner.state
      validatorOverride w = none)
    (hdecode : w.rawTxs.mapM host.decodePendingTx = some (p.mined host timestamp view)) :
    ∃ b' f', f.validateAndApplyBlock host w validatorOverride = some (.ok b', f') ∧
      f'.inner.state = runSweeps host.toHost (p.inner.nextCtx host timestamp view) m.state := by
  obtain ⟨m₂, hmine, hstate₂, htxs, hroot, -⟩ := follower_mines hsame hdrops hm hb
  have hnumber : b.number = p.head.number + 1 := by rw [hb]; rfl
  have hparent : b.parentHash = p.head.hash := by rw [hb]; rfl
  have htime : b.timestamp = timestamp := by rw [hb]; rfl
  have hview : b.view = view := by rw [hb]; rfl
  have hconfirms : Chain.confirms host w
      (mineBlock host f.proposerKey f.head (p.mined host timestamp view).length w.timestamp
        w.view (some (w.proposer, w.proposerSig)) m₂) := by
    rw [hwire]
    refine ⟨hroot.symm, htxs, ?_⟩
    simp only [mineBlock, stampOf, WireBlock.hash, hsame.number, hsame.hash, htxs, ← hroot,
      hnumber, hparent]
  obtain ⟨b', f', hvalidate, hstate'⟩ := validateAndApplyBlock_of_confirms hheader hdecode
    (by rw [hwire]; simp only [htime, hview]; exact hmine) hconfirms
  exact ⟨b', f', hvalidate, by rw [hstate', hstate₂]⟩

-- Where every drop is harmless, a follower applies the block of a producer and ends in
-- its state exactly when the block is presentable.
theorem follows_iff (hsame : SameParent p f) (hproducer : Producer host p key timestamp view)
    (hdrops : HarmlessDrops host p timestamp view)
    (hproduce : p.produceBlockAtView host timestamp view = some (b, p')) :
    Follows host f p' b validatorOverride ↔
      Presentable p key timestamp view validatorOverride := by
  have htip : SameTip p f := hsame.sameHead.sameTip
  have hheader := headerError_produced validatorOverride htip hproducer.keyed hproducer.signs
    hproduce
  obtain ⟨m, hm, hb, hstate, hraw⟩ := produce_eq_some hproducer.keyed hproduce
  constructor
  · rintro ⟨b', f', hvalidate, -⟩
    rcases validateAndApplyBlock_cases hvalidate with ⟨e, he, -⟩ | ⟨_, _, _, -, hnone, -⟩
    · cases he
    · exact hheader.mp hnone
  · intro hpresentable
    have hdecode := decode_wire (b := b) hproducer (fun tx hmem => mem_survivors hmem)
      (mineTxs_stored hm) hraw (by rw [hb, mineBlock_txs_hash])
    obtain ⟨b', f', hvalidate, hstate'⟩ := applies_of_mined htip hdrops hm hb rfl
      (hheader.mpr hpresentable) hdecode
    exact ⟨b', f', hvalidate, hstate'.trans hstate.symm⟩

end

-- The signatures of the tests recover to the address that made them.
theorem recover_devnet (address : Address) (hash : Hash) :
    devnetHost.recoverProposer hash ((ProposerKey.devnet address).signPrehash hash) =
      some address := by
  have hhash : (beBytes hash).length = 32 := length_natBytes _ _
  have haddress : (beBytes address).length = 20 := length_natBytes _ _
  have hback : Decode.ofBytes (beBytes address) = address.toNat :=
    Decode.ofBytes_natBytes address.isLt
  simp only [devnetHost, ProposerKey.devnet, List.append_assoc]
  rw [if_pos, List.drop_left' hhash, List.take_left' haddress, hback, BitVec.ofNat_toNat,
    BitVec.setWidth_eq]
  exact ⟨by simp [hhash, haddress], List.take_left' hhash⟩

-- A payment of one unit, by the account the byte names, as the byte encodes it.
def payment (payer : U8) : PendingTx where
  hash := payer.setWidth 256
  from_ := payer.setWidth 160
  txTo := 7#160
  value := 1#128
  nonce := 0#64
  input := []
  kind := .Transfer 7#160 1#128
  txType := 0#8
  maxFeePerGas := none
  maxPriorityFeePerGas := none

def paymentHost : NodeHost where
  toHost := devnetHost.toHost
  decodePendingTx := fun raw =>
    match raw with
    | [payer] => some (payment payer)
    | _ => none
  recoverProposer := devnetHost.recoverProposer

-- The first account holds one unit of account and streams to the second.
def streamingState : MemState where
  ledger := ((({} : Ledger).put
    { ({} : Ledger).account 6#160 with settledBalance := UBI }).openStream 6#160 5#160
      1000#128 1000000#128 0#64).2

def payingChain (payers : List U8) : Chain :=
  let genesis := Chain.new paymentHost (some (.devnet 1#160)) 0#64
  { genesis with
    inner := { genesis.inner with
      state := streamingState
      mempool := payers.map payment
      rawTx := Table.ofList _ (payers.map fun payer => ((payment payer).hash, [payer])) } }

theorem producer_payingChain (payers : List U8)
    (hcached : ∀ payer ∈ payers,
      (payingChain payers).inner.rawTx.get (payment payer).hash =
        some ((payment payer).hash, [payer]))
    (hsweep : (payingChain payers).inner.rawTx.get (sweepHash paymentHost
      ((payingChain payers).inner.nextCtx paymentHost 10#64 0#32)) = none) :
    Producer paymentHost (payingChain payers) (.devnet 1#160) 10#64 0#32 := by
  have hrecover : paymentHost.recoverProposer = devnetHost.recoverProposer := rfl
  refine ⟨rfl, ?_, ?_, hsweep⟩
  · intro hash
    rw [hrecover, recover_devnet]
    rfl
  intro tx htx
  have htx : tx ∈ payers.map payment := htx
  obtain ⟨payer, hpayer, rfl⟩ := List.mem_map.mp htx
  exact ⟨[payer], hcached payer hpayer, rfl⟩

-- The payment of an account with nothing is dropped and leaves no trace.
theorem follows_iff_quiet : ∃ b p',
    (payingChain [6#8, 8#8]).produceBlockAtView paymentHost 10#64 0#32 = some (b, p') ∧
      b.txs.length = 1 ∧ Follows paymentHost (payingChain []) p' b (some 1#160) := by
  have hproduce : ((payingChain [6#8, 8#8]).produceBlockAtView paymentHost 10#64 0#32).map
      (fun r => r.1.txs.length) = some 1 := by decide +kernel
  obtain ⟨⟨b, p'⟩, hproduce, hlen⟩ := Option.map_eq_some_iff.mp hproduce
  have hlogs : (mineTxs paymentHost ((payingChain [6#8, 8#8]).inner.nextCtx paymentHost 10#64 0#32)
      1 0 (payingChain [6#8, 8#8]).inner.mempool (payingChain [6#8, 8#8]).inner.start).map
      (fun m => sweepLogs paymentHost
        ((payingChain [6#8, 8#8]).inner.nextCtx paymentHost 10#64 0#32) m.state) = some [] := by
    decide +kernel
  have hdrops : HarmlessDrops paymentHost (payingChain [6#8, 8#8]) 10#64 0#32 := by
    refine ⟨by decide +kernel, Or.inr ?_⟩
    intro m hm
    have hm : mineTxs paymentHost
        ((payingChain [6#8, 8#8]).inner.nextCtx paymentHost 10#64 0#32)
        1 0 (payingChain [6#8, 8#8]).inner.mempool (payingChain [6#8, 8#8]).inner.start = some m := hm
    rw [hm] at hlogs
    simpa using hlogs
  have hproducer := producer_payingChain [6#8, 8#8] (by decide +kernel)
    (by decide +kernel)
  have hsame : SameParent (payingChain [6#8, 8#8]) (payingChain []) := ⟨rfl, rfl⟩
  exact ⟨b, p', hproduce, hlen, (follows_iff hsame hproducer hdrops hproduce).mpr
    ⟨by decide, by decide, by decide +kernel⟩⟩

-- The payment of an account with inflow but not enough of it is dropped, yet the inflow
-- is folded in: the block is presentable and no follower accepts it.
theorem not_follows_inflow : ∃ b p',
    SameParent (payingChain [5#8]) (payingChain []) ∧
      Producer paymentHost (payingChain [5#8]) (.devnet 1#160) 10#64 0#32 ∧
      Presentable (payingChain [5#8]) (.devnet 1#160) 10#64 0#32 (some 1#160) ∧
      (payingChain [5#8]).produceBlockAtView paymentHost 10#64 0#32 = some (b, p') ∧
      ¬ Follows paymentHost (payingChain []) p' b (some 1#160) := by
  have hrun : ((payingChain [5#8]).produceBlockAtView paymentHost 10#64 0#32).bind
      (fun r => ((payingChain []).validateAndApplyBlock paymentHost (r.2.wireBlockFrom r.1)
        (some 1#160)).map fun v => v.1.isOk) = some false := by decide +kernel
  obtain ⟨⟨b, p'⟩, hproduce, hrun⟩ := Option.bind_eq_some_iff.mp hrun
  have hproducer := producer_payingChain [5#8] (by decide +kernel)
    (by decide +kernel)
  refine ⟨b, p', ⟨rfl, rfl⟩, hproducer, ⟨by decide, by decide, by decide +kernel⟩, hproduce, ?_⟩
  rintro ⟨b', f', hvalidate, -⟩
  rw [hvalidate] at hrun
  cases hrun

end Ubi2.Rpc
