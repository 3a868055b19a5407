import Ubi2.Rpc.Admission
import Ubi2.Rpc.Replay
import Ubi2.Rpc.Restart

namespace Ubi2.Rpc

open Ubi2.Runtime Ubi2.Lib Ubi2.Lib.Encode Ubi2.Exec

-- What a node is led through: a submission, a block that extends its chain or competes with
-- it, a block of its own, a look at its validators, or a restart from its own snapshot.
inductive NodeStep where
  | submit (now : U64) (raw : Bytes)
  | apply (b : WireBlock)
  | consider (b : WireBlock)
  | produce (timestamp : U64) (view : U32)
  | consult
  | restart (chainId genesisTime : U64)

-- The raw transactions that a step hands to the node.
def NodeStep.raws : NodeStep → List Bytes
  | .submit _ raw => [raw]
  | .apply b => b.rawTxs
  | .consider b => b.rawTxs
  | _ => []

namespace Chain

section
variable (host : NodeHost) (parseU256 : String → Option U256) (validatorOverride : Option Address)

-- The raw transactions of a block that was applied, or led to a reorg, are kept. `none` is a
-- panic.
def nodeStep (chain : Chain) : NodeStep → Option Chain
  | .submit now raw => some (chain.ingestRawTx host now raw).2
  | .apply b =>
    match chain.validateAndApplyBlock host b validatorOverride with
    | none => none
    | some (.ok _, chain) => some (chain.cacheRawTxs host b.rawTxs)
    | some (.error _, chain) => some chain
  | .consider b =>
    match chain.considerCompetingBlock host b validatorOverride with
    | none => none
    | some (.ok (some _), chain) => some (chain.cacheRawTxs host b.rawTxs)
    | some (.ok none, chain) => some chain
    | some (.error _, chain) => some chain
  | .produce timestamp view => (chain.produceBlockAtView host timestamp view).map Prod.snd
  | .consult => some chain.ensureEpochValidatorsSeeded
  | .restart chainId genesisTime =>
    fromSnapshot host parseU256 chain.proposerKey (chain.exportSnapshot chainId genesisTime)

def nodeRun : Chain → List NodeStep → Option Chain
  | chain, [] => some chain
  | chain, a :: as => (chain.nodeStep host parseU256 validatorOverride a).bind (nodeRun · as)

end

-- A node at genesis, seeded with a state.
def genesis (host : NodeHost) (proposerKey : Option ProposerKey) (genesisTime : U64)
    (s : MemState) : Chain :=
  let chain := Chain.new host proposerKey genesisTime
  { chain with inner := { chain.inner with state := s } }

def withPool (chain : Chain) (pending : List PendingTx) : Chain :=
  { chain with inner := { chain.inner with mempool := pending } }

end Chain

-- A canonical block can be served again: it carries the transactions of its root, and is
-- accepted by every node at the tip that the blocks beneath it lead to.
structure Servable (host : NodeHost) (validatorOverride : Option Address)
    (genesis chain : Chain) (height : Nat) (b : Block) : Prop where
  root : Network.recomputeTxsRoot host (chain.wireBlockFrom b) = b.txsRoot
  accepted : ∃ parent,
    genesis.replay host validatorOverride (chain.servedBelow height) = some parent ∧
    ∀ f, SameTip parent f → ∃ b' f',
      f.validateAndApplyBlock host (chain.wireBlockFrom b) validatorOverride = some (.ok b', f')

-- The bytes of a transaction are the ones its hash is made from.
def Canonical (host : NodeHost) (raw : Bytes) : Prop :=
  ∀ p, host.decodePendingTx raw = some p → p.hash = host.keccak256 raw

-- A block that the chain takes has canonical transactions, and what it drops is harmless.
def CleanBlock (host : NodeHost) (validatorOverride : Option Address) (chain : Chain)
    (b : WireBlock) : Prop :=
  ∀ produced chain', chain.validateAndApplyBlock host b validatorOverride =
      some (.ok produced, chain') →
    (∀ raw ∈ b.rawTxs, Canonical host raw) ∧
    ∀ pending, b.rawTxs.mapM host.decodePendingTx = some pending →
      HarmlessDrops host (chain.ensureEpochValidatorsSeeded.withPool pending) b.timestamp b.view

def CleanBranch (host : NodeHost) (validatorOverride : Option Address) :
    Chain → List ForkBlockEntry → Prop
  | _, [] => True
  | chain, fb :: branch =>
    CleanBlock host validatorOverride chain fb.toWireBlock ∧
    ∀ produced chain', chain.validateAndApplyBlock host fb.toWireBlock validatorOverride =
        some (.ok produced, chain') →
      CleanBranch host validatorOverride (chain'.cacheRawTxs host fb.rawTxs) branch

-- The branch that a competing block leads to is clean from the state it starts on, and where
-- it starts on the head, that state is the head's.
def CleanReorg (host : NodeHost) (validatorOverride : Option Address) (chain : Chain)
    (b : WireBlock) : Prop :=
  let seeded := chain.ensureEpochValidatorsSeeded
  let stored := seeded.storeForkBlock { b with hash := b.hash host } seeded.finalizedHeight
  ∀ candidate s,
    bestCandidate stored.forkStore stored.inner chain.head.tipKey chain.finalizedHeight =
      some candidate →
    stored.recentStates.get candidate.caHeight = some (candidate.caHeight, s) →
    (candidate.caHeight = chain.head.number →
      seedEpochValidators candidate.caHeight s = seeded.inner.state) ∧
    CleanBranch host validatorOverride (stored.cut candidate.caHeight s) candidate.branch

-- What keeps a step from losing the bytes of a canonical block, or from making one that
-- cannot be replayed.
def CleanStep (host : NodeHost) (validatorOverride : Option Address) (chain : Chain) :
    NodeStep → Prop
  | .submit now raw => (chain.ingestRawTx host now raw).1.isOk → Canonical host raw
  | .apply b => CleanBlock host validatorOverride chain b
  | .consider b => CleanReorg host validatorOverride chain b
  | .produce timestamp view =>
    HarmlessDrops host chain timestamp view ∧
    ∃ key, chain.proposerKey = some key ∧
      Presentable chain key timestamp view validatorOverride
  | .consult => True
  | .restart _ _ =>
    (∀ b ∈ chain.inner.blocks, chain.rawTxsForBlock b = []) ∧
    importState (exportState chain.inner.state) = some chain.inner.state

def CleanRun (host : NodeHost) (parseU256 : String → Option U256)
    (validatorOverride : Option Address) : Chain → List NodeStep → Prop
  | _, [] => True
  | chain, a :: as =>
    CleanStep host validatorOverride chain a ∧
    ∀ chain', chain.nodeStep host parseU256 validatorOverride a = some chain' →
      CleanRun host parseU256 validatorOverride chain' as

-- What a clean run keeps.
structure Serving (host : NodeHost) (validatorOverride : Option Address) (raws : List Bytes)
    (genesis chain : Chain) : Prop where
  wellFormed : WellFormed host chain
  key : chain.proposerKey = genesis.proposerKey
  keyed : Keyed host raws chain.inner.rawTx
  retained : ∀ e ∈ chain.forkStore.rows, ∀ raw ∈ e.rawTxs, raw ∈ raws
  pooled : ∀ p ∈ chain.inner.mempool, Cached host chain.inner.rawTx p
  stored : ∀ b ∈ chain.inner.blocks, ∀ tx ∈ b.txs, Known host chain.inner.rawTx tx.hash
  roots : ∀ b ∈ chain.inner.blocks.drop 1,
    Network.recomputeTxsRoot host (chain.wireBlockFrom b) = b.txsRoot
  replays : Replays host validatorOverride genesis chain
  ring : ∀ e ∈ chain.recentStates.rows, e.1 < chain.head.number →
    Replays host validatorOverride genesis (chain.cut e.1 e.2)

section
variable {host : NodeHost} {validatorOverride : Option Address} {raws : List Bytes}
variable {genesis chain chain' p : Chain} {b : Block}

theorem nodeRun_append {parseU256 : String → Option U256} (steps steps' : List NodeStep) :
    chain.nodeRun host parseU256 validatorOverride (steps ++ steps') =
      (chain.nodeRun host parseU256 validatorOverride steps).bind
        (·.nodeRun host parseU256 validatorOverride steps') := by
  induction steps generalizing chain with
  | nil => rfl
  | cons a steps ih =>
    rw [List.cons_append, Chain.nodeRun, Chain.nodeRun, Option.bind_assoc]
    exact congrArg _ (funext fun _ => ih)

theorem validateAndApplyBlock_proposerKey {w : WireBlock} {r : Except BlockError Block}
    (h : chain.validateAndApplyBlock host w validatorOverride = some (r, chain')) :
    chain'.proposerKey = chain.proposerKey := by
  cases r with
  | error e =>
    rcases validateAndApplyBlock_rejected h with ⟨rfl, -⟩ | ⟨_, _, _, -, -, -, -, -, -, rfl⟩
    · rfl
    · rfl
  | ok produced =>
    rcases validateAndApplyBlock_cases h with ⟨e, he, -⟩ | ⟨_, _, _, -, -, -, -, -, -, rfl⟩
    · cases he
    · rfl

theorem applyBranch_proposerKey {branch : List ForkBlockEntry} {r : Except BlockError Unit}
    (h : chain.applyBranch host validatorOverride branch = some (r, chain')) :
    chain'.proposerKey = chain.proposerKey := by
  induction branch generalizing chain with
  | nil =>
    cases h
    rfl
  | cons fb branch ih =>
    rcases applyBranch_cons.mp h with ⟨e, -, hfb⟩ | ⟨produced, chain₁, hfb, hrest⟩
    · exact validateAndApplyBlock_proposerKey hfb
    · have hkey : chain₁.proposerKey = chain.proposerKey := validateAndApplyBlock_proposerKey hfb
      exact (ih hrest).trans hkey

theorem executeReorg_proposerKey {branch : List ForkBlockEntry} {caHeight : Nat} {e : BlockError}
    (h : chain.executeReorg host branch caHeight validatorOverride = some (.error e, chain')) :
    chain'.proposerKey = chain.proposerKey := by
  rw [Chain.executeReorg] at h
  split at h
  · cases h
  · dsimp only at h
    split at h
    · cases h
    · rename_i failed hbranch
      cases h
      have hkey := applyBranch_proposerKey hbranch
      exact hkey
    · cases h

theorem mem_assembleForkBranch {fmap : ForkStore} {g : Inner} {finalized bound : Nat}
    {cur : ForkBlockEntry} {above branch : List ForkBlockEntry} {caHeight : Nat}
    (h : assembleForkBranch fmap g finalized bound cur above = some (branch, caHeight))
    (hcur : cur ∈ fmap.rows) (habove : ∀ e ∈ above, e ∈ fmap.rows) :
    ∀ e ∈ branch, e ∈ fmap.rows := by
  have hall : ∀ e ∈ cur :: above, e ∈ fmap.rows := by
    intro e he
    rcases List.mem_cons.mp he with rfl | he
    · exact hcur
    · exact habove e he
  induction bound generalizing cur above with
  | zero => simp [assembleForkBranch] at h
  | succ bound ih =>
    rw [assembleForkBranch] at h
    cases hca : g.canonical cur.parentHash with
    | some ca =>
      simp only [hca] at h
      split_ifs at h
      cases h
      exact hall
    | none =>
      simp only [hca] at h
      cases hparent : fmap.get cur.parentHash with
      | none => simp [hparent] at h
      | some parent =>
        simp only [hparent] at h
        split_ifs at h
        have hmem := Table.mem_of_get hparent
        refine ih h hmem hall ?_
        intro e he
        rcases List.mem_cons.mp he with rfl | he
        · exact hmem
        · exact hall e he

theorem mem_rememberState {recent : RecentStates} {number : Nat} {s : MemState}
    {e : Nat × MemState} (h : e ∈ (rememberState recent number s).rows) :
    e = (number - 1, s) ∨ e.1 ≠ number - 1 ∧ e ∈ recent.rows := by
  rcases Table.mem_put.mp (Table.mem_filter.mp h).1 with rfl | ⟨hmem, hne⟩
  · exact Or.inl rfl
  · exact Or.inr ⟨hne, hmem⟩

namespace Serving

theorem store (h : Serving host validatorOverride raws genesis chain) :
    ∀ e ∈ chain.forkStore.rows, e.Hashed host ∧ ∀ raw ∈ e.rawTxs, raw ∈ raws :=
  fun e he => ⟨h.wellFormed.retained e he, h.retained e he⟩

-- A node whose chain is left alone goes on serving it.
theorem of_same (hbinds : Binds host raws)
    (h : Serving host validatorOverride raws genesis chain)
    (hblocks : chain'.inner.blocks = chain.inner.blocks)
    (hstate : chain'.ensureEpochValidatorsSeeded.inner.state =
      chain.ensureEpochValidatorsSeeded.inner.state)
    (hkey : chain'.proposerKey = chain.proposerKey)
    (hkeyed : Keyed host raws chain'.inner.rawTx)
    (hgrows : Grows chain.inner.rawTx chain'.inner.rawTx)
    (hpooled : ∀ q ∈ chain'.inner.mempool, Cached host chain'.inner.rawTx q)
    (hstore : ∀ e ∈ chain'.forkStore.rows, e.Hashed host ∧ ∀ raw ∈ e.rawTxs, raw ∈ raws)
    (hring : ∀ e ∈ chain'.recentStates.rows, e.1 < chain.head.number →
      e ∈ chain.recentStates.rows) :
    Serving host validatorOverride raws genesis chain' := by
  have hwire : ∀ b ∈ chain.inner.blocks, chain'.wireBlockFrom b = chain.wireBlockFrom b :=
    fun b hb => wireBlockFrom_eq hbinds h.keyed hkeyed hgrows (h.stored b hb)
  have hhead : chain'.head = chain.head := head_of_blocks hblocks
  refine ⟨h.wellFormed.of_same hblocks fun e he => (hstore e he).1, hkey.trans h.key, hkeyed,
    fun e he => (hstore e he).2, hpooled, ?_, ?_, h.replays.of_same hblocks hwire hstate, ?_⟩
  · intro b hb tx htx
    exact (h.stored b (hblocks ▸ hb) tx htx).grows hgrows
  · intro b hb
    rw [hblocks] at hb
    rw [hwire b (List.mem_of_mem_drop hb)]
    exact h.roots b hb
  · intro e he hlt
    rw [hhead] at hlt
    exact (h.ring e (hring e he hlt) hlt).of_cut (by rw [hblocks]) hwire

-- A node whose chain is extended by a block that dropped nothing that matters serves that
-- block too.
theorem extend {m : Mined} {timestamp : U64} {view : U32} {s₀ : MemState}
    (hbinds : Binds host raws) (h : Serving host validatorOverride raws genesis chain)
    (hext : Extension host raws chain p chain' timestamp view m b)
    (hheader : headerError host chain.head chain.ensureEpochValidatorsSeeded.inner.state
      validatorOverride (chain'.wireBlockFrom b) = none)
    (hkey : chain'.proposerKey = chain.proposerKey)
    (hgrows : Grows chain.inner.rawTx chain'.inner.rawTx)
    (hpooled : ∀ q ∈ chain'.inner.mempool, Cached host chain'.inner.rawTx q)
    (hstore : chain'.forkStore = chain.forkStore)
    (hring : ∀ e ∈ chain'.recentStates.rows, e = (chain.head.number, s₀) ∨
      e.1 ≠ chain.head.number ∧ e ∈ chain.recentStates.rows)
    (hs₀ : seedEpochValidators chain.head.number s₀ =
      chain.ensureEpochValidatorsSeeded.inner.state) :
    Serving host validatorOverride raws genesis chain' := by
  have hwire : ∀ b ∈ chain.inner.blocks, chain'.wireBlockFrom b = chain.wireBlockFrom b :=
    fun b hb => wireBlockFrom_eq hbinds h.keyed hext.keyed hgrows (h.stored b hb)
  have hlength := h.wellFormed.length
  refine ⟨h.wellFormed.append hext.blocks hext.number hext.hashed hstore, hkey.trans h.key,
    hext.keyed, hstore ▸ h.retained, hpooled, ?_, ?_, hext.replays hbinds h.replays hwire hheader,
    ?_⟩
  · intro b' hb' tx htx
    rw [hext.blocks] at hb'
    rcases List.mem_append.mp hb' with hb' | hb'
    · exact (h.stored b' hb' tx htx).grows hgrows
    · exact hext.known tx (List.mem_singleton.mp hb' ▸ htx)
  · intro b' hb'
    rw [hext.blocks, List.drop_append_of_le_length (by omega)] at hb'
    rcases List.mem_append.mp hb' with hb' | hb'
    · rw [hwire b' (List.mem_of_mem_drop hb')]
      exact h.roots b' hb'
    · rw [List.mem_singleton.mp hb']
      exact hext.root hbinds
  · intro e he hlt
    rw [hext.head, hext.number] at hlt
    have htake : chain'.inner.blocks.take (e.1 + 1) = chain.inner.blocks.take (e.1 + 1) := by
      rw [hext.blocks, List.take_append_of_le_length (by omega)]
    rcases hring e he with rfl | ⟨hne, hmem⟩
    · exact (h.replays.cut_head (by omega) hs₀).of_cut htake hwire
    · exact (h.ring e hmem (by omega)).of_cut htake hwire

theorem submit (hbinds : Binds host raws)
    (h : Serving host validatorOverride raws genesis chain) {now : U64} {raw : Bytes}
    (hraw : raw ∈ raws)
    (hclean : (chain.ingestRawTx host now raw).1.isOk → Canonical host raw) :
    Serving host validatorOverride raws genesis (chain.ingestRawTx host now raw).2 := by
  rcases ingestRawTx_cases (Prod.eta (chain.ingestRawTx host now raw)).symm with
    ⟨e, -, heq⟩ | ⟨q, hdecode, -, hr, heq⟩
  · rw [heq]
    exact h
  · have hhash : q.hash = host.keccak256 raw := hclean (by rw [hr]; rfl) q hdecode
    have hkeyed : Keyed host raws (chain.inner.rawTx.put (q.hash, raw)) := hhash ▸ h.keyed.put hraw
    have hgrows : Grows chain.inner.rawTx (chain.inner.rawTx.put (q.hash, raw)) := Grows.put _
    rw [heq]
    refine h.of_same hbinds rfl rfl rfl hkeyed hgrows ?_
      h.store (fun e he _ => he)
    intro q' hq'
    rcases List.mem_append.mp hq' with hq' | hq'
    · exact (h.pooled q' hq').grows hbinds h.keyed hkeyed hgrows
    · rw [List.mem_singleton.mp hq']
      exact ⟨raw, Table.get_put_self _ _, hdecode⟩

theorem cacheRawTxs (hbinds : Binds host raws)
    (h : Serving host validatorOverride raws genesis chain) {l : List Bytes}
    (hl : ∀ raw ∈ l, raw ∈ raws) :
    Serving host validatorOverride raws genesis (chain.cacheRawTxs host l) := by
  have hkeyed := h.keyed.cacheRawTxs hl
  have hgrows := Grows.cacheRawTxs host chain l
  exact h.of_same hbinds rfl rfl rfl hkeyed hgrows
    (fun q hq => (h.pooled q hq).grows hbinds h.keyed hkeyed hgrows)
    h.store (fun e he _ => he)

theorem seeded (hbinds : Binds host raws)
    (h : Serving host validatorOverride raws genesis chain) :
    Serving host validatorOverride raws genesis chain.ensureEpochValidatorsSeeded :=
  h.of_same hbinds rfl (SameHead.seeded chain).state rfl h.keyed (Grows.refl _) h.pooled
    h.store (fun _ he _ => he)

-- A rejected block may leave a state for the head behind, and nothing else.
theorem rejected (hbinds : Binds host raws)
    (h : Serving host validatorOverride raws genesis chain) {w : WireBlock} {e : BlockError}
    (hreject : chain.validateAndApplyBlock host w validatorOverride = some (.error e, chain')) :
    Serving host validatorOverride raws genesis chain' := by
  rcases validateAndApplyBlock_rejected hreject with ⟨rfl, -⟩ | ⟨_, _, _, -, -, -, -, -, -, rfl⟩
  · exact h.seeded hbinds
  · refine h.of_same hbinds rfl (SameHead.seeded chain).state rfl h.keyed (Grows.refl _) h.pooled
      h.store ?_
    intro e he hlt
    rcases mem_rememberState he with rfl | ⟨-, hmem⟩
    · exact absurd hlt (by rw [Nat.add_sub_cancel]; exact Nat.lt_irrefl _)
    · exact hmem

-- A clean block that is applied is served from then on.
theorem applied (hbinds : Binds host raws)
    (h : Serving host validatorOverride raws genesis chain) {w : WireBlock}
    (hraws : ∀ raw ∈ w.rawTxs, raw ∈ raws) (hclean : CleanBlock host validatorOverride chain w)
    (happly : chain.validateAndApplyBlock host w validatorOverride = some (.ok b, chain')) :
    Serving host validatorOverride raws genesis (chain'.cacheRawTxs host w.rawTxs) := by
  have happlied := validateAndApplyBlock_ok happly
  obtain ⟨hcanonical, hharmless⟩ := hclean _ _ happly
  rcases validateAndApplyBlock_cases happly with ⟨e, he, -⟩ |
    ⟨pending, m', produced, hr, hheader, hdecode, hmine, hproduced, -, rfl⟩
  · cases he
  cases hr
  rw [mine, Option.map_eq_some_iff] at hmine
  obtain ⟨m, hm, rfl⟩ := hmine
  have hp : SameTip chain (chain.ensureEpochValidatorsSeeded.withPool pending) :=
    ⟨rfl, rfl, rfl, (SameHead.seeded chain).state⟩
  have hkeyed := h.keyed.cacheRawTxs hraws
  have hgrows := Grows.cacheRawTxs host chain w.rawTxs
  have hcached : ∀ q ∈ pending, Cached host (chain.cacheRawTxs host w.rawTxs).inner.rawTx q := by
    intro q hq
    obtain ⟨raw, hraw, hq⟩ := mem_of_mapM hdecode hq
    refine ⟨raw, ?_, hq⟩
    rw [hcanonical raw hraw q hq]
    exact hkeyed.get_cacheRawTxs hbinds hraws hraw
  refine h.extend hbinds ⟨hp, hharmless pending hdecode, hm, ⟨_, _, hproduced⟩, happlied.blocks,
    mineSweeps_state m, hkeyed, hcached⟩ ?_ rfl hgrows ?_ rfl (fun _ => mem_rememberState)
    (seedEpochValidators_idem _ _)
  · refine (headerError_of_fields ?_).trans hheader
    rw [happlied.header]
    rfl
  · intro q hq
    exact (h.pooled q (List.mem_filter.mp hq).1).grows hbinds h.keyed hkeyed hgrows

theorem produced {key : ProposerKey} {timestamp : U64} {view : U32} (hbinds : Binds host raws)
    (h : Serving host validatorOverride raws genesis chain)
    (hsigns : ∀ hash, host.recoverProposer hash (key.signPrehash hash) = some key.address)
    (hkeyed : chain.proposerKey = some key) (hdrops : HarmlessDrops host chain timestamp view)
    (hpresentable : Presentable chain key timestamp view validatorOverride)
    (hproduce : chain.produceBlockAtView host timestamp view = some (b, chain')) :
    Serving host validatorOverride raws genesis chain' := by
  have hheader := (headerError_produced validatorOverride (SameTip.refl chain) hkeyed hsigns
    hproduce).mpr hpresentable
  obtain ⟨m', hmine, hb, rfl⟩ := executeBlock_eq_some hproduce
  rw [mine, Option.map_eq_some_iff] at hmine
  obtain ⟨m, hm, rfl⟩ := hmine
  exact h.extend hbinds ⟨SameTip.refl chain, hdrops, hm, ⟨_, _, hb⟩, rfl, mineSweeps_state m,
    h.keyed, h.pooled⟩ hheader rfl (Grows.refl _) (fun _ hq => absurd hq List.not_mem_nil) rfl
    (fun _ => mem_rememberState) rfl

-- A chain that is cut back is served as far as it goes.
theorem cut (h : Serving host validatorOverride raws genesis chain) {height : Nat} {s : MemState}
    (hheight : height ≤ chain.head.number)
    (hreplays : Replays host validatorOverride genesis (chain.cut height s)) :
    Serving host validatorOverride raws genesis (chain.cut height s) := by
  have hwf : WellFormed host (chain.cut height s) := h.wellFormed.truncate height s
  have hnumber : (chain.cut height s).head.number = height := by
    have hlength := h.wellFormed.length
    have hcut := hwf.length
    have htake : (chain.cut height s).inner.blocks.length = min (height + 1) chain.inner.blocks.length :=
      List.length_take
    omega
  refine ⟨hwf, h.key, h.keyed, h.retained, h.pooled,
    fun b hb => h.stored b (List.mem_of_mem_take hb), ?_, hreplays, ?_⟩
  · intro b hb
    have hb : b ∈ (chain.inner.blocks.take (height + 1)).drop 1 := hb
    rw [List.drop_take] at hb
    exact h.roots b (List.mem_of_mem_take hb)
  · intro e he hlt
    rw [hnumber] at hlt
    refine (h.ring e he (by omega)).of_cut ?_ fun _ _ => rfl
    show (chain.inner.blocks.take (height + 1)).take (e.1 + 1) = _
    rw [List.take_take, Nat.min_eq_left (by omega)]

theorem branch (hbinds : Binds host raws) {branch : List ForkBlockEntry}
    (h : Serving host validatorOverride raws genesis chain)
    (hraws : ∀ fb ∈ branch, ∀ raw ∈ fb.rawTxs, raw ∈ raws)
    (hclean : CleanBranch host validatorOverride chain branch)
    (happly : chain.applyBranch host validatorOverride branch = some (.ok (), chain')) :
    Serving host validatorOverride raws genesis chain' := by
  induction branch generalizing chain with
  | nil =>
    cases happly
    exact h
  | cons fb branch ih =>
    obtain ⟨produced, chain₁, hfb, happly⟩ := applyBranch_cons_ok.mp happly
    have hfirst := h.applied hbinds (hraws fb List.mem_cons_self) hclean.1 hfb
    exact ih hfirst (fun fb' hfb' => hraws fb' (List.mem_cons_of_mem _ hfb'))
      (hclean.2 _ _ hfb) happly

-- What a reorg retains comes from the side store or from the cache.
theorem reorg (hbinds : Binds host raws) {branch : List ForkBlockEntry} {caHeight : Nat}
    {tip : Block} (h : Serving host validatorOverride raws genesis chain)
    (hraws : ∀ fb ∈ branch, ∀ raw ∈ fb.rawTxs, raw ∈ raws) (hheight : caHeight ≤ chain.head.number)
    (hclean : ∀ s, chain.recentStates.get caHeight = some (caHeight, s) →
      (caHeight = chain.head.number →
        seedEpochValidators caHeight s = chain.ensureEpochValidatorsSeeded.inner.state) ∧
      CleanBranch host validatorOverride (chain.cut caHeight s) branch)
    (hreorg : chain.executeReorg host branch caHeight validatorOverride =
      some (.ok (some tip), chain')) :
    Serving host validatorOverride raws genesis chain' := by
  rw [Chain.executeReorg] at hreorg
  split at hreorg
  · cases hreorg
  · rename_i k s hget
    obtain rfl : k = caHeight := Table.key_of_get hget
    obtain ⟨hhead, hbranch⟩ := hclean s hget
    dsimp only at hreorg
    split at hreorg
    · cases hreorg
    · cases hreorg
    · rename_i chain₁ happly
      cases hreorg
      have hreplays : Replays host validatorOverride genesis (chain.cut k s) := by
        rcases Nat.lt_or_eq_of_le hheight with hlt | heq
        · exact h.ring (k, s) (Table.mem_of_get hget) hlt
        · have hlength := h.wellFormed.length
          exact h.replays.cut_head (by omega) (heq ▸ hhead heq)
      have h₁ := (h.cut hheight hreplays).branch hbinds hraws hbranch happly
      refine h₁.of_same hbinds rfl rfl rfl h₁.keyed (Grows.refl _) h₁.pooled ?_ fun e he _ => he
      intro e he
      rcases mem_reorgStore he with he | he
      · exact h₁.store e he
      · refine ⟨h.wellFormed.displaced he, ?_⟩
        obtain ⟨b, -, rfl⟩ := List.mem_map.mp he
        intro raw hraw
        obtain ⟨tx, -, hraw⟩ := List.mem_filterMap.mp hraw
        obtain ⟨e, he, rfl⟩ := Option.map_eq_some_iff.mp hraw
        exact (h.keyed.of_get he).2.2

-- Weighing a competing block keeps the chain, or leads to a reorg.
theorem considered {w : WireBlock} {r : Except BlockError (Option Block)}
    (hbinds : Binds host raws) (h : Serving host validatorOverride raws genesis chain)
    (hraws : ∀ raw ∈ w.rawTxs, raw ∈ raws) (hclean : CleanReorg host validatorOverride chain w)
    (hconsider : chain.considerCompetingBlock host w validatorOverride = some (r, chain')) :
    Serving host validatorOverride raws genesis chain' := by
  have hseeded := h.seeded hbinds
  rw [Chain.considerCompetingBlock] at hconsider
  split_ifs at hconsider
  · cases hconsider
    exact hseeded
  · cases hconsider
    exact hseeded
  · cases hconsider
    exact hseeded
  · cases hconsider
    exact hseeded
  · have hinner := storeForkBlock_inner chain.ensureEpochValidatorsSeeded
      { w with hash := w.hash host } chain.ensureEpochValidatorsSeeded.finalizedHeight
    have hstored : Serving host validatorOverride raws genesis
        (chain.ensureEpochValidatorsSeeded.storeForkBlock { w with hash := w.hash host }
          chain.ensureEpochValidatorsSeeded.finalizedHeight) := by
      refine hseeded.of_same hbinds (by rw [hinner]) (seeded_of_inner hinner) rfl
        (hinner ▸ hseeded.keyed) (hinner ▸ Grows.refl _) (hinner ▸ hseeded.pooled) ?_
        (fun _ he _ => he)
      intro e he
      rcases storeForkBlock_rows he with rfl | ⟨he, -⟩
      · exact ⟨rfl, hraws⟩
      · exact hseeded.store e he
    rw [Chain.maybeReorgToBestBranch] at hconsider
    split at hconsider
    · cases hconsider
      exact hstored
    · rename_i candidate hbest
      cases r with
      | error e =>
        obtain ⟨hinner', hring, hstore⟩ := executeReorg_error hconsider
        exact hstored.of_same hbinds (by rw [hinner']) (seeded_of_inner hinner')
          (executeReorg_proposerKey hconsider) (hinner' ▸ hstored.keyed) (hinner' ▸ Grows.refl _)
          (hinner' ▸ hstored.pooled) (by rw [hstore]; exact hstored.store)
          (by rw [hring]; exact fun _ he _ => he)
      | ok o =>
        cases o with
        | none =>
          rw [executeReorg_none hconsider]
          exact hstored
        | some tip =>
          obtain ⟨entry, hmem, -, -, hassemble⟩ := bestCandidate_eq_some hbest
          obtain ⟨-, -, ca, hca, hnumber⟩ := assembleForkBranch_eq_some hassemble
          have hbranch := mem_assembleForkBranch hassemble hmem (by simp)
          have hlt := hstored.wellFormed.lt_of_mem hca
          have hlength := hstored.wellFormed.length
          refine hstored.reorg hbinds (fun fb hfb => hstored.retained fb (hbranch fb hfb)) (by omega)
            ?_ hconsider
          intro s hget
          obtain ⟨hhead, hclean⟩ := hclean candidate s hbest hget
          refine ⟨?_, hclean⟩
          intro heq
          rw [storeForkBlock_head] at heq
          rw [hhead heq, seeded_of_inner hinner]
          exact (seedEpochValidators_idem _ _).symm

-- A restart loses nothing where no block carries raw transactions.
theorem restarted (h : Serving host validatorOverride raws genesis chain) {genesisTime : U64}
    (hempty : ∀ b ∈ chain.inner.blocks, chain.rawTxsForBlock b = []) :
    Serving host validatorOverride raws genesis
      ((Chain.new host chain.proposerKey genesisTime).loadInto chain.inner.state
        chain.inner.blocks chain.inner.genesisPresent) := by
  have hwire : ∀ b ∈ chain.inner.blocks,
      ((Chain.new host chain.proposerKey genesisTime).loadInto chain.inner.state
        chain.inner.blocks chain.inner.genesisPresent).wireBlockFrom b = chain.wireBlockFrom b := by
    intro b hb
    have hnone : ((Chain.new host chain.proposerKey genesisTime).loadInto chain.inner.state
        chain.inner.blocks chain.inner.genesisPresent).rawTxsForBlock b = [] :=
      List.filterMap_eq_nil_iff.mpr fun _ _ => rfl
    rw [Chain.wireBlockFrom, hnone, Chain.wireBlockFrom, hempty b hb]
  refine ⟨⟨h.wellFormed.numbered, h.wellFormed.hashed, fun _ he => absurd he List.not_mem_nil⟩,
    h.key, fun _ he => absurd he List.not_mem_nil, fun _ he => absurd he List.not_mem_nil,
    fun _ hq => absurd hq List.not_mem_nil, ?_, ?_, h.replays.of_same rfl hwire rfl,
    fun _ he => absurd he List.not_mem_nil⟩
  · intro b hb tx htx
    rcases h.stored b hb tx htx with hcached | hsweep
    · obtain ⟨e, he⟩ := Option.isSome_iff_exists.mp hcached
      have hnone := List.filterMap_eq_nil_iff.mp (hempty b hb) tx htx
      rw [he] at hnone
      cases hnone
    · exact Or.inr hsweep
  · intro b hb
    rw [hwire b (List.mem_of_mem_drop hb)]
    exact h.roots b hb

theorem step {parseU256 : String → Option U256} {a : NodeStep} (hbinds : Binds host raws)
    (hsigns : ∀ key, genesis.proposerKey = some key →
      ∀ hash, host.recoverProposer hash (key.signPrehash hash) = some key.address)
    (hparse : ∀ v : U256, parseU256 (decimal v) = some v)
    (h : Serving host validatorOverride raws genesis chain)
    (hraws : ∀ raw ∈ a.raws, raw ∈ raws) (hclean : CleanStep host validatorOverride chain a)
    (hstep : chain.nodeStep host parseU256 validatorOverride a = some chain') :
    Serving host validatorOverride raws genesis chain' := by
  cases a with
  | submit now raw =>
    cases hstep
    exact h.submit hbinds (hraws raw (List.mem_singleton_self raw)) hclean
  | apply w =>
    rw [Chain.nodeStep] at hstep
    split at hstep
    · cases hstep
    · rename_i happly
      cases hstep
      exact h.applied hbinds hraws hclean happly
    · rename_i hreject
      cases hstep
      exact h.rejected hbinds hreject
  | consider w =>
    rw [Chain.nodeStep] at hstep
    split at hstep
    · cases hstep
    · rename_i hconsider
      cases hstep
      exact (h.considered hbinds hraws hclean hconsider).cacheRawTxs hbinds hraws
    · rename_i hconsider
      cases hstep
      exact h.considered hbinds hraws hclean hconsider
    · rename_i hconsider
      cases hstep
      exact h.considered hbinds hraws hclean hconsider
  | produce timestamp view =>
    obtain ⟨hdrops, key, hkey, hpresentable⟩ := hclean
    obtain ⟨⟨b, _⟩, hproduce, rfl⟩ := Option.map_eq_some_iff.mp hstep
    exact h.produced hbinds (hsigns key (h.key ▸ hkey)) hkey hdrops hpresentable hproduce
  | consult =>
    cases hstep
    exact h.seeded hbinds
  | restart chainId genesisTime =>
    obtain ⟨hempty, hstate⟩ := hclean
    rw [Chain.nodeStep, fromSnapshot_exportSnapshot hparse _ _ _ _ hstate] at hstep
    cases hstep
    exact h.restarted hempty

theorem run {parseU256 : String → Option U256} {steps : List NodeStep} (hbinds : Binds host raws)
    (hsigns : ∀ key, genesis.proposerKey = some key →
      ∀ hash, host.recoverProposer hash (key.signPrehash hash) = some key.address)
    (hparse : ∀ v : U256, parseU256 (decimal v) = some v)
    (h : Serving host validatorOverride raws genesis chain)
    (hraws : ∀ a ∈ steps, ∀ raw ∈ a.raws, raw ∈ raws)
    (hclean : CleanRun host parseU256 validatorOverride chain steps)
    (hrun : chain.nodeRun host parseU256 validatorOverride steps = some chain') :
    Serving host validatorOverride raws genesis chain' := by
  induction steps generalizing chain with
  | nil =>
    cases hrun
    exact h
  | cons a steps ih =>
    obtain ⟨chain₁, hfirst, hrest⟩ := Option.bind_eq_some_iff.mp hrun
    have h₁ := h.step hbinds hsigns hparse (hraws a List.mem_cons_self) hclean.1 hfirst
    exact ih h₁ (fun a' ha' => hraws a' (List.mem_cons_of_mem _ ha')) (hclean.2 _ hfirst) hrest

-- A block that a serving node has above genesis can be served again.
theorem servable (h : Serving host validatorOverride raws genesis chain) {height : Nat}
    (hheight : 0 < height) (hb : chain.inner.blocks[height]? = some b) :
    Servable host validatorOverride genesis chain height b := by
  obtain ⟨hlt, hget⟩ := List.getElem?_eq_some_iff.mp hb
  obtain ⟨last, hreplay, -⟩ := h.replays
  have hblocks : chain.inner.blocks.drop 1 =
      (chain.inner.blocks.take height).drop 1 ++ b :: chain.inner.blocks.drop (height + 1) := by
    have hsplit : chain.inner.blocks =
        chain.inner.blocks.take height ++ b :: chain.inner.blocks.drop (height + 1) := by
      rw [← hget, List.cons_getElem_drop_succ, List.take_append_drop]
    conv_lhs => rw [hsplit]
    rw [List.drop_append_of_le_length (by rw [List.length_take]; omega)]
  refine ⟨h.roots b (by rw [hblocks]; simp), ?_⟩
  rw [Chain.servedBelow, List.take_length, hblocks, List.map_append, replay_append] at hreplay
  obtain ⟨parent, hparent, hrest⟩ := Option.bind_eq_some_iff.mp hreplay
  refine ⟨parent, hparent, ?_⟩
  intro f hsame
  rw [List.map_cons, Chain.replay] at hrest
  split at hrest
  · rename_i happly
    obtain ⟨b', f', hvalidate, -⟩ := hsame.accepts happly
    exact ⟨b', f', hvalidate⟩
  · cases hrest

end Serving

theorem serving_genesis (validatorOverride : Option Address) (raws : List Bytes)
    (proposerKey : Option ProposerKey) (genesisTime : U64) (s : MemState) :
    Serving host validatorOverride raws (Chain.genesis host proposerKey genesisTime s)
      (Chain.genesis host proposerKey genesisTime s) := by
  refine ⟨wellFormed_of_reachable ⟨proposerKey, genesisTime, s, [], rfl⟩, rfl,
    fun _ he => absurd he List.not_mem_nil, fun _ he => absurd he List.not_mem_nil,
    fun _ hq => absurd hq List.not_mem_nil, ?_, fun _ hb => absurd hb List.not_mem_nil,
    ⟨_, rfl, SameTip.refl _⟩, fun _ he => absurd he List.not_mem_nil⟩
  intro b hb tx htx
  rw [List.mem_singleton.mp hb] at htx
  exact absurd htx List.not_mem_nil

-- Along a clean run every block above genesis can be served again.
theorem canonical_blocks_servable {parseU256 : String → Option U256}
    {proposerKey : Option ProposerKey} {genesisTime : U64} {s : MemState} {steps : List NodeStep}
    (hbinds : Binds host (steps.flatMap NodeStep.raws))
    (hsigns : ∀ key, proposerKey = some key →
      ∀ hash, host.recoverProposer hash (key.signPrehash hash) = some key.address)
    (hparse : ∀ v : U256, parseU256 (decimal v) = some v)
    (hclean : CleanRun host parseU256 validatorOverride
      (Chain.genesis host proposerKey genesisTime s) steps)
    (hrun : (Chain.genesis host proposerKey genesisTime s).nodeRun host parseU256
      validatorOverride steps = some chain) {height : Nat} (hheight : 0 < height)
    (hb : chain.inner.blocks[height]? = some b) :
    Servable host validatorOverride (Chain.genesis host proposerKey genesisTime s) chain height b := by
  have hraws : ∀ a ∈ steps, ∀ raw ∈ a.raws, raw ∈ steps.flatMap NodeStep.raws :=
    fun a ha raw hraw => List.mem_flatMap.mpr ⟨a, ha, hraw⟩
  exact ((serving_genesis validatorOverride _ proposerKey genesisTime s).run hbinds hsigns hparse
    hraws hclean hrun).servable hheight hb

end

-- A host of the tests that hashes a single byte to itself, and longer strings apart from it.
def servingHost : NodeHost where
  toHost :=
    { mockHost with
      keccak256 := fun b =>
        if b.length = 1 then (b.headD 0#8).setWidth 256 else fnv1a256 b ||| 1#256 <<< 255 }
  decodePendingTx := paymentHost.decodePendingTx
  recoverProposer := devnetHost.recoverProposer

theorem keccak_servingHost (b : Bytes) : servingHost.keccak256 b =
    if b.length = 1 then (b.headD 0#8).setWidth 256 else fnv1a256 b ||| 1#256 <<< 255 := rfl

def parseDecimalU256 (s : String) : Option U256 :=
  some (BitVec.ofNat 256 (Nat.ofDigitChars 10 s.toList 0))

theorem parseDecimalU256_decimal (v : U256) : parseDecimalU256 (decimal v) = some v := by
  have hdigits : (decimal v).toList = Nat.toDigits 10 v.toNat := Nat.toList_repr
  rw [parseDecimalU256, hdigits, Nat.ofDigitChars_ten_toDigits, BitVec.ofNat_toNat,
    BitVec.setWidth_eq]

-- The node of the tests, whose first account can pay one unit.
def payingGenesis : Chain := Chain.genesis servingHost (some (.devnet 1#160)) 0#64 streamingState

def paymentSteps : List NodeStep := [.submit 10#64 [6#8], .produce 10#64 0#32]

theorem ingest_payment : payingGenesis.ingestRawTx servingHost 10#64 [6#8] =
    (.ok 6#256, payingGenesis.enqueue (payment 6#8) [6#8]) := by
  have hgate : submitGate payingGenesis.inner 10#64 (payment 6#8) = none := by decide +kernel
  have hdecode : servingHost.decodePendingTx [6#8] = some (payment 6#8) := rfl
  simp only [Chain.ingestRawTx, hdecode, hgate]
  rfl

theorem binds_payment : Binds servingHost (paymentSteps.flatMap NodeStep.raws) := by
  have hraws : paymentSteps.flatMap NodeStep.raws = [[6#8]] := rfl
  rw [hraws]
  refine ⟨?_, ?_⟩
  · intro raw hraw raw' hraw' _
    rw [List.mem_singleton.mp hraw, List.mem_singleton.mp hraw']
  · intro raw hraw ctx heq
    rw [List.mem_singleton.mp hraw] at heq
    have hlong : ¬ (beBytes ctx.blockHash ++ strBytes "humanity-finalize-sweep").length = 1 := by
      rw [List.length_append, beBytes, length_natBytes]
      omega
    rw [sweepHash, keccak_servingHost, keccak_servingHost, if_neg hlong,
      if_pos List.length_singleton] at heq
    have hbit := congrArg (fun h : Hash => h.getLsbD 255) heq
    simp at hbit

-- The node once the payment is queued.
def payingPool : Chain := payingGenesis.enqueue (payment 6#8) [6#8]

theorem harmless_payment : HarmlessDrops servingHost payingPool 10#64 0#32 := by
  have hlogs : (mineTxs servingHost (payingPool.inner.nextCtx servingHost 10#64 0#32) 1 0
      payingPool.inner.mempool payingPool.inner.start).map (fun m =>
        sweepLogs servingHost (payingPool.inner.nextCtx servingHost 10#64 0#32) m.state) =
      some [] := by
    decide +kernel
  refine ⟨by decide +kernel, Or.inr ?_⟩
  intro m hm
  have hm : mineTxs servingHost (payingPool.inner.nextCtx servingHost 10#64 0#32) 1 0
      payingPool.inner.mempool payingPool.inner.start = some m := hm
  rw [hm] at hlogs
  simpa using hlogs

theorem clean_payment :
    CleanRun servingHost parseDecimalU256 (some 1#160) payingGenesis paymentSteps := by
  refine ⟨?_, ?_⟩
  · intro _ p hp
    cases hp
    rfl
  · intro chain' hstep
    have hpool : chain' = payingPool := by
      rw [Chain.nodeStep, ingest_payment] at hstep
      cases hstep
      rfl
    subst hpool
    exact ⟨⟨harmless_payment, .devnet 1#160, rfl, ⟨by decide, by decide, by decide +kernel⟩⟩,
      fun _ _ => trivial⟩

-- The payment is mined, and the block commits to it.
theorem run_payment : ∃ chain b,
    payingGenesis.nodeRun servingHost parseDecimalU256 (some 1#160) paymentSteps = some chain ∧
      chain.inner.blocks[1]? = some b ∧ b.txsRoot ≠ txsRootOf servingHost [] := by
  have hproduce : (payingPool.produceBlockAtView servingHost 10#64 0#32).map
      (fun r => (r.2.inner.blocks[1]?).map fun b => decide (b.txsRoot = txsRootOf servingHost [])) =
        some (some false) := by
    decide +kernel
  obtain ⟨⟨b, chain⟩, hproduce, hroot⟩ := Option.map_eq_some_iff.mp hproduce
  obtain ⟨b', hb', hroot⟩ := Option.map_eq_some_iff.mp hroot
  refine ⟨chain, b', ?_, hb', of_decide_eq_false hroot⟩
  rw [paymentSteps, Chain.nodeRun, Chain.nodeStep, ingest_payment, Option.bind_some, Chain.nodeRun,
    Chain.nodeStep]
  show (((payingPool.produceBlockAtView servingHost 10#64 0#32).map Prod.snd).bind _) = _
  rw [hproduce]
  rfl

theorem canonical_blocks_servable_payment : ∃ chain b,
    payingGenesis.nodeRun servingHost parseDecimalU256 (some 1#160) paymentSteps = some chain ∧
      chain.inner.blocks[1]? = some b ∧ b.txsRoot ≠ txsRootOf servingHost [] ∧
      Servable servingHost (some 1#160) payingGenesis chain 1 b := by
  obtain ⟨chain, b, hrun, hb, hroot⟩ := run_payment
  have hsigns : ∀ key, (some (ProposerKey.devnet 1#160)) = some key →
      ∀ hash, servingHost.recoverProposer hash (key.signPrehash hash) = some key.address := by
    intro key hkey hash
    cases hkey
    have hrecover : servingHost.recoverProposer = devnetHost.recoverProposer := rfl
    rw [hrecover, recover_devnet]
    rfl
  exact ⟨chain, b, hrun, hb, hroot, canonical_blocks_servable binds_payment hsigns
    parseDecimalU256_decimal clean_payment hrun Nat.one_pos hb⟩

-- After a restart the block of the payment is served without it.
theorem restart_drops_payment : ∃ chain b,
    payingGenesis.nodeRun servingHost parseDecimalU256 (some 1#160)
      (paymentSteps ++ [.restart 0#64 0#64]) = some chain ∧
      chain.inner.blocks[1]? = some b ∧
      Network.recomputeTxsRoot servingHost (chain.wireBlockFrom b) ≠ b.txsRoot ∧
      ¬ Servable servingHost (some 1#160) payingGenesis chain 1 b := by
  obtain ⟨chain, b, hrun, hb, hroot⟩ := run_payment
  obtain ⟨s, hstate⟩ := exists_imported chain.inner.state
  have hrestart := fromSnapshot_exportSnapshot parseDecimalU256_decimal servingHost
    chain.proposerKey 0#64 0#64 hstate
  have hlost : Network.recomputeTxsRoot servingHost
      (((Chain.new servingHost chain.proposerKey 0#64).loadInto s chain.inner.blocks
        chain.inner.genesisPresent).wireBlockFrom b) ≠ b.txsRoot := by
    have hnone : ((Chain.new servingHost chain.proposerKey 0#64).loadInto s chain.inner.blocks
        chain.inner.genesisPresent).rawTxsForBlock b = [] :=
      List.filterMap_eq_nil_iff.mpr fun _ _ => rfl
    rw [Network.recomputeTxsRoot, Chain.wireBlockFrom, hnone]
    exact hroot.symm
  have hlast : chain.nodeRun servingHost parseDecimalU256 (some 1#160) [.restart 0#64 0#64] =
      some ((Chain.new servingHost chain.proposerKey 0#64).loadInto s chain.inner.blocks
        chain.inner.genesisPresent) := by
    rw [Chain.nodeRun, Chain.nodeStep, hrestart, Option.bind_some, Chain.nodeRun]
  refine ⟨(Chain.new servingHost chain.proposerKey 0#64).loadInto s chain.inner.blocks
    chain.inner.genesisPresent, b, ?_, hb, hlost, fun hservable => hlost hservable.root⟩
  rw [nodeRun_append, hrun, Option.bind_some, hlast]

end Ubi2.Rpc
