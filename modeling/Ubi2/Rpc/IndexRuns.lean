import Ubi2.Rpc.Reindex

namespace Ubi2.Rpc

open Ubi2.Runtime Ubi2.Lib Ubi2.Lib.Encode Ubi2.Exec

-- The transactions that a block charges on a chain that takes it.
def blockExecutions (host : NodeHost) (chain : Chain) (b : WireBlock) : List Execution :=
  (b.rawTxs.mapM host.decodePendingTx).elim [] fun pending =>
    minedExecutions host chain.ensureEpochValidatorsSeeded.inner pending b.timestamp b.view

def branchExecutions (host : NodeHost) (validatorOverride : Option Address) :
    Chain → List ForkBlockEntry → List Execution
  | _, [] => []
  | chain, fb :: branch =>
    match chain.validateAndApplyBlock host fb.toWireBlock validatorOverride with
    | some (.ok _, chain') =>
      blockExecutions host chain fb.toWireBlock ++
        branchExecutions host validatorOverride (chain'.cacheRawTxs host fb.rawTxs) branch
    | _ => []

-- The chain once a competing block is in its side store.
def Chain.withRival (host : NodeHost) (chain : Chain) (b : WireBlock) : Chain :=
  chain.ensureEpochValidatorsSeeded.storeForkBlock { b with hash := b.hash host }
    chain.finalizedHeight

def Chain.rivalBranch (host : NodeHost) (chain : Chain) (b : WireBlock) : Option ReorgCandidate :=
  bestCandidate (chain.withRival host b).forkStore (chain.withRival host b).inner chain.head.tipKey
    chain.finalizedHeight

-- A reorg takes the displaced transactions out of the log, and adds those of its branch.
def reorgLog (host : NodeHost) (validatorOverride : Option Address) (log : List Execution)
    (chain : Chain) (b : WireBlock) : List Execution :=
  (chain.rivalBranch host b).elim log fun candidate =>
    (chain.recentStates.get candidate.caHeight).elim log fun r =>
      log.filter (fun e => e.hash ∉
        ((chain.inner.blocks.drop (candidate.caHeight + 1)).flatMap Block.txs).map StoredTx.hash) ++
      branchExecutions host validatorOverride
        ((chain.withRival host b).cut candidate.caHeight r.2) candidate.branch

-- The log of what the canonical blocks ran, as a step leaves it.
def stepLog (host : NodeHost) (validatorOverride : Option Address) (log : List Execution)
    (chain : Chain) : NodeStep → List Execution
  | .apply b =>
    match chain.validateAndApplyBlock host b validatorOverride with
    | some (.ok _, _) => log ++ blockExecutions host chain b
    | _ => log
  | .consider b =>
    match chain.considerCompetingBlock host b validatorOverride with
    | some (.ok (some _), _) => reorgLog host validatorOverride log chain b
    | _ => log
  | .produce timestamp view =>
    log ++ minedExecutions host chain.inner chain.inner.mempool timestamp view
  | _ => log

def runLog (host : NodeHost) (parseU256 : String → Option U256)
    (validatorOverride : Option Address) :
    List Execution → Chain → List NodeStep → List Execution
  | log, _, [] => log
  | log, chain, a :: as =>
    (chain.nodeStep host parseU256 validatorOverride a).elim log fun chain' =>
      runLog host parseU256 validatorOverride (stepLog host validatorOverride log chain a) chain' as

-- A block that the chain takes is a new one, whose transactions are fresh.
def TidyBlock (host : NodeHost) (validatorOverride : Option Address) (chain : Chain)
    (b : WireBlock) : Prop :=
  ∀ produced chain', chain.validateAndApplyBlock host b validatorOverride =
      some (.ok produced, chain') →
    (∀ b' ∈ chain.inner.blocks, b'.hash ≠ b.hash host) ∧
    ∀ pending, b.rawTxs.mapM host.decodePendingTx = some pending →
      FreshTxs host chain.ensureEpochValidatorsSeeded.inner pending b.timestamp b.view

def TidyBranch (host : NodeHost) (validatorOverride : Option Address) :
    Chain → List ForkBlockEntry → Prop
  | _, [] => True
  | chain, fb :: branch =>
    TidyBlock host validatorOverride chain fb.toWireBlock ∧
    ∀ produced chain', chain.validateAndApplyBlock host fb.toWireBlock validatorOverride =
        some (.ok produced, chain') →
      TidyBranch host validatorOverride (chain'.cacheRawTxs host fb.rawTxs) branch

-- A reorg that goes through displaces no transaction.
def TidyReorg (host : NodeHost) (validatorOverride : Option Address) (chain : Chain)
    (b : WireBlock) : Prop :=
  ∀ candidate s applied, chain.rivalBranch host b = some candidate →
    chain.recentStates.get candidate.caHeight = some (candidate.caHeight, s) →
    Chain.applyBranch host validatorOverride ((chain.withRival host b).cut candidate.caHeight s)
      candidate.branch = some (.ok (), applied) →
    (∀ d ∈ chain.inner.blocks.drop (candidate.caHeight + 1), d.txs = []) ∧
    TidyBranch host validatorOverride ((chain.withRival host b).cut candidate.caHeight s)
      candidate.branch

-- What keeps a step from leaving an index behind: no displaced transaction, no transaction
-- charged twice, none dropped before one that is charged, and no load after an effect that
-- reached further than the records say.
def TidyStep (host : NodeHost) (validatorOverride : Option Address) (log : List Execution)
    (chain : Chain) : NodeStep → Prop
  | .apply b => TidyBlock host validatorOverride chain b
  | .consider b => TidyReorg host validatorOverride chain b
  | .produce timestamp view =>
    (∀ b chain', chain.produceBlockAtView host timestamp view = some (b, chain') →
      ∀ b' ∈ chain.inner.blocks, b'.hash ≠ b.hash) ∧
    FreshTxs host chain.inner chain.inner.mempool timestamp view
  | .restart _ _ => Named log chain.inner
  | _ => True

def TidyRun (host : NodeHost) (parseU256 : String → Option U256)
    (validatorOverride : Option Address) :
    List Execution → Chain → List NodeStep → Prop
  | _, _, [] => True
  | log, chain, a :: as =>
    TidyStep host validatorOverride log chain a ∧
    ∀ chain', chain.nodeStep host parseU256 validatorOverride a = some chain' →
      TidyRun host parseU256 validatorOverride (stepLog host validatorOverride log chain a) chain' as

section
variable {host : NodeHost} {validatorOverride : Option Address} {log : List Execution}
variable {chain chain' : Chain}

theorem Indexed.seeded (h : Indexed log chain.inner) :
    Indexed log chain.ensureEpochValidatorsSeeded.inner :=
  h.of_same rfl rfl rfl rfl

-- The block that is made of the rows carries them under its own hash.
theorem Rows.txs {es : List Execution} {g : Inner} {m : Mined}
    {rows : List (StoredTx × List Address)} {key : Option ProposerKey} {parent b : Block}
    {count : Nat} {timestamp : U64} {view : U32} {proposerOverride : Option (Address × Bytes)}
    (h : Rows es g m rows)
    (hb : b = mineBlock host key parent count timestamp view proposerOverride m) :
    b.txs = rows.map fun r => { r.1 with blockHash := b.hash } := by
  have hstored : m.stored = rows.map Prod.fst := h.ran.stored
  have htxs : b.txs = m.stored.map fun tx => { tx with blockHash := b.hash } := hb ▸ rfl
  rw [htxs, hstored, List.map_map]
  rfl

theorem Indexed.apply {b : WireBlock} {produced : Block} (h : Indexed log chain.inner)
    (htidy : TidyBlock host validatorOverride chain b)
    (happly : chain.validateAndApplyBlock host b validatorOverride = some (.ok produced, chain')) :
    Indexed (log ++ blockExecutions host chain b) chain'.inner := by
  obtain ⟨hnew, hfresh⟩ := htidy produced chain' happly
  rcases validateAndApplyBlock_cases happly with ⟨_, hr, -⟩ |
    ⟨pending, m, produced', hr, -, hdecode, hmine, hproduced, ⟨-, -, hhash⟩, rfl⟩
  · cases hr
  · cases hr
    have hexecutions : blockExecutions host chain b =
        minedExecutions host chain.ensureEpochValidatorsSeeded.inner pending b.timestamp b.view := by
      rw [blockExecutions, hdecode, Option.elim_some]
    obtain ⟨rows, hrows⟩ := rows_of_fresh hmine (hfresh pending hdecode)
    have happend := h.seeded.append hrows (hrows.txs hproduced) fun b' hb' => hhash ▸ hnew b' hb'
    rw [hexecutions]
    exact happend.of_same rfl rfl rfl rfl

theorem Indexed.cacheRawTxs (h : Indexed log chain.inner) (raws : List Bytes) :
    Indexed log (chain.cacheRawTxs host raws).inner :=
  h.of_same rfl rfl rfl rfl

theorem Indexed.reject {b : WireBlock} {e : BlockError} (h : Indexed log chain.inner)
    (happly : chain.validateAndApplyBlock host b validatorOverride = some (.error e, chain')) :
    Indexed log chain'.inner := by
  rw [(validateAndApplyBlock_error happly).1]
  exact h.seeded

theorem Indexed.branch {branch : List ForkBlockEntry} (h : Indexed log chain.inner)
    (htidy : TidyBranch host validatorOverride chain branch)
    (hbranch : chain.applyBranch host validatorOverride branch = some (.ok (), chain')) :
    Indexed (log ++ branchExecutions host validatorOverride chain branch) chain'.inner := by
  induction branch generalizing chain log with
  | nil =>
    cases hbranch
    rw [branchExecutions, List.append_nil]
    exact h
  | cons fb branch ih =>
    obtain ⟨produced, chain₁, hfb, hbranch⟩ := applyBranch_cons_ok.mp hbranch
    rw [branchExecutions]
    have hfirst := h.apply htidy.1 hfb
    have hrest := ih (hfirst.cacheRawTxs fb.rawTxs) (htidy.2 produced chain₁ hfb) hbranch
    rw [hfb]
    rw [List.append_assoc] at hrest
    exact hrest

-- A competing block that leads to no reorg leaves the indexes, and so does a reorg that fails.
theorem Indexed.consider {b : WireBlock} {r : Except BlockError (Option Block)}
    (h : Indexed log chain.inner) (htidy : TidyReorg host validatorOverride chain b)
    (hconsider : chain.considerCompetingBlock host b validatorOverride = some (r, chain')) :
    Indexed (stepLog host validatorOverride log chain (.consider b)) chain'.inner := by
  have hkept : (∀ tip, r ≠ .ok (some tip)) →
      stepLog host validatorOverride log chain (.consider b) = log := by
    intro hnone
    rw [stepLog, hconsider]
    rcases r with e | _ | tip
    · rfl
    · rfl
    · exact absurd rfl (hnone tip)
  rcases considerCompetingBlock_cases hconsider with ⟨hnone, hsame⟩ | ⟨candidate, hbest, hreorg⟩
  · rw [hkept hnone]
    rcases hsame with rfl | rfl
    · exact h.seeded
    · exact h.of_same rfl rfl rfl rfl
  · rcases executeReorg_cases hreorg with ⟨rfl, rfl⟩ |
      ⟨s, hstate, ⟨_, _, rfl, -, rfl⟩ | ⟨applied, rfl, hbranch, rfl⟩⟩
    · rw [hkept nofun]
      exact h.of_same rfl rfl rfl rfl
    · rw [hkept nofun]
      exact h.of_same rfl rfl rfl rfl
    · have hbest : chain.rivalBranch host b = some candidate := hbest
      have hstate : chain.recentStates.get candidate.caHeight = some (candidate.caHeight, s) :=
        hstate
      obtain ⟨hempty, hbranches⟩ := htidy candidate s applied hbest hstate hbranch
      have hdisplaced : (chain.inner.blocks.drop (candidate.caHeight + 1)).flatMap Block.txs = [] :=
        List.flatMap_eq_nil_iff.mpr hempty
      have hlog : stepLog host validatorOverride log chain (.consider b) =
          log ++ branchExecutions host validatorOverride
            ((chain.withRival host b).cut candidate.caHeight s) candidate.branch := by
        rw [stepLog, hconsider]
        show reorgLog host validatorOverride log chain b = _
        rw [reorgLog, hbest, Option.elim_some, hstate, Option.elim_some, hdisplaced]
        simp
      have hrival : Indexed log (chain.withRival host b).inner := h.of_same rfl rfl rfl rfl
      have happlied := (hrival.truncate s hempty).branch hbranches hbranch
      rw [hlog]
      exact happlied

theorem Indexed.produce {timestamp : U64} {view : U32} {b : Block} (h : Indexed log chain.inner)
    (hnew : ∀ b' ∈ chain.inner.blocks, b'.hash ≠ b.hash)
    (hfresh : FreshTxs host chain.inner chain.inner.mempool timestamp view)
    (hproduce : chain.produceBlockAtView host timestamp view = some (b, chain')) :
    Indexed (log ++ minedExecutions host chain.inner chain.inner.mempool timestamp view)
      chain'.inner := by
  obtain ⟨m, hmine, hb, rfl⟩ := executeBlock_eq_some hproduce
  have hmine : mine host chain.inner chain.inner.mempool timestamp view = some m := hmine
  obtain ⟨rows, hrows⟩ := rows_of_fresh hmine hfresh
  exact (h.append hrows (hrows.txs hb) hnew).of_same rfl rfl rfl rfl

theorem Indexed.step {parseU256 : String → Option U256} {a : NodeStep}
    (hparse : ∀ v : U256, parseU256 (decimal v) = some v) (h : Indexed log chain.inner)
    (htidy : TidyStep host validatorOverride log chain a)
    (hstep : chain.nodeStep host parseU256 validatorOverride a = some chain') :
    Indexed (stepLog host validatorOverride log chain a) chain'.inner := by
  cases a with
  | submit now raw =>
    cases hstep
    rcases ingestRawTx_cases (Prod.eta (chain.ingestRawTx host now raw)).symm with
      ⟨_, -, heq⟩ | ⟨_, -, -, -, heq⟩
    · rw [heq]
      exact h
    · rw [heq]
      exact h.of_same rfl rfl rfl rfl
  | apply b =>
    rw [Chain.nodeStep] at hstep
    rw [stepLog]
    split at hstep
    · cases hstep
    · rename_i happly
      cases hstep
      rw [happly]
      exact (h.apply htidy happly).cacheRawTxs b.rawTxs
    · rename_i happly
      cases hstep
      rw [happly]
      exact h.reject happly
  | consider b =>
    rw [Chain.nodeStep] at hstep
    split at hstep
    · cases hstep
    · rename_i hconsider
      cases hstep
      exact (h.consider htidy hconsider).cacheRawTxs b.rawTxs
    · rename_i hconsider
      cases hstep
      exact h.consider htidy hconsider
    · rename_i hconsider
      cases hstep
      exact h.consider htidy hconsider
  | produce timestamp view =>
    obtain ⟨⟨b, _⟩, hproduce, rfl⟩ := Option.map_eq_some_iff.mp hstep
    exact h.produce (htidy.1 b _ hproduce) htidy.2 hproduce
  | consult =>
    cases hstep
    exact h.seeded
  | restart chainId genesisTime =>
    obtain ⟨s, hstate⟩ := exists_imported chain.inner.state
    rw [Chain.nodeStep, fromSnapshot_exportSnapshot hparse host _ _ _ hstate] at hstep
    cases hstep
    exact h.loadInto htidy _ s

theorem Indexed.run {parseU256 : String → Option U256} {steps : List NodeStep}
    (hparse : ∀ v : U256, parseU256 (decimal v) = some v) (h : Indexed log chain.inner)
    (htidy : TidyRun host parseU256 validatorOverride log chain steps)
    (hrun : chain.nodeRun host parseU256 validatorOverride steps = some chain') :
    Indexed (runLog host parseU256 validatorOverride log chain steps) chain'.inner := by
  induction steps generalizing chain log with
  | nil =>
    cases hrun
    exact h
  | cons a steps ih =>
    obtain ⟨chain₁, hfirst, hrest⟩ := Option.bind_eq_some_iff.mp hrun
    rw [runLog, hfirst, Option.elim_some]
    exact ih (h.step hparse htidy.1 hfirst) (htidy.2 chain₁ hfirst) hrest

-- Along a tidy run the indexes are those of the canonical blocks.
theorem indexes_derived {parseU256 : String → Option U256} {proposerKey : Option ProposerKey}
    {genesisTime : U64} {s : MemState} {steps : List NodeStep}
    (hparse : ∀ v : U256, parseU256 (decimal v) = some v)
    (htidy : TidyRun host parseU256 validatorOverride []
      (Chain.genesis host proposerKey genesisTime s) steps)
    (hrun : (Chain.genesis host proposerKey genesisTime s).nodeRun host parseU256
      validatorOverride steps = some chain) :
    Derived (runLog host parseU256 validatorOverride []
      (Chain.genesis host proposerKey genesisTime s) steps) chain.inner :=
  ((indexed_genesis host proposerKey genesisTime s).run hparse htidy hrun).toDerived

-- What an address was listed for stays listed, whatever block is applied.
theorem listed_validateAndApplyBlock {b : WireBlock} {r : Except BlockError Block} {a : Address}
    {hash : Hash} (hlisted : hash ∈ chain.inner.addrIndex.activity a)
    (happly : chain.validateAndApplyBlock host b validatorOverride = some (r, chain')) :
    hash ∈ chain'.inner.addrIndex.activity a := by
  rcases validateAndApplyBlock_cases happly with ⟨_, -, hsame, -⟩ |
    ⟨pending, m, produced, -, -, -, hmine, -, -, rfl⟩
  · rw [hsame]
    exact hlisted
  · obtain ⟨rows, sweep, hran, -⟩ := rows_of_mine hmine
    have hindex : m.addrIndex = rows.foldl indexRow chain.inner.addrIndex := hran.addrIndex
    show hash ∈ m.addrIndex.activity a
    rw [hindex]
    exact mem_activity_foldl_indexRow hlisted

-- A reorg unwinds no list.
theorem listed_executeReorg {branch : List ForkBlockEntry} {caHeight : Nat}
    {r : Except BlockError (Option Block)} {a : Address} {hash : Hash}
    (hlisted : hash ∈ chain.inner.addrIndex.activity a)
    (hreorg : chain.executeReorg host branch caHeight validatorOverride = some (r, chain')) :
    hash ∈ chain'.inner.addrIndex.activity a := by
  rcases executeReorg_cases hreorg with ⟨-, rfl⟩ |
    ⟨s, -, ⟨_, _, -, -, rfl⟩ | ⟨applied, -, hbranch, rfl⟩⟩
  · exact hlisted
  · exact hlisted
  · have hkept := applyBranch_keeps (P := fun c => hash ∈ c.inner.addrIndex.activity a)
      (fun _ _ _ _ h happly => listed_validateAndApplyBlock h happly) (fun _ _ h => h)
      (by exact hlisted) hbranch
    exact hkept

-- So a reorg that takes a transaction off the chain leaves the lists behind.
theorem not_derived_of_displaced {branch : List ForkBlockEntry} {caHeight : Nat}
    {r : Except BlockError (Option Block)} {a : Address} {tx : StoredTx}
    (h : Derived log chain.inner) (htx : tx ∈ chain.inner.canonicalTxs) (htouches : Touches log tx a)
    (hreorg : chain.executeReorg host branch caHeight validatorOverride = some (r, chain'))
    (hgone : tx.hash ∉ chain'.inner.canonicalTxs.map StoredTx.hash) (log' : List Execution) :
    ¬ Derived log' chain'.inner := by
  intro h'
  have hlisted : tx.hash ∈ chain.inner.addrIndex.activity a := by
    rw [h.activity]
    exact List.mem_map_of_mem (List.mem_filter.mpr ⟨htx, decide_eq_true htouches⟩)
  have hkept := listed_executeReorg hlisted hreorg
  rw [h'.activity] at hkept
  exact hgone ((List.filter_sublist.map _).subset hkept)

end

theorem fresh_payment :
    FreshTxs servingHost payingPool.inner payingPool.inner.mempool 10#64 0#32 :=
  ⟨by decide +kernel, fun _ htx => absurd htx List.not_mem_nil, by decide +kernel⟩

theorem tidy_payment :
    TidyRun servingHost parseDecimalU256 (some 1#160) [] payingGenesis paymentSteps := by
  refine ⟨trivial, ?_⟩
  intro chain' hstep
  have hpool : chain' = payingPool := by
    rw [Chain.nodeStep, ingest_payment] at hstep
    cases hstep
    rfl
  subst hpool
  refine ⟨⟨?_, fresh_payment⟩, fun _ _ => trivial⟩
  intro b chain' hproduce b' hb'
  have hnew : (payingPool.produceBlockAtView servingHost 10#64 0#32).map
      (fun r => decide (payingPool.head.hash = r.1.hash)) = some false := by
    decide +kernel
  rw [hproduce] at hnew
  rw [List.mem_singleton.mp hb']
  exact of_decide_eq_false (Option.some.inj hnew)

theorem indexes_derived_payment : ∃ chain,
    payingGenesis.nodeRun servingHost parseDecimalU256 (some 1#160) paymentSteps = some chain ∧
      Derived (runLog servingHost parseDecimalU256 (some 1#160) [] payingGenesis paymentSteps)
        chain.inner := by
  obtain ⟨chain, -, hrun, -⟩ := run_payment
  exact ⟨chain, hrun, indexes_derived parseDecimalU256_decimal tidy_payment hrun⟩

-- An empty block of the first view takes the place of the block of the payment. The payment is
-- no longer canonical, but its sender is still listed for it.
theorem activity_outlives_payment : ∃ rival chain,
    payingGenesis.nodeRun servingHost parseDecimalU256 (some 1#160)
      [.submit 10#64 [6#8], .produce 10#64 1#32, .consider rival] = some chain ∧
      ∀ log, ¬ Derived log chain.inner := by
  have hrun : ((payingGenesis.produceBlockAtView servingHost 10#64 0#32).bind fun r =>
      (payingGenesis.nodeRun servingHost parseDecimalU256 (some 1#160)
        [.submit 10#64 [6#8], .produce 10#64 1#32, .consider (r.2.wireBlockFrom r.1)]).map fun c =>
          (c.inner.canonicalTxs.isEmpty, (c.inner.addrIndex.activity 6#160).isEmpty)) =
        some (true, false) := by
    decide +kernel
  obtain ⟨r, -, hrun⟩ := Option.bind_eq_some_iff.mp hrun
  obtain ⟨chain, hrun, hend⟩ := Option.map_eq_some_iff.mp hrun
  obtain ⟨hnone, hlisted⟩ := Prod.mk.inj hend
  refine ⟨_, chain, hrun, ?_⟩
  intro log h
  rw [h.activity, List.isEmpty_iff.mp hnone] at hlisted
  cases hlisted

end Ubi2.Rpc
