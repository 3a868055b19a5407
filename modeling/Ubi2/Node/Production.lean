import Ubi2.Node.Driver
import Ubi2.Rpc.Agreement

namespace Ubi2.Node

open Ubi2.Runtime Ubi2.Lib Ubi2.Rpc

-- What reading the validators of a chain leaves alone.
structure ReadOnly (chain chain' : Chain) : Prop where
  head : SameHead chain chain'
  key : chain'.proposerKey = chain.proposerKey
  rawTx : chain'.inner.rawTx = chain.inner.rawTx

theorem ReadOnly.refl (chain : Chain) : ReadOnly chain chain := ⟨.refl _, rfl, rfl⟩

theorem ReadOnly.trans {a b c : Chain} (h : ReadOnly a b) (h' : ReadOnly b c) : ReadOnly a c :=
  ⟨h.head.trans h'.head, h'.key.trans h.key, h'.rawTx.trans h.rawTx⟩

section
variable {host : NodeHost} {d d₀ d' : NetDriver} {now : Nat} {timestamp : U64} {b : Block}
variable {validatorOverride : Option Address} {chain chain' f : Chain} {v : List Address}

theorem effectiveValidatorSet_eq
    (h : chain.effectiveValidatorSet validatorOverride = (v, chain')) :
    v = effectiveValidatorSet chain.ensureEpochValidatorsSeeded.inner.state validatorOverride ∧
      ReadOnly chain chain' := by
  cases validatorOverride with
  | some a =>
    cases h
    exact ⟨rfl, .refl _⟩
  | none =>
    cases h
    exact ⟨rfl, .seeded _, rfl, rfl⟩

theorem scheduledProposer_eq {height : Nat} {view : U32} {scheduled : Option Address}
    (h : chain.scheduledProposer height view validatorOverride = (scheduled, chain')) :
    ReadOnly chain chain' ∧
      let v := effectiveValidatorSet chain.ensureEpochValidatorsSeeded.inner.state
        validatorOverride
      scheduled = v[proposerIndex height view v.length]? := by
  rw [Chain.scheduledProposer] at h
  generalize hv : chain.effectiveValidatorSet validatorOverride = r at h
  obtain ⟨v, chain⟩ := r
  obtain ⟨rfl, hreads⟩ := effectiveValidatorSet_eq hv
  cases h
  exact ⟨hreads, rfl⟩

-- What a step of the driver leaves alone while it produces nothing.
structure Idle (d d' : NetDriver) : Prop where
  chain : ReadOnly d.chain d'.chain
  validatorOverride : d'.validatorOverride = d.validatorOverride

theorem Idle.publishConsensusStatus (h : Idle d₀ d) (now : Nat) :
    Idle d₀ (d.publishConsensusStatus now) := by
  rw [NetDriver.publishConsensusStatus]
  generalize hv : d.chain.effectiveValidatorSet d.validatorOverride = r
  obtain ⟨v, chain⟩ := r
  exact ⟨h.chain.trans (effectiveValidatorSet_eq hv).2, h.validatorOverride⟩

theorem reads_refreshAdvertisedState (host : NodeHost) (d : NetDriver) (now : Nat) :
    ReadOnly d.chain (d.refreshAdvertisedState host now).chain := by
  have hidle : Idle d (d.send (.UpdateHello (d.buildHello host))) := ⟨.refl _, rfl⟩
  exact (hidle.publishConsensusStatus now).chain

theorem idle_tickView (d : NetDriver) (now : Nat) : Idle d (d.tickView now) := by
  simp only [NetDriver.tickView]
  split_ifs
  · apply Idle.publishConsensusStatus
    exact ⟨.refl _, rfl⟩
  · apply Idle.publishConsensusStatus
    exact ⟨.refl _, rfl⟩
  · exact ⟨.refl _, rfl⟩

theorem productionGuardOk_eq {ok : Bool} (h : d.productionGuardOk now = (ok, d')) :
    ReadOnly d.chain d'.chain ∧ d'.currentView = d.currentView := by
  rw [NetDriver.productionGuardOk] at h
  generalize hv : d.chain.effectiveValidatorSet d.validatorOverride = r at h
  obtain ⟨v, chain⟩ := r
  cases h
  exact ⟨(effectiveValidatorSet_eq hv).2, rfl⟩

-- A node that produces has checked everything its peers check of the header but the
-- timestamp.
theorem produceIfScheduled_eq_some
    (h : d.produceIfScheduled host now timestamp = some (some b, d')) :
    ∃ key p p', ReadOnly d.chain p ∧ p.proposerKey = some key ∧
      (Presentable d.chain key timestamp d.currentView d.validatorOverride ↔
        d.chain.head.timestamp < timestamp) ∧
      p.produceBlockAtView host timestamp d.currentView = some (b, p') ∧
      d'.chain.inner.rawTx = p'.inner.rawTx := by
  rw [NetDriver.produceIfScheduled] at h
  generalize hsched : d.chain.scheduledProposer (d.chain.tip.1 + 1) d.currentView
    d.validatorOverride = r at h
  obtain ⟨scheduled, chain⟩ := r
  obtain ⟨hreads, hscheduled⟩ := scheduledProposer_eq hsched
  dsimp only at h
  by_cases hturn : d.chain.proposerAddress = none ∨ scheduled = none ∨
      d.chain.proposerAddress ≠ scheduled
  · rw [if_pos hturn] at h
    cases h
  rw [if_neg hturn] at h
  by_cases hview : VIEW_MAX ≤ d.currentView
  · rw [if_pos hview] at h
    cases h
  rw [if_neg hview] at h
  generalize hguard : NetDriver.productionGuardOk _ now = g at h
  obtain ⟨ok, d₂⟩ := g
  obtain ⟨hreads₂, hsame⟩ := productionGuardOk_eq hguard
  cases ok with
  | false => cases h
  | true =>
    dsimp only at h
    split at h
    · cases h
    · rename_i p' hproduce
      cases h
      rw [not_or, not_or, not_not] at hturn
      obtain ⟨hme, -, hturn⟩ := hturn
      obtain ⟨address, haddress⟩ := Option.ne_none_iff_exists'.mp hme
      obtain ⟨key, hkeyed, rfl⟩ := Option.map_eq_some_iff.mp haddress
      refine ⟨key, d₂.chain, p', hreads.trans hreads₂, ?_, ?_, hsame ▸ hproduce, ?_⟩
      · rw [hreads₂.key, hreads.key, hkeyed]
      · constructor
        · exact fun hpresentable => hpresentable.timely
        · intro htime
          refine ⟨htime, not_le.mp hview, ?_⟩
          rw [← haddress, hturn]
          exact hscheduled.symm
      · exact (reads_refreshAdvertisedState host _ now).rawTx

-- A block that a tick produces passes the header checks of a peer with the same head
-- exactly when the clock of the tick is past the timestamp of the head.
theorem tick_passes_header_iff
    (hsigns : ∀ key, d.chain.proposerKey = some key →
      ∀ hash, host.recoverProposer hash (key.signPrehash hash) = some key.address)
    (hsame : SameHead d.chain f)
    (htick : d.tickProposer host now timestamp = some (some b, d')) :
    headerError host f.head f.ensureEpochValidatorsSeeded.inner.state d.validatorOverride
      (d'.chain.wireBlockFrom b) = none ↔ d.chain.head.timestamp < timestamp := by
  have hidle : Idle d ((d.tickView now).publishConsensusStatus now) :=
    (idle_tickView d now).publishConsensusStatus now
  rw [NetDriver.tickProposer] at htick
  generalize (d.tickView now).publishConsensusStatus now = d₁ at htick hidle
  by_cases hproposer : ¬ d₁.isProposer
  · rw [if_pos hproposer] at htick
    cases htick
  rw [if_neg hproposer] at htick
  obtain ⟨key, p, p', hreads, hkeyed, hpresentable, hproduce, hraw⟩ :=
    produceIfScheduled_eq_some htick
  have hsigns := hsigns key (by rw [← hidle.chain.key, ← hreads.key, hkeyed])
  have hwire : d'.chain.wireBlockFrom b = p'.wireBlockFrom b := by
    simp only [Chain.wireBlockFrom, Chain.rawTxsForBlock, hraw]
  have hp : SameHead d.chain p := hidle.chain.head.trans hreads.head
  rw [hwire, headerError_produced d.validatorOverride (hp.symm.trans hsame).sameTip hkeyed hsigns hproduce,
    hreads.head.presentable_iff, ← hidle.validatorOverride, hpresentable, hidle.chain.head.head]

end

-- The only validator of a devnet, just started on its genesis.
def soloDriver : NetDriver :=
  .new (Chain.new devnetHost (some (.devnet 1#160)) 0#64) none (some 1#160) true 1#64 7#304 1000 0

-- The first block is past genesis, and passes.
theorem tick_passes_header_first : ∃ b d',
    soloDriver.tickProposer devnetHost 0 10#64 = some (some b, d') ∧
    headerError devnetHost soloDriver.chain.head
      soloDriver.chain.ensureEpochValidatorsSeeded.inner.state soloDriver.validatorOverride
      (d'.chain.wireBlockFrom b) = none := by
  have hrun : (soloDriver.tickProposer devnetHost 0 10#64).map (fun r => r.1.isSome) =
      some true := by decide +kernel
  obtain ⟨⟨produced, d'⟩, htick, hsome⟩ := Option.map_eq_some_iff.mp hrun
  obtain ⟨b, rfl⟩ := Option.isSome_iff_exists.mp hsome
  have hsigns : ∀ key, soloDriver.chain.proposerKey = some key →
      ∀ hash, devnetHost.recoverProposer hash (key.signPrehash hash) = some key.address := by
    intro key hkeyed hash
    cases hkeyed
    exact recover_devnet 1#160 hash
  exact ⟨b, d', htick, (tick_passes_header_iff hsigns (.refl _) htick).mpr (by decide)⟩

-- A second block in the same second is produced, and its peers turn it down.
theorem tick_in_same_second : ∃ b d b' d',
    soloDriver.tickProposer devnetHost 0 10#64 = some (some b, d) ∧
    d.tickProposer devnetHost 500 10#64 = some (some b', d') ∧
    headerError devnetHost d.chain.head d.chain.ensureEpochValidatorsSeeded.inner.state
      d.validatorOverride (d'.chain.wireBlockFrom b') = some .BadTimestamp := by
  have hrun : (soloDriver.tickProposer devnetHost 0 10#64).bind (fun r =>
      (r.2.tickProposer devnetHost 500 10#64).map fun r' =>
        (r.1.isSome, r'.1.map fun b' => headerError devnetHost r.2.chain.head
          r.2.chain.ensureEpochValidatorsSeeded.inner.state r.2.validatorOverride
          (r'.2.chain.wireBlockFrom b'))) =
      some (true, some (some BlockError.BadTimestamp)) := by decide +kernel
  obtain ⟨⟨first, d⟩, hfirst, hrun⟩ := Option.bind_eq_some_iff.mp hrun
  obtain ⟨⟨second, d'⟩, hsecond, hrun⟩ := Option.map_eq_some_iff.mp hrun
  obtain ⟨hsome, hheader⟩ := Prod.mk.inj hrun
  obtain ⟨b, rfl⟩ := Option.isSome_iff_exists.mp hsome
  obtain ⟨b', rfl, hheader⟩ := Option.map_eq_some_iff.mp hheader
  exact ⟨b, d, b', d', hfirst, hsecond, hheader⟩

end Ubi2.Node
