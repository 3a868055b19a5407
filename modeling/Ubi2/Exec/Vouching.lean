import Ubi2.Exec.Reachable
import Ubi2.Runtime.Lifecycle.Vouches

namespace Ubi2.Exec

open Ubi2.Runtime Ubi2.Runtime.MemState Ubi2.Lib

theorem Genesis.vouching (g : Genesis) : g.state.Vouching ∧ g.state.Listed := by
  have hseed := g.seeded
  have hnone : ∀ v x, ¬ g.state.Vouched v x := by
    intro v x hv
    simp [Vouched, hseed.forward] at hv
  refine ⟨⟨fun v x => ?_, fun v x hv => absurd hv (hnone v x),
    fun v x hv => absurd hv (hnone v x), fun v x hv => absurd hv (hnone v x)⟩, fun x h hget => ?_⟩
  · rw [hseed.reverse]
    exact ⟨fun hmem => by simp at hmem, fun hv => absurd hv (hnone v x)⟩
  · obtain ⟨h₀, hget₀, rfl⟩ := Option.map_eq_some_iff.mp hget
    rw [Human.core_vouchesIn, (hseed.humans x h₀ hget₀).2]
    exact ⟨List.nodup_nil, fun v => ⟨fun hv => (by cases hv), fun hv => absurd hv (hnone v x)⟩⟩

-- The forward and the reverse lists agree and have no duplicates, and every record counts
-- its reverse list.
structure VouchCoherent (s : MemState) : Prop where
  mirror : ∀ v x, x ∈ s.humanity.vouchesOut v ↔ v ∈ s.humanity.vouchersOf x
  nodup : ∀ a, (s.humanity.vouchesOut a).Nodup ∧ (s.humanity.vouchersOf a).Nodup
  counted : ∀ x h, s.getHuman x = some h →
    h.vouchesIn.length = (s.humanity.vouchersOf x).length

theorem vouchCoherent_of_listed {s : MemState} (hs : s.Vouching) (hl : s.Listed) :
    VouchCoherent s := by
  constructor
  · intro v x
    rw [HumanRegistry.mem_vouchesOut, HumanRegistry.mem_vouchersOf]
    exact (hs.mirror v x).symm
  · exact fun a => ⟨HumanRegistry.nodup_vouchesOut _ a, HumanRegistry.nodup_vouchersOf _ a⟩
  · intro x h hget
    obtain ⟨hnodup, hmem⟩ := hl x h.core (coreOf_of_get s hget)
    rw [Human.core_vouchesIn] at hnodup hmem
    refine List.Perm.length_eq ?_
    rw [List.perm_ext_iff_of_nodup hnodup (HumanRegistry.nodup_vouchersOf _ x)]
    intro v
    rw [hmem, HumanRegistry.mem_vouchersOf, hs.mirror]

-- The event does not uphold a case against a human whose vouches stand.
def SparesVouchersEvent (s : MemState) (e : Event) : Prop :=
  ∀ tx, e.action = .tx tx → ∀ a, Overrules e.ctx tx s a → s.humanity.vouchesOut a = []

section Step

variable {host : Host} {s s' : MemState} {e : Event} {o : Option OpOutcome}

theorem vouching_step (hs : s.Vouching) (h : step host s e = some (o, s')) : s'.Vouching :=
  have hchanges : Changes (fun _ _ => True) s s' := changes_step (fun _ _ _ _ => trivial) h
  vouching_changes hchanges hs

theorem listed_step (hs : s.Vouching) (hl : s.Listed) (hspares : SparesVouchersEvent s e)
    (h : step host s e = some (o, s')) : s'.Listed := by
  have hchanges : Changes SparesVouchers s s' :=
    changes_step (fun tx htx a ha => hspares tx htx a ha) h
  have hboth : s'.Vouching ∧ s'.Listed := by
    refine Run.invariant (P := fun s => s.Vouching ∧ s.Listed) ?_ hchanges ⟨hs, hl⟩
    exact fun s₁ s₂ hstep hboth =>
      ⟨vouching_change hstep hboth.1, listed_change hstep hboth.1 hboth.2⟩
  exact hboth.2

-- A transaction whose fee is charged and whose operation succeeds.
private theorem applyTx_ok {host : Host} {ctx : BlockCtx} {tx : KernelTx} {s s₁ : MemState}
    {fee : U128} {l : Ledger} {result : OpResult}
    (hfee : s.ledger.chargeFee tx.from_ tx.kind.gas ctx.timestamp = (.ok fee, l))
    (hone : applyOne host ctx tx { s with ledger := l } = some (.ok result, s₁)) :
    applyTx host ctx tx s =
      some (some { success := true, revertReason := none, result := result }, s₁) := by
  have happly : applyTx host ctx tx s = afterFee host ctx tx s (.ok fee, l) := by
    rw [applyTx, hfee]
  rw [happly]
  unfold afterFee
  dsimp only
  rw [hone]

-- A hub verdict runs once its nonce is taken.
private theorem applyOne_verdict {host : Host} {ctx : BlockCtx} {tx : KernelTx}
    {s s₁ s₂ : MemState} {caseId : CaseId} {v : CanonicalVerdict} {st : CaseStatus}
    (hk : tx.kind = .SubmitVerdict caseId v)
    (hnonce : consumeNonce s tx.from_ tx.nonce ctx.timestamp = (.ok (), s₁))
    (hres : s₁.submitVerdict caseId tx.from_ v ctx.number = (.ok st, s₂)) :
    applyOne host ctx tx s = some (.ok (.CaseId caseId), s₂) := by
  unfold applyOne
  rw [hk]
  dsimp only
  rw [hnonce]
  dsimp only
  unfold hubOp
  rw [hk]
  dsimp only
  rw [hres]
  rfl

-- A verdict that gets to its operation and upholds a case revokes the subject.
theorem step_of_overrules {tx : KernelTx} {a : Address} (haction : e.action = .tx tx)
    (h : Overrules e.ctx tx s a) : ∃ (o : Option OpOutcome) (s₁ : MemState) (c' : Case),
      s₁.humanity = s.humanity ∧ c'.upholds ∧
      c'.subject = a ∧ step host s e = some (o, (s₁.putCase c').actOnStatus c') := by
  obtain ⟨⟨s₁, fee, l, hfee, hnonce⟩, hup⟩ := h
  have hhum : s₁.humanity = s.humanity := by
    rw [(consumeNonce_ok hnonce).2]
    rfl
  unfold Upholds at hup
  cases hk : tx.kind with
  | SubmitVerdict caseId v =>
    simp only [hk] at hup
    obtain ⟨c, c', hvotes, hupholds, rfl⟩ := hup
    have hget : s₁.getCase caseId = some c := by
      have hget := hvotes.get
      simp only [getCase, hhum] at hget ⊢
      exact hget
    have hres : s₁.submitVerdict caseId tx.from_ v e.ctx.number =
        (.ok c'.status, (s₁.putCase c').actOnStatus c') := by
      unfold submitVerdict
      simp [hget, hvotes.isOpen, hvotes.onJury, hvotes.first, hvotes.tallied]
    have hstep : step host s e = some
        (some { success := true, revertReason := none, result := .CaseId caseId },
          (s₁.putCase c').actOnStatus c') := by
      unfold step
      rw [haction]
      exact applyTx_ok hfee (applyOne_verdict hk hnonce hres)
    exact ⟨_, s₁, c', hhum, hupholds, rfl, hstep⟩
  | _ => simp [hk] at hup

-- A revoked voucher stays in the records of those it vouched for.
theorem spares_of_coherent (hs : s.Vouching) (hl : s.Listed)
    (h : ∀ o s', step host s e = some (o, s') → VouchCoherent s') : SparesVouchersEvent s e := by
  intro tx haction a hover
  obtain ⟨o, s₁, c', hhum, hup, rfl, hstep⟩ : ∃ (o : Option OpOutcome) (s₁ : MemState)
      (c' : Case), s₁.humanity = s.humanity ∧ c'.upholds ∧ c'.subject = a ∧
        step host s e = some (o, (s₁.putCase c').actOnStatus c') :=
    step_of_overrules haction hover
  rw [List.eq_nil_iff_forall_not_mem]
  intro x hx
  have hv : s.Vouched c'.subject x := HumanRegistry.mem_vouchesOut.mp hx
  obtain ⟨h₀, hget₀, -⟩ := hs.vouchee _ x hv
  obtain ⟨hnodup, hmem⟩ := hl x h₀ hget₀
  have hne : x ≠ c'.subject := fun heq => hs.apart _ x hv heq.symm
  have hcore : ((s₁.putCase c').actOnStatus c').coreOf x = some h₀ := by
    rw [coreOf_actOnStatus, if_neg hne, coreOf_putCase, ← hget₀]
    simp only [coreOf, getHuman, hhum]
  obtain ⟨h', hget', rfl⟩ := Option.map_eq_some_iff.mp hcore
  rw [Human.core_vouchesIn] at hnodup hmem
  have hcoherent := h o _ hstep
  have hvouched : ∀ v, ((s₁.putCase c').actOnStatus c').Vouched v x →
      v ∈ h'.vouchesIn.erase c'.subject := by
    intro v hv'
    have hedges := edges_actOnStatus (s₁.putCase c') c'
    rw [if_pos hup] at hedges
    have hclear := (SameEdges.vouched (s := s₁.clearVouchEdges c'.subject) hedges v x).mp hv'
    obtain ⟨hold, hva, -⟩ := vouched_clear.mp hclear
    rw [hnodup.mem_erase_iff, hmem]
    refine ⟨hva, ?_⟩
    simp only [Vouched, hhum] at hold ⊢
    exact hold
  have hsubset : ((s₁.putCase c').actOnStatus c').humanity.vouchersOf x ⊆
      h'.vouchesIn.erase c'.subject := by
    intro v hv'
    exact hvouched v (HumanRegistry.mem_vouchesOut.mp ((hcoherent.mirror v x).mpr hv'))
  have hle := (hcoherent.nodup x).2.length_le_of_subset hsubset
  have hcount := hcoherent.counted x h' hget'
  have hin : c'.subject ∈ h'.vouchesIn := (hmem _).mpr hv
  have hpos := List.length_pos_of_mem hin
  rw [List.length_erase_of_mem hin] at hle
  omega

theorem vouchCoherent_iff_step (hs : s.Vouching) (hl : s.Listed) :
    (∀ o s', step host s e = some (o, s') → VouchCoherent s') ↔ SparesVouchersEvent s e :=
  ⟨spares_of_coherent hs hl, fun hspares _ _ hstep =>
    vouchCoherent_of_listed (vouching_step hs hstep) (listed_step hs hl hspares hstep)⟩

end Step

-- The vouch indexes and the counts of the records agree in every state that a run reaches
-- exactly when no step of it upholds a case against a human whose vouches stand.
theorem vouch_coherent_iff {host : Host} (g : Genesis) (es : List Event) :
    EveryStep host (fun s e => ∀ o s', step host s e = some (o, s') → VouchCoherent s')
        g.state es ↔
      EveryStep host SparesVouchersEvent g.state es := by
  have hrun : ∀ s : MemState, s.Vouching → s.Listed →
      (EveryStep host (fun s e => ∀ o s', step host s e = some (o, s') → VouchCoherent s') s es ↔
        EveryStep host SparesVouchersEvent s es) := by
    induction es with
    | nil => exact fun _ _ _ => Iff.rfl
    | cons e es ih =>
      intro s hs hl
      have hhead : (∀ o s', step host s e = some (o, s') → VouchCoherent s') ↔
          SparesVouchersEvent s e := vouchCoherent_iff_step hs hl
      constructor
      · rintro ⟨hp, hrest⟩
        have hspares := hhead.mp hp
        exact ⟨hspares, fun o s' hstep => (ih s' (vouching_step hs hstep)
          (listed_step hs hl hspares hstep)).mp (hrest o s' hstep)⟩
      · rintro ⟨hspares, hrest⟩
        exact ⟨hhead.mpr hspares, fun o s' hstep => (ih s' (vouching_step hs hstep)
          (listed_step hs hl hspares hstep)).mpr (hrest o s' hstep)⟩
  exact hrun g.state g.vouching.1 g.vouching.2

-- A voucher is revoked, and the human it vouched for still counts its vouch.
def voucherRevoked : List Event :=
  [act 1#64 4#160 0#64 (.RequestVerification 0#256),
    act 1#64 2#160 0#64 (.Vouch 4#160),
    act 1#64 1#160 0#64 (.Challenge 2#160 0#256),
    act 1#64 1#160 1#64 (.SubmitVerdict 1 (.new .Sybil .High)),
    act 1#64 3#160 0#64 (.SubmitVerdict 1 (.new .Sybil .High))]

theorem vouch_count_kept_of_revoked :
    ∃ s h, Reachable mockHost 7200#64 s ∧ s.getHuman 4#160 = some h ∧
      h.vouchesIn = [2#160] ∧ s.humanity.vouchersOf 4#160 = [] := by
  have hrun : (run mockHost devnet.state voucherRevoked).any (fun s =>
      (s.getHuman 4#160).any (fun h => h.vouchesIn = [2#160]) &&
        s.humanity.vouchersOf 4#160 = []) = true := by
    decide +kernel
  obtain ⟨s, hs, hboth⟩ := (Option.any_eq_true _ _).mp hrun
  rw [Bool.and_eq_true, Option.any_eq_true] at hboth
  obtain ⟨⟨h, hget, hvouches⟩, hnone⟩ := hboth
  exact ⟨s, h, reachable_devnet (by decide) hs, hget, by simpa using hvouches,
    by simpa using hnone⟩

end Ubi2.Exec
