import Ubi2.Exec.Statuses
import Ubi2.Exec.Vouching

namespace Ubi2.Exec

open Ubi2.Runtime Ubi2.Runtime.MemState Ubi2.Lib

-- The challenge was opened after the latest registration of its subject.
def Current (s : MemState) (c : Case) : Prop :=
  ∀ r, s.lastRegistration c.subject = some r → r.id < c.id

-- The latest registration was graded human, and its challenge window has elapsed.
def RegistrationPassed (s : MemState) (subject : Address) (block : U64) : Prop :=
  ∃ r w, s.lastRegistration subject = some r ∧ r.status = .Committed w ∧ w.verdict = .Human ∧
    Word.satAdd r.openedAt CHALLENGE_WINDOW ≤ block

-- No challenge is open or was upheld since the latest registration.
def Unchallenged (s : MemState) (subject : Address) : Prop :=
  ∀ c ∈ s.cases, c.subject = subject → c.kind = .Challenge → Current s c →
    c.status ≠ .Open ∧ ¬ c.upholds

-- What the finalization of a human is to rest on.
structure FinalizationGate (s : MemState) (subject : Address) (block : U64) : Prop where
  vouchers : ∃ vs : List Address, vs.Nodup ∧ MIN_VOUCHES ≤ vs.length ∧
    ∀ v ∈ vs, subject ∈ s.humanity.vouchesOut v ∧ s.isVerified v
  registration : RegistrationPassed s subject block
  unchallenged : Unchallenged s subject

section Gate

variable {s : MemState} {subject : Address} {h : Human} {block : U64}

theorem registrationPassed_of_finalizable (hf : s.Finalizable subject h block) :
    RegistrationPassed s subject block := by
  have hlive := hf.liveness
  have hwindow := hf.window
  simp only [livenessPassed, registrationOpenedAt] at hlive hwindow
  cases hlast : s.lastRegistration subject with
  | none => simp [hlast] at hlive
  | some r =>
    rw [hlast] at hlive hwindow
    cases hstatus : r.status with
    | Open => simp [hstatus] at hlive
    | Escalated => simp [hstatus] at hlive
    | Committed w =>
      simp only [hstatus, decide_eq_true_eq] at hlive
      exact ⟨r, w, hlast, hstatus, hlive, hwindow⟩

theorem pendingOrUpheld_iff : s.hasPendingOrUpheldChallenge subject = true ↔
    ∃ c ∈ s.cases, c.subject = subject ∧ c.kind = .Challenge ∧
      (c.status = .Open ∨ c.upholds) := by
  simp only [hasPendingOrUpheldChallenge, List.any_eq_true, Bool.and_eq_true,
    decide_eq_true_eq]
  constructor
  · rintro ⟨c, hc, ⟨hsubject, hkind⟩, hstatus⟩
    refine ⟨c, hc, hsubject, hkind, ?_⟩
    cases hst : c.status with
    | Open => exact Or.inl rfl
    | Escalated => simp [hst] at hstatus
    | Committed w =>
      simp only [hst, decide_eq_true_eq] at hstatus
      exact Or.inr ⟨w, hst, hstatus⟩
  · rintro ⟨c, hc, hsubject, hkind, hopen | ⟨w, hw, hsybil⟩⟩
    · exact ⟨c, hc, ⟨hsubject, hkind⟩, by simp [hopen]⟩
    · exact ⟨c, hc, ⟨hsubject, hkind⟩, by simp [hw, hsybil]⟩

-- A finalization rests on its gate while the vouches that it counts stand, and none of the
-- vouchers is challenged.
theorem finalizationGate_of_backed (hs : s.Vouching) (hr : s.Recorded) (hb : s.ApplicantsBacked)
    (hf : s.Finalizable subject h block)
    (hfree : ∀ v ∈ h.vouchesIn, s.statusOf v ≠ some .Challenged) :
    FinalizationGate s subject block := by
  have hcore : s.coreOf subject = some h.core := coreOf_of_get s hf.get
  obtain ⟨hnodup, -⟩ := hr subject h.core hcore
  rw [Human.core_vouchesIn] at hnodup
  refine ⟨⟨h.vouchesIn, hnodup, hf.vouches, fun v hv => ?_⟩, registrationPassed_of_finalizable hf,
    fun c hc hsubject hkind _ => ?_⟩
  · have hvouched : s.Vouched v subject := hb subject h.core hcore hf.pending v hv
    refine ⟨HumanRegistry.mem_vouchesOut.mpr hvouched, ?_⟩
    obtain ⟨x, hget, hvouches⟩ := hs.voucher v subject hvouched
    have hstatus : s.statusOf v = some x.status := by
      rw [statusOf_eq, hget]
      rfl
    rcases hvouches with hverified | hchallenged
    · rw [hverified] at hstatus
      obtain ⟨h₀, hget₀, hst⟩ := Option.map_eq_some_iff.mp hstatus
      exact (Option.any_eq_true _ _).mpr ⟨h₀, hget₀, decide_eq_true hst⟩
    · rw [hchallenged] at hstatus
      exact absurd hstatus (hfree v hv)
  · have hnone : ¬ (c.status = .Open ∨ c.upholds) := by
      intro hbad
      have hsome := pendingOrUpheld_iff.mpr ⟨c, hc, hsubject, hkind, hbad⟩
      rw [hf.unchallenged] at hsome
      cases hsome
    exact ⟨fun hopen => hnone (Or.inl hopen), fun hup => hnone (Or.inr hup)⟩

end Gate

-- The sweeps of a block challenge no one who is not pending, and open no registration: a
-- human that is challenged, or ready to be finalized, was so before.
structure Swept (s s' : MemState) : Prop where
  challenged : ∀ a, s'.statusOf a = some .Challenged → s.statusOf a = some .Challenged
  finalizable : ∀ a h block, s'.Finalizable a h block → s.Finalizable a h block

section Sweep

variable (host : Host) {ctx : BlockCtx} {s s' s'' : MemState} {subject : Address}

theorem Swept.refl (s : MemState) : Swept s s := ⟨fun _ h => h, fun _ _ _ h => h⟩

theorem Swept.trans (h : Swept s s') (h' : Swept s' s'') : Swept s s'' where
  challenged a ha := h.challenged a (h'.challenged a ha)
  finalizable a x block hx := h.finalizable a x block (h'.finalizable a x block hx)

-- A new challenge leaves the latest registration of everyone.
theorem lastRegistration_addCase (hs : s.Docket) {c : Case} {challenger : Address} {block : U64}
    (hc : s.Opens c subject challenger .Challenge block) (a : Address) :
    (s.addCase c).lastRegistration a = s.lastRegistration a := by
  have hrows : (s.addCase c).cases = s.cases ++ [c] := by
    refine Table.rows_put_of_lt (fun x hx => ?_)
    rw [hc.id]
    exact hs.ids x hx
  have hkind : ¬ (c.subject = a ∧ c.kind = .Registration) := by
    rw [hc.kind]
    rintro ⟨-, hkind⟩
    cases hkind
  simp [lastRegistration, hrows, hkind]

-- The scan opens a challenge against a pending human at most, and leaves it pending.
theorem sweepSybilOne_cases (hs : s.Docket) (hpending : s.statusOf subject = some .Pending)
    (blockHash : Hash) (nowBlock : U64) :
    sweepSybilOne host blockHash nowBlock s subject = s ∨
    ∃ h c, s.getHuman subject = some h ∧ s.Opens c subject HUMANITY_HUB .Challenge nowBlock ∧
      sweepSybilOne host blockHash nowBlock s subject = (s.addCase c).putHuman h := by
  unfold sweepSybilOne
  split_ifs with hverdict
  · exact Or.inl rfl
  cases hres : s.systemChallenge host.usizeBits HUMANITY_HUB subject
      (sybilEvidence host subject blockHash) (blockEntropy blockHash nowBlock) nowBlock with
  | mk r s₁ =>
    obtain ⟨e, -, rfl⟩ | ⟨h, c, hget, -, -, -, hc, -, -, -, rfl⟩ := challengeInner_cases s hres
    · exact Or.inl rfl
    · refine Or.inr ⟨h, c, hget, hc, ?_⟩
      rw [statusOf_of_get hget, Option.some_inj] at hpending
      rw [challenged, if_neg (by simp [hpending])]

-- The records are the same, and the cases at most those of before and new challenges.
theorem swept_of_cases (hhuman : ∀ a, s'.getHuman a = s.getHuman a)
    (hlast : ∀ a, s'.lastRegistration a = s.lastRegistration a)
    (hcases : ∀ c ∈ s.cases, c ∈ s'.cases) : Swept s s' := by
  constructor
  · intro a ha
    rwa [statusOf, hhuman] at ha
  · intro a x block hx
    refine ⟨(hhuman a).symm.trans hx.get, hx.pending, ?_, hx.vouches, ?_, ?_⟩
    · have hliveness := hx.liveness
      rwa [livenessPassed, hlast] at hliveness
    · have hwindow := hx.window
      rwa [registrationOpenedAt, hlast] at hwindow
    · have hnone := hx.unchallenged
      rw [Bool.eq_false_iff] at hnone ⊢
      intro hsome
      obtain ⟨c, hc, hrest⟩ := List.any_eq_true.mp hsome
      exact hnone (List.any_eq_true.mpr ⟨c, hcases c hc, hrest⟩)

theorem swept_sweepSybilOne (hs : s.Docket) (hpending : s.statusOf subject = some .Pending)
    (blockHash : Hash) (nowBlock : U64) :
    Swept s (sweepSybilOne host blockHash nowBlock s subject) ∧
      (sweepSybilOne host blockHash nowBlock s subject).statusOf = s.statusOf := by
  obtain hsame | ⟨h, c, hget, hc, hnew⟩ :=
    sweepSybilOne_cases host hs hpending blockHash nowBlock
  · rw [hsame]
    exact ⟨.refl s, rfl⟩
  rw [hnew]
  have haddress : h.address = subject := Table.key_of_get hget
  have hhuman : ∀ a, ((s.addCase c).putHuman h).getHuman a = s.getHuman a := by
    intro a
    rw [getHuman_putHuman, haddress]
    split_ifs with ha
    · rw [← ha, hget]
    · rfl
  refine ⟨swept_of_cases hhuman (fun a => lastRegistration_addCase hs hc a) (fun x hx => ?_), ?_⟩
  · exact (hs.mem_addCase hc).mpr (Or.inr hx)
  · funext a
    rw [statusOf, hhuman, statusOf]

theorem swept_foldl_sweepSybilOne (hs : s.Docket) (blockHash : Hash) (nowBlock : U64)
    {subjects : List Address} (hpending : ∀ a ∈ subjects, s.statusOf a = some .Pending) :
    Swept s (subjects.foldl (sweepSybilOne host blockHash nowBlock) s) := by
  induction subjects generalizing s with
  | nil => exact .refl s
  | cons a subjects ih =>
    rw [List.forall_mem_cons] at hpending
    obtain ⟨hswept, hstatus⟩ := swept_sweepSybilOne host hs hpending.1 blockHash nowBlock
    have hchange : Changes (fun _ _ => True) s (sweepSybilOne host blockHash nowBlock s a) :=
      changes_sweepSybilOne blockHash nowBlock s a
    refine hswept.trans (ih (docket_changes hchange hs) ?_)
    rw [hstatus]
    exact hpending.2

theorem swept_sweepFinalizeOne (s : MemState) (subject : Address) :
    Swept s (sweepFinalizeOne ctx s subject) := by
  unfold sweepFinalizeOne
  cases hres : s.finalizeRegistration subject ctx.number ctx.timestamp with
  | mk r s₁ =>
    obtain ⟨e, -, rfl, -⟩ | ⟨h, hf, -, rfl⟩ := finalizeRegistration_cases s hres
    · exact .refl s₁
    have haddress : h.address = subject := Table.key_of_get hf.get
    have hother : ∀ a, a ≠ subject → ((s.syncAccountVerified subject true ctx.timestamp).putHuman
        { h with status := .Verified, verifiedAt := ctx.timestamp }).getHuman a =
          s.getHuman a := by
      intro a ha
      rw [getHuman_putHuman, if_neg (fun heq => ha (heq.symm.trans haddress))]
      rfl
    have hself : ((s.syncAccountVerified subject true ctx.timestamp).putHuman
        { h with status := .Verified, verifiedAt := ctx.timestamp }).getHuman subject =
          some { h with status := .Verified, verifiedAt := ctx.timestamp } := by
      rw [getHuman_putHuman, if_pos haddress]
    constructor
    · intro a ha
      by_cases hsubject : a = subject
      · rw [hsubject, statusOf, hself] at ha
        cases ha
      · rwa [statusOf, hother a hsubject] at ha
    · intro a x block hx
      by_cases hsubject : a = subject
      · have hget := hx.get
        rw [hsubject, hself] at hget
        cases hget
        cases hx.pending
      · exact ⟨(hother a hsubject).symm.trans hx.get, hx.pending, hx.liveness, hx.vouches,
          hx.window, hx.unchallenged⟩

-- The sweeps of a block up to one of their finalizations.
theorem swept_of_finalizing (hs : s.Docket) (done : List Address) :
    Swept s (done.foldl (sweepFinalizeOne ctx)
      (sweepSybilScan host s ctx.blockHash ctx.number)) := by
  have hscan : Swept s (sweepSybilScan host s ctx.blockHash ctx.number) :=
    swept_foldl_sweepSybilOne host hs ctx.blockHash ctx.number
      (fun _ ha => statusOf_of_mem_pendingHumans ha)
  exact Run.foldl_invariant (P := Swept s)
    (fun s₁ a h => h.trans (swept_sweepFinalizeOne s₁ a)) done hscan

end Sweep

-- The sweep of the block finalizes the human in the state that it has reached.
def Finalizes (host : Host) (s : MemState) (e : Event) (s₁ : MemState) (subject : Address) :
    Prop :=
  e.action = .sweeps ∧
  ∃ done, done ++ [subject] <+: pendingHumans (sweepSybilScan host s e.ctx.blockHash e.ctx.number) ∧
    s₁ = done.foldl (sweepFinalizeOne e.ctx)
      (sweepSybilScan host s e.ctx.blockHash e.ctx.number) ∧
    (s₁.finalizeRegistration subject e.ctx.number e.ctx.timestamp).1 = .ok ()

-- No verdict strips a human that vouches for an applicant, and no sweep comes to an applicant
-- that is ready while one of its vouchers is challenged.
structure KeepsVouchers (s : MemState) (e : Event) : Prop where
  verdict : ∀ tx, e.action = .tx tx → ∀ a, Overrules e.ctx tx s a → SparesApplicants s.humanity a
  sweep : e.action = .sweeps → ∀ x h, s.Finalizable x h e.ctx.number →
    ∀ v ∈ h.vouchesIn, s.statusOf v ≠ some .Challenged

-- What the finalizations of a run rest on.
structure Vetted (s : MemState) : Prop where
  vouching : s.Vouching
  recorded : s.Recorded
  backed : s.ApplicantsBacked
  docket : s.Docket

section Run

variable {host : Host} {s s' : MemState} {e : Event} {o : Option OpOutcome}

theorem vetted_changes (h : Changes SparesApplicants s s') (hs : Vetted s) : Vetted s' := by
  refine Run.invariant (P := Vetted) (fun s₁ s₂ hstep hv => ?_) h hs
  exact ⟨vouching_change hstep hv.vouching, recorded_change hstep hv.vouching hv.recorded,
    backed_change hstep hv.vouching hv.backed, docket_change hstep hv.docket⟩

theorem Genesis.vetted (g : Genesis) : Vetted g.state := by
  refine ⟨g.vouching.1, fun x h hget => ?_, fun x h hget hpending => ?_, g.docket⟩
  · obtain ⟨hnodup, hmem⟩ := g.vouching.2 x h hget
    exact ⟨hnodup, fun v hv => (hmem v).mpr hv⟩
  · obtain ⟨-, hmem⟩ := g.vouching.2 x h hget
    exact fun v hv => (hmem v).mp hv

theorem vetted_step (hkeeps : KeepsVouchers s e) (hs : Vetted s)
    (hstep : step host s e = some (o, s')) : Vetted s' :=
  vetted_changes (changes_step (fun tx htx a ha => hkeeps.verdict tx htx a ha) hstep) hs

theorem gate_of_finalizes {s₁ : MemState} {subject : Address} (hkeeps : KeepsVouchers s e)
    (hs : Vetted s) (hf : Finalizes host s e s₁ subject) :
    FinalizationGate s₁ subject e.ctx.number := by
  obtain ⟨haction, done, -, rfl, hok⟩ := hf
  have hswept : Swept s (done.foldl (sweepFinalizeOne e.ctx)
      (sweepSybilScan host s e.ctx.blockHash e.ctx.number)) :=
    swept_of_finalizing host hs.docket done
  have hvetted : Vetted (done.foldl (sweepFinalizeOne e.ctx)
      (sweepSybilScan host s e.ctx.blockHash e.ctx.number)) :=
    vetted_changes ((changes_sweepSybilScan e.ctx.blockHash e.ctx.number).trans
      (changes_foldl changes_sweepFinalizeOne done)) hs
  generalize done.foldl (sweepFinalizeOne e.ctx)
    (sweepSybilScan host s e.ctx.blockHash e.ctx.number) = s₁ at hok hswept hvetted ⊢
  have hres : s₁.finalizeRegistration subject e.ctx.number e.ctx.timestamp =
      (.ok (), (s₁.finalizeRegistration subject e.ctx.number e.ctx.timestamp).2) :=
    Prod.ext hok rfl
  obtain ⟨e', herr, -⟩ | ⟨h, hf, -, -⟩ := finalizeRegistration_cases s₁ hres
  · cases herr
  -- the human was ready when the sweep began, with the same vouchers
  have hready : s.Finalizable subject h e.ctx.number := hswept.finalizable subject h _ hf
  refine finalizationGate_of_backed hvetted.vouching hvetted.recorded hvetted.backed hf ?_
  intro v hv hchallenged
  exact hkeeps.sweep haction subject h hready v hv (hswept.challenged v hchallenged)

end Run

-- In every run that keeps the vouchers of its applicants, every finalization rests on its
-- gate.
theorem finalization_gated {host : Host} (g : Genesis) (es : List Event)
    (hkeeps : EveryStep host KeepsVouchers g.state es) :
    EveryStep host (fun s e => ∀ s₁ subject, Finalizes host s e s₁ subject →
      FinalizationGate s₁ subject e.ctx.number) g.state es :=
  hkeeps.imp_of_invariant (I := Vetted) (fun _ _ _ _ hk hs hstep => vetted_step hk hs hstep)
    (fun _ _ hs hk _ _ hf => gate_of_finalizes hk hs hf) g.vetted

-- An applicant with two vouchers, at the end of its window.
def vouchedTwice : List Event :=
  [act 1#64 4#160 0#64 (.RequestVerification 0#256),
    act 1#64 2#160 0#64 (.Vouch 4#160),
    act 1#64 3#160 0#64 (.Vouch 4#160)]

theorem keepsVouchers_vouchedTwice :
    EveryStep mockHost KeepsVouchers devnet.state (vouchedTwice ++ [sweep 6#64]) := by
  refine EveryStep.append (.of_mem (fun e he s => ?_)) (fun s hs => ⟨?_, fun _ _ _ => trivial⟩)
  · simp only [vouchedTwice, List.mem_cons, List.not_mem_nil, or_false] at he
    rcases he with rfl | rfl | rfl
    all_goals
      refine ⟨fun tx htx a hover => ?_, fun haction => ?_⟩
      · cases htx
        exact hover.2.elim
      · cases haction
  · refine ⟨fun tx htx => ?_, fun _ x h _ v _ => ?_⟩
    · cases htx
    · have hrun : (run mockHost devnet.state vouchedTwice).all (fun s =>
          s.humanity.humans.rows.all (fun h => h.status ≠ .Challenged)) = true := by
        decide +kernel
      rw [hs, Option.all_some, List.all_eq_true] at hrun
      intro hstatus
      obtain ⟨h₀, hget, hst⟩ := Option.map_eq_some_iff.mp hstatus
      exact of_decide_eq_true (hrun h₀ (Table.mem_of_get hget)) hst

theorem finalization_gated_vouchedTwice :
    ∃ s s₁, run mockHost devnet.state vouchedTwice = some s ∧
      Finalizes mockHost s (sweep 6#64) s₁ 4#160 ∧ FinalizationGate s₁ 4#160 6#64 := by
  have hrun : (run mockHost devnet.state vouchedTwice).any (fun s =>
      pendingHumans (sweepSybilScan mockHost s 0#256 6#64) = [4#160] &&
      (match ((sweepSybilScan mockHost s 0#256 6#64).finalizeRegistration 4#160 6#64 7200#64).1 with
        | .ok _ => true
        | .error _ => false)) = true := by
    decide +kernel
  obtain ⟨s, hs, hboth⟩ := (Option.any_eq_true _ _).mp hrun
  rw [Bool.and_eq_true, decide_eq_true_eq] at hboth
  obtain ⟨hpending, hok⟩ := hboth
  have hf : Finalizes mockHost s (sweep 6#64) (sweepSybilScan mockHost s 0#256 6#64) 4#160 := by
    refine ⟨rfl, [], ?_, rfl, ?_⟩
    · change [4#160] <+: pendingHumans (sweepSybilScan mockHost s 0#256 6#64)
      rw [hpending]
    · split at hok
      · rename_i u hu
        exact hu
      · cases hok
  have hgates := finalization_gated devnet (vouchedTwice ++ [sweep 6#64]) keepsVouchers_vouchedTwice
  exact ⟨s, _, hs, hf, (hgates.after_run hs).1 _ _ hf⟩

-- Two vouchers, of whom one is revoked before the window of the applicant ends.
def voucherLost : List Event :=
  [act 1#64 4#160 0#64 (.RequestVerification 0#256),
    act 1#64 2#160 0#64 (.Vouch 4#160),
    act 1#64 3#160 0#64 (.Vouch 4#160),
    act 1#64 1#160 0#64 (.Challenge 2#160 0#256),
    act 1#64 1#160 1#64 (.SubmitVerdict 1 (.new .Sybil .High)),
    act 1#64 3#160 1#64 (.SubmitVerdict 1 (.new .Sybil .High))]

theorem finalized_on_one_voucher :
    ∃ s, run mockHost devnet.state voucherLost = some s ∧
      (s.finalizeRegistration 4#160 6#64 7200#64).1 = .ok () ∧
      ¬ FinalizationGate s 4#160 6#64 := by
  have hrun : (run mockHost devnet.state voucherLost).any (fun s =>
      (match (s.finalizeRegistration 4#160 6#64 7200#64).1 with
        | .ok _ => true
        | .error _ => false) &&
      (s.humanity.vouchesOutIdx.rows = [(3#160, 4#160)])) = true := by
    decide +kernel
  obtain ⟨s, hs, hboth⟩ := (Option.any_eq_true _ _).mp hrun
  rw [Bool.and_eq_true, decide_eq_true_eq] at hboth
  obtain ⟨hok, hrows⟩ := hboth
  refine ⟨s, hs, ?_, fun hgate => ?_⟩
  · split at hok
    · rename_i u hu
      exact hu
    · cases hok
  · obtain ⟨vs, hnodup, hlen, hall⟩ := hgate.vouchers
    have hsubset : vs ⊆ [3#160] := by
      intro v hv
      have hmem := HumanRegistry.mem_vouchesOut.mp (hall v hv).1
      rw [hrows, List.mem_singleton] at hmem
      exact List.mem_singleton.mpr (Prod.mk.inj hmem).1
    have hle := hnodup.length_le_of_subset hsubset
    exact absurd (hlen.trans hle) (by decide)

end Ubi2.Exec
