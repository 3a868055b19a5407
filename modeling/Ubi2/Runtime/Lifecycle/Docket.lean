import Ubi2.Runtime.Lifecycle.Records

namespace Ubi2.Runtime

open Lib

-- The human may be the subject of an open challenge: challenged as a verified human, or
-- challenged while pending, or verified by a passport in the meantime.
def Human.Answers (h : Human) : Prop :=
  h.status = .Challenged ∨ h.status = .Pending ∨ (h.status = .Verified ∧ h.assurance ≠ .Std)

-- The case overturns its subject: a challenge that was upheld.
def Case.Overturns (c : Case) (a : Address) : Prop :=
  c.subject = a ∧ c.kind = .Challenge ∧ c.upholds

instance (c : Case) (a : Address) : Decidable (c.Overturns a) :=
  inferInstanceAs (Decidable (_ ∧ _ ∧ _))

theorem Case.not_upholds_of_open {c : Case} (h : c.status = .Open) : ¬ c.upholds := by
  rintro ⟨v, hv, -⟩
  rw [h] at hv
  cases hv

theorem Case.ruling_of_open {c : Case} (h : c.status = .Open) (x : Human) : c.ruling x = x := by
  unfold Case.ruling
  rw [h]

-- Only an upheld case makes a record revoked.
theorem Case.ruling_revoked {c : Case} {h : Human} (hr : (c.ruling h).status = .Revoked) :
    c.upholds ∨ h.status = .Revoked := by
  have hrestored : h.restored.status = .Revoked → h.status = .Revoked := by
    unfold Human.restored
    split_ifs
    · intro hr
      cases hr
    · exact fun hr => hr
  unfold Case.ruling at hr
  cases hstatus : c.status with
  | Open =>
    rw [hstatus] at hr
    exact Or.inr hr
  | Escalated =>
    rw [hstatus] at hr
    cases hkind : c.kind with
    | Registration =>
      rw [hkind] at hr
      exact Or.inr hr
    | Challenge =>
      rw [hkind] at hr
      exact Or.inr (hrestored hr)
  | Committed v =>
    rw [hstatus] at hr
    cases hverdict : v.verdict with
    | Sybil => exact Or.inl ⟨v, hstatus, hverdict⟩
    | Uncertain =>
      simp only [hverdict] at hr
      exact Or.inr hr
    | Human =>
      simp only [hverdict] at hr
      split_ifs at hr
      · exact Or.inr (hrestored hr)
      · exact Or.inr hr

-- A challenge that is decided leaves no record challenged.
theorem Case.ruling_ne_challenged {c : Case} (hkind : c.kind = .Challenge)
    (hdecided : c.status ≠ .Open)
    (hcertain : ∀ v, c.status = .Committed v → v.verdict ≠ .Uncertain) (h : Human) :
    (c.ruling h).status ≠ .Challenged := by
  have hrestored : h.restored.status ≠ .Challenged := by
    unfold Human.restored
    split_ifs with hstatus
    · simp
    · exact hstatus
  unfold Case.ruling
  rw [hkind]
  cases hstatus : c.status with
  | Open => exact absurd hstatus hdecided
  | Escalated => exact hrestored
  | Committed v =>
    dsimp only
    cases hverdict : v.verdict with
    | Sybil => simp [Human.revoked]
    | Uncertain => exact absurd hverdict (hcertain v hstatus)
    | Human =>
      dsimp only
      rw [if_pos rfl]
      exact hrestored

namespace MemState

variable {ok : HumanRegistry → Address → Prop} {s s' : MemState}

-- The cases agree with each other and with the records of the humans.
structure Docket (s : MemState) : Prop where
  ids : ∀ c ∈ s.cases, c.id < s.humanity.nextCaseId
  decided : ∀ c ∈ s.cases, c.kind = .Registration → c.status ≠ .Open
  single : ∀ c ∈ s.cases, ∀ c' ∈ s.cases, c.status = .Open → c'.status = .Open →
    c.subject = c'.subject → c = c'
  current : ∀ c ∈ s.cases, c.status = .Open → ∀ r ∈ s.cases, r.kind = .Registration →
    r.subject = c.subject → r.id < c.id
  standing : ∀ c ∈ s.cases, c.status = .Open → ∃ h, s.coreOf c.subject = some h ∧ h.Answers
  awaits : ∀ c ∈ s.cases, c.status = .Open → c.Awaits ∧ c.jury.Nodup
  challenged : ∀ a h, s.coreOf a = some h → h.status = .Challenged →
    ∃ c ∈ s.cases, c.subject = a ∧ c.status = .Open
  revoked : ∀ a h, s.coreOf a = some h → h.status = .Revoked →
    ∃ c ∈ s.cases, c.Overturns a

theorem mem_cases_of_getCase {id : CaseId} {c : Case} (h : s.getCase id = some c) :
    c ∈ s.cases :=
  Table.mem_of_get h

theorem mem_cases_putCase {c x : Case} :
    x ∈ (s.putCase c).cases ↔ x = c ∨ (x ∈ s.cases ∧ x.id ≠ c.id) :=
  Table.mem_put

theorem mem_cases_addCase {c x : Case} :
    x ∈ (s.addCase c).cases ↔ x = c ∨ (x ∈ s.cases ∧ x.id ≠ c.id) :=
  Table.mem_put

theorem eq_of_mem_cases {c c' : Case} (h : c ∈ s.cases) (h' : c' ∈ s.cases)
    (hid : c.id = c'.id) : c = c' := by
  have hget : s.humanity.cases.get c.id = some c := Table.get_of_mem h
  have hget' : s.humanity.cases.get c'.id = some c' := Table.get_of_mem h'
  rw [hid, hget'] at hget
  exact (Option.some.inj hget).symm

theorem Votes.certain {caseId : CaseId} {juror : Address} {v w : CanonicalVerdict}
    {c c' : Case} (h : s.Votes caseId juror v c c') (hw : c'.status = .Committed w) :
    w.verdict ≠ .Uncertain := by
  have htallied := h.tallied
  unfold applyTally at htallied
  split at htallied
  · rename_i w' hcommitted
    rw [htallied] at hw
    cases hw
    exact tally_committed_ne_uncertain hcommitted
  · rw [htallied] at hw
    cases hw
  · rw [htallied] at hw
    cases hw

-- A case that a vote leaves open has a juror still to hear.
theorem Votes.awaits {caseId : CaseId} {juror : Address} {v : CanonicalVerdict} {c c' : Case}
    (h : s.Votes caseId juror v c c') (hjury : c.jury.Nodup) (hopen : c'.status = .Open) :
    c'.Awaits ∧ c'.jury.Nodup := by
  have htallied := h.tallied
  have hnodup : c'.jury.Nodup := by
    rw [htallied, applyTally_eq]
    exact hjury
  refine ⟨Case.awaits_of_length_lt hnodup ?_, hnodup⟩
  by_contra hall
  have hvotes : c'.votes = c.votes ++ [(juror, v)] ∧ c'.jury = c.jury := by
    rw [htallied, applyTally_eq]
    exact ⟨rfl, rfl⟩
  have hdecided : tally c'.votes c'.jury.length QUORUM ≠ .Pending :=
    tally_ne_pending (not_lt.mp hall)
  rw [hvotes.1, hvotes.2] at hdecided
  unfold applyTally at htallied
  split at htallied
  · rw [htallied] at hopen
    cases hopen
  · rw [htallied] at hopen
    cases hopen
  · exact hdecided ‹_›

namespace Docket

variable (hs : s.Docket)

include hs

theorem kind_of_open {c : Case} (hc : c ∈ s.cases) (hopen : c.status = .Open) :
    c.kind = .Challenge := by
  cases hkind : c.kind with
  | Challenge => rfl
  | Registration => exact absurd hopen (hs.decided c hc hkind)

-- A new case takes no id from an old one.
theorem mem_addCase {c x : Case} {subject challenger : Address} {kind : CaseKind}
    {block : U64} (hc : s.Opens c subject challenger kind block) :
    x ∈ (s.addCase c).cases ↔ x = c ∨ x ∈ s.cases := by
  rw [mem_cases_addCase]
  constructor
  · rintro (rfl | ⟨hx, -⟩)
    · exact Or.inl rfl
    · exact Or.inr hx
  · rintro (rfl | hx)
    · exact Or.inl rfl
    · exact Or.inr ⟨hx, fun hid => Nat.lt_irrefl _ (hid.trans hc.id ▸ hs.ids x hx)⟩

-- An address that may register has no open case.
theorem not_open_of_registrable {subject : Address} (hreg : s.Registrable subject) {c : Case}
    (hc : c ∈ s.cases) (hopen : c.status = .Open) : c.subject ≠ subject := by
  intro hsubject
  obtain ⟨h, hcore, hanswers⟩ := hs.standing c hc hopen
  rw [hsubject, coreOf] at hcore
  obtain ⟨h₀, hget, rfl⟩ := Option.map_eq_some_iff.mp hcore
  have hstatus := hreg h₀ hget
  simp only [Human.Answers, Human.core_status] at hanswers
  rcases hstatus with hstatus | hstatus <;> simp [hstatus] at hanswers

theorem of_same (hcases : s'.humanity.cases = s.humanity.cases)
    (hnext : s'.humanity.nextCaseId = s.humanity.nextCaseId) (hcore : s'.coreOf = s.coreOf) :
    s'.Docket := by
  have hrows : s'.cases = s.cases := by simp only [cases, hcases]
  constructor <;> rw [hrows]
  · rw [hnext]
    exact hs.ids
  · exact hs.decided
  · exact hs.single
  · exact hs.current
  · rw [hcore]
    exact hs.standing
  · exact hs.awaits
  · rw [hcore]
    exact hs.challenged
  · rw [hcore]
    exact hs.revoked

-- One record is written, that of a pending or a verified human.
theorem of_write {subject : Address} {x : Human} (hcases : s'.humanity.cases = s.humanity.cases)
    (hnext : s'.humanity.nextCaseId = s.humanity.nextCaseId)
    (hcore : ∀ a, s'.coreOf a = if a = subject then some x else s.coreOf a)
    (hanswers : ∀ c ∈ s.cases, c.status = .Open → c.subject = subject → x.Answers)
    (hstatus : x.status = .Pending ∨ x.status = .Verified) : s'.Docket := by
  have hrows : s'.cases = s.cases := by simp only [cases, hcases]
  have hold : ∀ {a : Address} {h : Human} {st : HumanStatus}, s'.coreOf a = some h →
      h.status = st → st ≠ .Pending → st ≠ .Verified → s.coreOf a = some h := by
    intro a h st hget hst hpending hverified
    rw [hcore] at hget
    split_ifs at hget
    · cases hget
      rcases hstatus with hstatus | hstatus
      · exact absurd (hst.symm.trans hstatus) hpending
      · exact absurd (hst.symm.trans hstatus) hverified
    · exact hget
  constructor <;> rw [hrows]
  · rw [hnext]
    exact hs.ids
  · exact hs.decided
  · exact hs.single
  · exact hs.current
  · intro c hc hopen
    rw [hcore]
    split_ifs with hsubject
    · exact ⟨x, rfl, hanswers c hc hopen hsubject⟩
    · exact hs.standing c hc hopen
  · exact hs.awaits
  · exact fun a h hget hst => hs.challenged a h (hold hget hst (by simp) (by simp)) hst
  · exact fun a h hget hst => hs.revoked a h (hold hget hst (by simp) (by simp)) hst

theorem request {subject : Address} {livenessRef : Hash} {c : Case} {block : U64}
    (hreg : s.Registrable subject) (hc : s.Opens c subject subject .Registration block)
    (hdecided : c.status ≠ .Open) :
    (((s.clearVouchEdges subject).addCase c).putHuman
      (Human.pending subject livenessRef)).Docket := by
  have hmem : ∀ x, x ∈ (((s.clearVouchEdges subject).addCase c).putHuman
      (Human.pending subject livenessRef)).cases ↔ x = c ∨ x ∈ s.cases :=
    fun x => hs.mem_addCase hc
  have hcore : ∀ a, (((s.clearVouchEdges subject).addCase c).putHuman
      (Human.pending subject livenessRef)).coreOf a =
      if a = subject then some (Human.pending subject livenessRef) else s.coreOf a :=
    coreOf_request s livenessRef
  have hold : ∀ x ∈ s.cases, x.status = .Open → x.subject ≠ subject :=
    fun x hx hopen => hs.not_open_of_registrable hreg hx hopen
  constructor
  · intro x hx
    change x.id < c.id + 1
    rcases (hmem x).mp hx with rfl | hold
    · exact Nat.lt_succ_self _
    · exact Nat.lt_succ_of_lt (hc.id ▸ hs.ids x hold)
  · intro x hx hkind
    rcases (hmem x).mp hx with rfl | hx
    · exact hdecided
    · exact hs.decided x hx hkind
  · intro x hx' y hy' hopen hopen'
    rcases (hmem x).mp hx' with rfl | hx
    · exact absurd hopen hdecided
    rcases (hmem y).mp hy' with rfl | hy
    · exact absurd hopen' hdecided
    exact hs.single x hx y hy hopen hopen'
  · intro x hx' hopen r hr' hkind hsubject
    rcases (hmem x).mp hx' with rfl | hx
    · exact absurd hopen hdecided
    rcases (hmem r).mp hr' with rfl | hr
    · exact absurd (hsubject.symm.trans hc.subject) (hold x hx hopen)
    · exact hs.current x hx hopen r hr hkind hsubject
  · intro x hx hopen
    rcases (hmem x).mp hx with rfl | hx
    · exact absurd hopen hdecided
    · rw [hcore, if_neg (hold x hx hopen)]
      exact hs.standing x hx hopen
  · intro x hx hopen
    rcases (hmem x).mp hx with rfl | hx
    · exact absurd hopen hdecided
    · exact hs.awaits x hx hopen
  · intro a h hget hstatus
    rw [hcore] at hget
    by_cases ha : a = subject
    · rw [if_pos ha] at hget
      cases hget
      cases hstatus
    · rw [if_neg ha] at hget
      obtain ⟨x, hx, hsubject, hopen⟩ := hs.challenged a h hget hstatus
      exact ⟨x, (hmem x).mpr (Or.inr hx), hsubject, hopen⟩
  · intro a h hget hstatus
    rw [hcore] at hget
    by_cases ha : a = subject
    · rw [if_pos ha] at hget
      cases hget
      cases hstatus
    · rw [if_neg ha] at hget
      obtain ⟨x, hx, hover⟩ := hs.revoked a h hget hstatus
      exact ⟨x, (hmem x).mpr (Or.inr hx), hover⟩

theorem challenge {challenger subject : Address} {h : Human} {c : Case} {block : U64}
    (hget : s.getHuman subject = some h) (hknown : h.status ≠ .Unverified)
    (hstanding : h.status ≠ .Revoked) (hnone : s.hasOpenChallenge subject = false)
    (hc : s.Opens c subject challenger .Challenge block) (hopen : c.status = .Open)
    (hawaits : c.Awaits) : ((s.addCase c).putHuman (MemState.challenged h)).Docket := by
  have hmem : ∀ x, x ∈ ((s.addCase c).putHuman (MemState.challenged h)).cases ↔
      x = c ∨ x ∈ s.cases := fun x => hs.mem_addCase hc
  have hcore := coreOf_challenge s (c := c) hget
  have hfree : ∀ x ∈ s.cases, x.status = .Open → x.subject ≠ subject := by
    intro x hx hxopen hsubject
    have hkind := hs.kind_of_open hx hxopen
    simp only [hasOpenChallenge, List.any_eq_false] at hnone
    simpa [hsubject, hkind, hxopen] using hnone x hx
  have hstatus : (MemState.challenged h).status = .Challenged ∨
      (MemState.challenged h).status = .Pending := by
    unfold MemState.challenged
    cases hst : h.status with
    | Unverified => exact absurd hst hknown
    | Revoked => exact absurd hst hstanding
    | Pending => simp [hst]
    | Verified => simp
    | Challenged => simp [hst]
  constructor
  · intro x hx
    change x.id < c.id + 1
    rcases (hmem x).mp hx with rfl | hold
    · exact Nat.lt_succ_self _
    · exact Nat.lt_succ_of_lt (hc.id ▸ hs.ids x hold)
  · intro x hx hkind
    rcases (hmem x).mp hx with rfl | hx
    · rw [hc.kind] at hkind
      cases hkind
    · exact hs.decided x hx hkind
  · intro x hx' y hy' hxopen hyopen hsubject
    rcases (hmem x).mp hx' with rfl | hx <;> rcases (hmem y).mp hy' with rfl | hy
    · rfl
    · exact absurd (hsubject.symm.trans hc.subject) (hfree y hy hyopen)
    · exact absurd (hsubject.trans hc.subject) (hfree x hx hxopen)
    · exact hs.single x hx y hy hxopen hyopen hsubject
  · intro x hx' hxopen r hr' hkind hsubject
    rcases (hmem r).mp hr' with rfl | hr
    · rw [hc.kind] at hkind
      cases hkind
    rcases (hmem x).mp hx' with rfl | hx
    · have := hs.ids r hr
      rw [hc.id]
      exact this
    · exact hs.current x hx hxopen r hr hkind hsubject
  · intro x hx hxopen
    rcases (hmem x).mp hx with rfl | hx
    · refine ⟨_, by rw [hcore, if_pos hc.subject], ?_⟩
      rcases hstatus with hstatus | hstatus
      · exact Or.inl hstatus
      · exact Or.inr (Or.inl hstatus)
    · rw [hcore, if_neg (hfree x hx hxopen)]
      exact hs.standing x hx hxopen
  · intro x hx hxopen
    rcases (hmem x).mp hx with rfl | hx
    · exact ⟨hawaits, hc.jury⟩
    · exact hs.awaits x hx hxopen
  · intro a h' hget' hst
    rw [hcore] at hget'
    by_cases ha : a = subject
    · exact ⟨c, (hmem c).mpr (Or.inl rfl), hc.subject.trans ha.symm, hopen⟩
    · rw [if_neg ha] at hget'
      obtain ⟨x, hx, hsubject, hxopen⟩ := hs.challenged a h' hget' hst
      exact ⟨x, (hmem x).mpr (Or.inr hx), hsubject, hxopen⟩
  · intro a h' hget' hst
    rw [hcore] at hget'
    by_cases ha : a = subject
    · rw [if_pos ha] at hget'
      cases hget'
      rw [Human.core_status] at hst
      rcases hstatus with hstatus | hstatus <;> rw [hstatus] at hst <;> cases hst
    · rw [if_neg ha] at hget'
      obtain ⟨x, hx, hover⟩ := hs.revoked a h' hget' hst
      exact ⟨x, (hmem x).mpr (Or.inr hx), hover⟩

theorem verdict {caseId : CaseId} {juror : Address} {v : CanonicalVerdict} {c c' : Case}
    (hvotes : s.Votes caseId juror v c c') : ((s.putCase c').actOnStatus c').Docket := by
  obtain ⟨hid, hsubject, -, hkind', -⟩ := hvotes.same
  have hc : c ∈ s.cases := mem_cases_of_getCase hvotes.get
  have hkind : c.kind = .Challenge := hs.kind_of_open hc hvotes.isOpen
  obtain ⟨hboard, hnext⟩ := cases_actOnStatus (s.putCase c') c'
  have hmem : ∀ x, x ∈ ((s.putCase c').actOnStatus c').cases ↔
      x = c' ∨ (x ∈ s.cases ∧ x.id ≠ c.id) := by
    intro x
    have hrows : ((s.putCase c').actOnStatus c').cases = (s.putCase c').cases :=
      congrArg Table.rows hboard
    rw [hrows, mem_cases_putCase, hid]
  have hcore : ∀ a, ((s.putCase c').actOnStatus c').coreOf a =
      if a = c.subject then (s.coreOf a).map c'.ruling else s.coreOf a := by
    intro a
    rw [coreOf_actOnStatus, coreOf_putCase, hsubject]
  -- the case was the only open one of its subject
  have hother : ∀ x ∈ s.cases, x.id ≠ c.id → x.status = .Open → x.subject ≠ c.subject := by
    intro x hx hne hopen heq
    exact hne (congrArg Case.id (hs.single x hx c hc hopen hvotes.isOpen heq))
  constructor
  · intro x hx
    rw [hnext]
    rcases (hmem x).mp hx with rfl | ⟨hold, -⟩
    · exact hid ▸ hs.ids c hc
    · exact hs.ids x hold
  · intro x hx hxkind
    rcases (hmem x).mp hx with rfl | ⟨hold, -⟩
    · rw [hkind', hkind] at hxkind
      cases hxkind
    · exact hs.decided x hold hxkind
  · intro x hx' y hy' hxopen hyopen heq
    rcases (hmem x).mp hx' with rfl | ⟨hx, hxne⟩ <;> rcases (hmem y).mp hy' with rfl | ⟨hy, hyne⟩
    · rfl
    · exact absurd (heq.symm.trans hsubject) (hother y hy hyne hyopen)
    · exact absurd (heq.trans hsubject) (hother x hx hxne hxopen)
    · exact hs.single x hx y hy hxopen hyopen heq
  · intro x hx' hxopen r hr' hrkind hrsubject
    rcases (hmem r).mp hr' with rfl | ⟨hr, -⟩
    · rw [hkind', hkind] at hrkind
      cases hrkind
    rcases (hmem x).mp hx' with rfl | ⟨hx, -⟩
    · rw [hid]
      exact hs.current c hc hvotes.isOpen r hr hrkind (hrsubject.trans hsubject)
    · exact hs.current x hx hxopen r hr hrkind hrsubject
  · intro x hx' hxopen
    rcases (hmem x).mp hx' with rfl | ⟨hx, hxne⟩
    · obtain ⟨h, hget, hanswers⟩ := hs.standing c hc hvotes.isOpen
      refine ⟨h, ?_, hanswers⟩
      rw [hcore, hsubject, if_pos rfl, hget, Option.map_some, Case.ruling_of_open hxopen]
    · rw [hcore, if_neg (hother x hx hxne hxopen)]
      exact hs.standing x hx hxopen
  · intro x hx hxopen
    rcases (hmem x).mp hx with rfl | ⟨hx, -⟩
    · exact hvotes.awaits (hs.awaits c hc hvotes.isOpen).2 hxopen
    · exact hs.awaits x hx hxopen
  · intro a h hget hstatus
    rw [hcore] at hget
    by_cases ha : a = c.subject
    · rw [if_pos ha] at hget
      obtain ⟨h₀, -, rfl⟩ := Option.map_eq_some_iff.mp hget
      -- the subject stays challenged only as long as the case stays open
      have hopen : c'.status = .Open := by
        by_contra hdecided
        exact Case.ruling_ne_challenged (hkind'.trans hkind) hdecided
          (fun w hw => hvotes.certain hw) h₀ hstatus
      exact ⟨c', (hmem c').mpr (Or.inl rfl), hsubject.trans ha.symm, hopen⟩
    · rw [if_neg ha] at hget
      obtain ⟨x, hx, hxsubject, hxopen⟩ := hs.challenged a h hget hstatus
      refine ⟨x, (hmem x).mpr (Or.inr ⟨hx, fun hxid => ha ?_⟩), hxsubject, hxopen⟩
      rw [← hxsubject, eq_of_mem_cases hx hc hxid]
  · intro a h hget hstatus
    rw [hcore] at hget
    have hkeep : ∀ h₀, s.coreOf a = some h₀ → h₀.status = .Revoked →
        ∃ x ∈ ((s.putCase c').actOnStatus c').cases, x.Overturns a := by
      intro h₀ hget₀ hrevoked
      obtain ⟨x, hx, hover⟩ := hs.revoked a h₀ hget₀ hrevoked
      refine ⟨x, (hmem x).mpr (Or.inr ⟨hx, fun hxid => ?_⟩), hover⟩
      rw [eq_of_mem_cases hx hc hxid] at hover
      exact Case.not_upholds_of_open hvotes.isOpen hover.2.2
    by_cases ha : a = c.subject
    · rw [if_pos ha] at hget
      obtain ⟨h₀, hget₀, rfl⟩ := Option.map_eq_some_iff.mp hget
      rcases Case.ruling_revoked hstatus with hup | hrevoked
      · exact ⟨c', (hmem c').mpr (Or.inl rfl), hsubject.trans ha.symm, hkind'.trans hkind, hup⟩
      · exact hkeep h₀ hget₀ hrevoked
    · rw [if_neg ha] at hget
      exact hkeep h hget hstatus

end Docket

-- The step lemma of the docket.
theorem docket_change (h : Change ok s s') (hs : s.Docket) : s'.Docket := by
  cases h with
  | frame humanity gates =>
    refine hs.of_same (by rw [humanity]) (by rw [humanity]) ?_
    funext a
    simp only [coreOf, getHuman, humanity]
  | clear subject hreg => exact hs.of_same rfl rfl rfl
  | request subject livenessRef c block hreg hc hdecided => exact hs.request hreg hc hdecided
  | vouch v h hself hverified hget hpending hnew =>
    have hstatus : (addVoucher h v.voucher).status = .Pending :=
      (addVoucher_same v.voucher).2.trans hpending
    exact hs.of_write rfl rfl (coreOf_vouch s hget)
      (fun _ _ _ _ => Or.inr (Or.inl hstatus)) (Or.inl hstatus)
  | challenge challenger subject h c block hget hknown hstanding hnone hc hopen hawaits =>
    exact hs.challenge hget hknown hstanding hnone hc hopen hawaits
  | verdict caseId juror v c c' hvotes hok => exact hs.verdict hvotes
  | finalize subject h block now hf =>
    refine hs.of_write rfl rfl (coreOf_finalize s hf.get now) (fun c hc hopen hsubject => ?_)
      (Or.inr rfl)
    -- an open challenge would have stopped the finalization
    have hu := hf.unchallenged
    simp only [hasPendingOrUpheldChallenge, List.any_eq_false] at hu
    exact absurd (hu c hc) (by simp [hsubject, hs.kind_of_open hc hopen, hopen])
  | prove subject pi now hsubject =>
    obtain ⟨hcore, -, hboards⟩ := acceptZkProof_spec s subject pi now
    have hproved : (provedRecord subject now (s.getHuman subject)).status = .Verified ∧
        (provedRecord subject now (s.getHuman subject)).assurance ≠ .Std := by
      unfold provedRecord
      cases s.getHuman subject with
      | none => simp
      | some h =>
        dsimp only
        split_ifs with hverified
        · exact ⟨hverified, by simp⟩
        · simp
    have hwrite : ∀ a, (s.acceptZkProof subject pi now).2.coreOf a =
        if a = subject then some (provedRecord subject now (s.getHuman subject)).core
        else s.coreOf a := by
      intro a
      rw [hcore]
      split_ifs with ha
      · rw [ha]
      · rfl
    exact hs.of_write hboards.cases hboards.nextCaseId hwrite
      (fun _ _ _ _ => Or.inr (Or.inr hproved)) (Or.inr hproved.1)

theorem docket_changes (h : Changes ok s s') (hs : s.Docket) : s'.Docket :=
  Run.invariant (fun _ _ => docket_change) h hs

-- A change makes no record revoked but those it may.
theorem revoked_of_change {P : Address → Prop} (h : Change (fun _ => P) s s') {a : Address}
    (hr : (s'.coreOf a).map Human.status = some .Revoked) :
    P a ∨ (s.coreOf a).map Human.status = some .Revoked := by
  have hwrite : ∀ {subject : Address} {x : Human},
      (∀ b, s'.coreOf b = if b = subject then some x else s.coreOf b) →
      x.status ≠ .Revoked → (s.coreOf a).map Human.status = some .Revoked := by
    intro subject x hcore hx
    rw [hcore] at hr
    split_ifs at hr
    · exact absurd (Option.some.inj hr) hx
    · exact hr
  cases h with
  | frame humanity gates =>
    simp only [coreOf, getHuman, humanity] at hr ⊢
    exact Or.inr hr
  | clear subject hreg => exact Or.inr hr
  | request subject livenessRef c block hreg hc hdecided =>
    exact Or.inr (hwrite (coreOf_request s livenessRef) (by simp [Human.pending]))
  | vouch v h hself hverified hget hpending hnew =>
    refine Or.inr (hwrite (coreOf_vouch s hget) ?_)
    rw [Human.core_status, (addVoucher_same v.voucher).2, hpending]
    simp
  | challenge challenger subject h c block hget hknown hstanding hnone hc hopen hawaits =>
    refine Or.inr (hwrite (coreOf_challenge s hget) ?_)
    unfold challenged
    split_ifs
    · simp
    · exact hstanding
  | verdict caseId juror v c c' hvotes hok =>
    rw [coreOf_actOnStatus, coreOf_putCase] at hr
    by_cases ha : a = c'.subject
    · rw [if_pos ha, Option.map_map] at hr
      obtain ⟨h, hget, hstatus⟩ := Option.map_eq_some_iff.mp hr
      rcases Case.ruling_revoked hstatus with hup | hrevoked
      · exact Or.inl (ha ▸ hok hup)
      · exact Or.inr (by rw [hget, Option.map_some, hrevoked])
    · rw [if_neg ha] at hr
      exact Or.inr hr
  | finalize subject h block now hf =>
    exact Or.inr (hwrite (coreOf_finalize s hf.get now) (by simp))
  | prove subject pi now hsubject =>
    obtain ⟨hcore, -, -⟩ := acceptZkProof_spec s subject pi now
    rw [hcore] at hr
    split_ifs at hr
    · have hstatus : (provedRecord subject now (s.getHuman a)).status = .Verified := by
        unfold provedRecord
        split
        · split_ifs with hverified
          · exact hverified
          · rfl
        · rfl
      rw [Option.map_some, Human.core_status, hstatus] at hr
      cases hr
    · exact Or.inr hr

theorem revoked_of_changes {P : Address → Prop} (h : Changes (fun _ => P) s s') {a : Address}
    (hr : (s'.coreOf a).map Human.status = some .Revoked) :
    P a ∨ (s.coreOf a).map Human.status = some .Revoked := by
  refine Run.invariant (P := fun s' => (s'.coreOf a).map Human.status = some .Revoked →
    P a ∨ (s.coreOf a).map Human.status = some .Revoked) (fun s₁ s₂ hstep hprev hr => ?_) h
    (fun h => Or.inr h) hr
  rcases revoked_of_change hstep hr with hP | hr
  · exact Or.inl hP
  · exact hprev hr

-- A decided case stays on the docket as it is.
theorem decided_persists {c : Case} (h : Change ok s s') (hs : s.Docket) (hc : c ∈ s.cases)
    (hdecided : c.status ≠ .Open) : c ∈ s'.cases := by
  have hsame : ∀ s' : MemState, s'.humanity.cases = s.humanity.cases → c ∈ s'.cases := by
    intro s' heq
    simp only [cases, heq]
    exact hc
  cases h with
  | frame humanity gates => exact hsame _ (by rw [humanity])
  | clear subject hreg => exact hsame _ rfl
  | request subject livenessRef c' block hreg hc' hdecided' =>
    exact (hs.mem_addCase hc').mpr (Or.inr hc)
  | vouch v h hself hverified hget hpending hnew => exact hsame _ rfl
  | challenge challenger subject h c' block hget hknown hstanding hnone hc' hopen hawaits =>
    exact (hs.mem_addCase hc').mpr (Or.inr hc)
  | verdict caseId juror v c₀ c' hvotes hok =>
    have hmem := mem_cases_of_getCase hvotes.get
    have hrows : ((s.putCase c').actOnStatus c').cases = (s.putCase c').cases :=
      congrArg Table.rows (cases_actOnStatus (s.putCase c') c').1
    rw [hrows, mem_cases_putCase]
    refine Or.inr ⟨hc, fun hid => hdecided ?_⟩
    rw [eq_of_mem_cases hc hmem (hid.trans hvotes.same.1)]
    exact hvotes.isOpen
  | finalize subject h block now hf => exact hsame _ rfl
  | prove subject pi now hsubject => exact hsame _ (acceptZkProof_spec s subject pi now).2.2.cases

end MemState

end Ubi2.Runtime
