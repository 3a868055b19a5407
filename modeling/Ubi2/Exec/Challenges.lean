import Ubi2.Exec.Reachable
import Ubi2.Runtime.Lifecycle.Docket

namespace Ubi2.Exec

open Ubi2.Runtime Ubi2.Runtime.MemState Ubi2.Lib

theorem Genesis.docket (g : Genesis) : g.state.Docket := by
  have hseed := g.seeded
  have hnone : ∀ c, c ∉ g.state.cases := by
    intro c hc
    simp only [MemState.cases, hseed.cases] at hc
    cases hc
  have hverified : ∀ a h, g.state.coreOf a = some h → h.status = .Verified := by
    intro a h hget
    obtain ⟨h₀, hget₀, rfl⟩ := Option.map_eq_some_iff.mp hget
    exact (hseed.humans a h₀ hget₀).1
  constructor
  · exact fun c hc => absurd hc (hnone c)
  · exact fun c hc => absurd hc (hnone c)
  · exact fun c hc => absurd hc (hnone c)
  · exact fun c hc => absurd hc (hnone c)
  · exact fun c hc => absurd hc (hnone c)
  · exact fun c hc => absurd hc (hnone c)
  · intro a h hget hstatus
    rw [hverified a h hget] at hstatus
    cases hstatus
  · intro a h hget hstatus
    rw [hverified a h hget] at hstatus
    cases hstatus

theorem docket_of_reachable {host : Host} {admits : KernelTx → Prop} {t : U64} {s : MemState}
    (h : ReachableBy host admits t s) : s.Docket :=
  h.invariant Genesis.docket (fun _ _ => docket_change)

-- How the challenges of a state and the standing of their subjects fit together.
structure ChallengeCoherent (s : MemState) : Prop where
  single : ∀ c ∈ s.cases, ∀ c' ∈ s.cases, c.kind = .Challenge → c'.kind = .Challenge →
    c.status = .Open → c'.status = .Open → c.subject = c'.subject → c = c'
  challenged : ∀ a h, s.getHuman a = some h → h.status = .Challenged →
    ∃ c ∈ s.cases, c.subject = a ∧ c.kind = .Challenge ∧ c.status = .Open ∧ c.Awaits
  subject : ∀ c ∈ s.cases, c.kind = .Challenge → c.status = .Open →
    ∃ h, s.getHuman c.subject = some h ∧
      (h.status = .Challenged ∨ h.status = .Pending ∨
        (h.status = .Verified ∧ h.assurance ≠ .Std))
  resolved : ∀ caseId juror v block st s', s.submitVerdict caseId juror v block = (.ok st, s') →
    st ≠ .Open → ∀ c h, s.getCase caseId = some c → s.getHuman c.subject = some h →
    h.status = .Challenged → ∃ h', s'.getHuman c.subject = some h' ∧
      ((∃ w, st = .Committed w ∧ w.verdict = .Sybil ∧ h'.status = .Revoked) ∨
        ((∀ w, st = .Committed w → w.verdict = .Human) ∧ h'.status = .Verified ∧
          h'.verifiedAt = h.verifiedAt))

-- What a decided challenge makes of a challenged human.
private theorem ruling_of_challenged {c : Case} {h : Human} (hkind : c.kind = .Challenge)
    (hdecided : c.status ≠ .Open)
    (hcertain : ∀ v, c.status = .Committed v → v.verdict ≠ .Uncertain)
    (hstatus : h.status = .Challenged) :
    (∃ w, c.status = .Committed w ∧ w.verdict = .Sybil ∧ (c.ruling h).status = .Revoked) ∨
      ((∀ w, c.status = .Committed w → w.verdict = .Human) ∧ (c.ruling h).status = .Verified ∧
        (c.ruling h).verifiedAt = h.verifiedAt) := by
  have hrestored : h.restored = { h with status := .Verified } := by
    rw [Human.restored, if_pos hstatus]
  unfold Case.ruling
  rw [hkind]
  cases hst : c.status with
  | Open => exact absurd hst hdecided
  | Escalated =>
    dsimp only
    rw [hrestored]
    exact Or.inr ⟨by simp, rfl, rfl⟩
  | Committed v =>
    dsimp only
    cases hverdict : v.verdict with
    | Sybil => exact Or.inl ⟨v, rfl, hverdict, rfl⟩
    | Uncertain => exact absurd hverdict (hcertain v hst)
    | Human =>
      dsimp only
      rw [if_pos rfl, hrestored]
      refine Or.inr ⟨?_, rfl, rfl⟩
      rintro w ⟨⟩
      exact hverdict

-- In every reachable state a subject has one open challenge at most; a challenged human
-- has one, with a juror still to hear, and is verified or revoked when it is decided; and
-- only a human that was pending when it was challenged, or that a passport has verified
-- since, is the subject of one without being challenged.
theorem challenge_coherent {host : Host} {t : U64} {s : MemState} (hs : Reachable host t s) :
    ChallengeCoherent s := by
  have hdocket := docket_of_reachable hs
  constructor
  · intro c hc c' hc' _ _ hopen hopen' hsubject
    exact hdocket.single c hc c' hc' hopen hopen' hsubject
  · intro a h hget hstatus
    obtain ⟨c, hc, hsubject, hopen⟩ := hdocket.challenged a h.core (coreOf_of_get s hget) hstatus
    exact ⟨c, hc, hsubject, hdocket.kind_of_open hc hopen, hopen,
      (hdocket.awaits c hc hopen).1⟩
  · intro c hc _ hopen
    obtain ⟨h, hcore, hanswers⟩ := hdocket.standing c hc hopen
    obtain ⟨h₀, hget, rfl⟩ := Option.map_eq_some_iff.mp hcore
    exact ⟨h₀, hget, hanswers⟩
  · intro caseId juror v block st s' hres hdecided c h hcase hget hstatus
    obtain ⟨e, herr, -⟩ | ⟨c₀, c', hvotes, hst, rfl⟩ := submitVerdict_cases s hres
    · cases herr
    have hc₀ : c₀ = c := Option.some.inj (hvotes.get.symm.trans hcase)
    subst hc₀
    obtain ⟨-, hsubject, -, hkind, -⟩ := hvotes.same
    have hkind₀ := hdocket.kind_of_open (mem_cases_of_getCase hvotes.get) hvotes.isOpen
    have hst' : st = c'.status := Except.ok.inj hst
    have hcore : ((s.putCase c').actOnStatus c').coreOf c₀.subject = some (c'.ruling h.core) := by
      rw [coreOf_actOnStatus, hsubject, if_pos rfl, coreOf_putCase, coreOf_of_get s hget]
      rfl
    obtain ⟨h', hget', hh'⟩ := Option.map_eq_some_iff.mp hcore
    have hruling := ruling_of_challenged (h := h.core) (hkind.trans hkind₀) (hst' ▸ hdecided)
      (fun w hw => hvotes.certain hw) hstatus
    rw [← hh', ← hst'] at hruling
    exact ⟨h', hget', hruling⟩

-- A challenge of a verified human, still open.
theorem challenge_coherent_challenged :
    ∃ s, run mockHost devnet.state [act 1#64 1#160 0#64 (.Challenge 2#160 0#256)] = some s ∧
      ChallengeCoherent s := by
  obtain ⟨s, hrun⟩ := Option.isSome_iff_exists.mp (show (run mockHost devnet.state
    [act 1#64 1#160 0#64 (.Challenge 2#160 0#256)]).isSome = true by decide +kernel)
  exact ⟨s, hrun, challenge_coherent (reachable_devnet (by decide) hrun)⟩

-- An applicant that is challenged stays pending.
theorem challenged_while_pending :
    ∃ s h, Reachable mockHost 7200#64 s ∧ s.getHuman 4#160 = some h ∧ h.status = .Pending ∧
      ∃ c ∈ s.cases, c.subject = 4#160 ∧ c.kind = .Challenge ∧ c.status = .Open := by
  have hrun : (run mockHost devnet.state [act 1#64 4#160 0#64 (.RequestVerification 0#256),
      act 1#64 1#160 0#64 (.Challenge 4#160 0#256)]).any (fun s =>
        (s.getHuman 4#160).any (fun h => h.status = .Pending) &&
          s.cases.any (fun c => c.subject = 4#160 && c.kind = .Challenge && c.status = .Open)) =
      true := by
    decide +kernel
  obtain ⟨s, hs, hboth⟩ := (Option.any_eq_true _ _).mp hrun
  rw [Bool.and_eq_true, Option.any_eq_true, List.any_eq_true] at hboth
  obtain ⟨⟨h, hget, hstatus⟩, c, hc, hcase⟩ := hboth
  simp only [Bool.and_eq_true, decide_eq_true_eq] at hstatus hcase
  exact ⟨s, h, reachable_devnet (by decide) hs, hget, hstatus, c, hc, hcase.1.1, hcase.1.2,
    hcase.2⟩

end Ubi2.Exec
