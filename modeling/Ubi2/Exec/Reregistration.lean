import Ubi2.Exec.Finalization

namespace Ubi2.Exec

open Ubi2.Runtime Ubi2.Runtime.MemState Ubi2.Lib

-- The states that the processing of further blocks passes through.
def Later (host : Host) : MemState → MemState → Prop :=
  Relation.ReflTransGen fun s s' => ∃ ctx, Within host (fun _ => True) ctx s s'

-- The human satisfies every condition of a finalization in its current registration: the
-- vouches of its record, the verdict on its latest registration and the challenges since.
structure MeetsAnew (s : MemState) (subject : Address) (block : U64) : Prop where
  applicant : ∃ h, s.getHuman subject = some h ∧ h.status = .Pending ∧
    MIN_VOUCHES ≤ h.vouchesIn.length
  registration : RegistrationPassed s subject block
  unchallenged : Unchallenged s subject

-- No challenge from before the latest registration is still open or was upheld.
def Unburdened (s : MemState) (subject : Address) : Prop :=
  ∀ c ∈ s.cases, c.subject = subject → c.kind = .Challenge → ¬ Current s c →
    c.status ≠ .Open ∧ ¬ c.upholds

-- A finalization succeeds when the human meets the conditions anew, and carries no burden
-- from before.
theorem finalize_ok_iff {s : MemState} {subject : Address} {block now : U64} :
    (s.finalizeRegistration subject block now).1 = .ok () ↔
      MeetsAnew s subject block ∧ Unburdened s subject := by
  have hres : s.finalizeRegistration subject block now =
      ((s.finalizeRegistration subject block now).1,
        (s.finalizeRegistration subject block now).2) := rfl
  constructor
  · intro hok
    obtain ⟨e, herr, -⟩ | ⟨h, hf, -, -⟩ := finalizeRegistration_cases s hres
    · rw [hok] at herr
      cases herr
    have hnone : ∀ c ∈ s.cases, c.subject = subject → c.kind = .Challenge →
        c.status ≠ .Open ∧ ¬ c.upholds := by
      intro c hc hsubject hkind
      rw [← not_or]
      intro hbad
      have hsome := pendingOrUpheld_iff.mpr ⟨c, hc, hsubject, hkind, hbad⟩
      rw [hf.unchallenged] at hsome
      cases hsome
    exact ⟨⟨⟨h, hf.get, hf.pending, hf.vouches⟩, registrationPassed_of_finalizable hf,
      fun c hc hsubject hkind _ => hnone c hc hsubject hkind⟩,
      fun c hc hsubject hkind _ => hnone c hc hsubject hkind⟩
  · rintro ⟨⟨⟨h, hget, hpending, hvouches⟩, ⟨r, w, hlast, hstatus, hverdict, hwindow⟩, hfree⟩,
      hold⟩
    have hunchallenged : s.hasPendingOrUpheldChallenge subject = false := by
      rw [Bool.eq_false_iff]
      intro hsome
      obtain ⟨c, hc, hsubject, hkind, hbad⟩ := pendingOrUpheld_iff.mp hsome
      have hnone : c.status ≠ .Open ∧ ¬ c.upholds := by
        by_cases hcurrent : Current s c
        · exact hfree c hc hsubject hkind hcurrent
        · exact hold c hc hsubject hkind hcurrent
      rcases hbad with hopen | hup
      · exact hnone.1 hopen
      · exact hnone.2 hup
    have hf : s.Finalizable subject h block := by
      refine ⟨hget, hpending, ?_, hvouches, ?_, hunchallenged⟩
      · simp [livenessPassed, hlast, hstatus, hverdict]
      · simpa [registrationOpenedAt, hlast] using hwindow
    obtain ⟨e, -, -, hno⟩ | ⟨h', -, hok, -⟩ := finalizeRegistration_cases s hres
    · exact absurd hf (hno h)
    · exact hok

-- A challenge that was upheld stays on the docket.
theorem overturned_later {host : Host} {s s' : MemState} {subject : Address} (hs : s.Docket)
    (h : Later host s s') (hover : ∃ c ∈ s.cases, c.Overturns subject) :
    s'.Docket ∧ ∃ c ∈ s'.cases, c.Overturns subject := by
  refine Run.invariant (P := fun s => s.Docket ∧ ∃ c ∈ s.cases, c.Overturns subject)
    (fun s₁ s₂ hstep hboth => ?_) h ⟨hs, hover⟩
  obtain ⟨ctx, hwithin⟩ := hstep
  refine Run.invariant (P := fun s => s.Docket ∧ ∃ c ∈ s.cases, c.Overturns subject)
    (fun s₁ s₂ hchange hboth => ?_) (changes_within hwithin) hboth
  obtain ⟨hdocket, c, hc, hover⟩ := hboth
  refine ⟨docket_change hchange hdocket, c, decided_persists hchange hdocket hc ?_, hover⟩
  exact fun hopen => Case.not_upholds_of_open hopen hover.2.2

-- A finalization depends on the current registration alone exactly when that falls short,
-- or no older challenge is open or was upheld. A human that was revoked always has one that
-- was, and is never finalized again.
theorem refinalization_scoped_iff (host : Host) (s : MemState) (subject : Address)
    (block now : U64) :
    (((s.finalizeRegistration subject block now).1 = .ok () ↔ MeetsAnew s subject block) ↔
      (MeetsAnew s subject block → Unburdened s subject)) ∧
    ∀ t s₀ h₀, Reachable host t s₀ → s₀.getHuman subject = some h₀ → h₀.status = .Revoked →
      Later host s₀ s → MeetsAnew s subject block → ¬ Unburdened s subject := by
  constructor
  · rw [finalize_ok_iff]
    constructor
    · exact fun hiff hmeets => (hiff.mpr hmeets).2
    · exact fun hold => ⟨fun hboth => hboth.1, fun hmeets => ⟨hmeets, hold hmeets⟩⟩
  · intro t s₀ h₀ hs₀ hget₀ hrevoked hlater hmeets hold
    have hdocket₀ := docket_of_reachable hs₀
    obtain ⟨-, c, hc, hsubject, hkind, hup⟩ := overturned_later hdocket₀ hlater
      (hdocket₀.revoked subject h₀.core (coreOf_of_get s₀ hget₀) hrevoked)
    by_cases hcurrent : Current s c
    · exact (hmeets.unchallenged c hc hsubject hkind hcurrent).2 hup
    · exact (hold c hc hsubject hkind hcurrent).2 hup

theorem Later.run {host : Host} {s s' : MemState} {es : List Event}
    (hrun : Exec.run host s es = some s') : Later host s s' := by
  induction es generalizing s with
  | nil =>
    cases hrun
    exact Relation.ReflTransGen.refl
  | cons e es ih =>
    rw [Exec.run] at hrun
    cases he : Exec.step host s e with
    | none => simp [he] at hrun
    | some p =>
      obtain ⟨o, s₁⟩ := p
      rw [he] at hrun
      refine Relation.ReflTransGen.head ⟨e.ctx, ?_⟩ (ih hrun)
      unfold step at he
      cases haction : e.action with
      | tx tx =>
        rw [haction] at he
        exact .applied trivial he
      | sweeps =>
        rw [haction] at he
        cases he
        exact within_runSweeps host _ e.ctx s
      | refresh =>
        rw [haction] at he
        cases he
        exact .refreshed s

-- An applicant is revoked by an upheld challenge.
def applicantRevoked : List Event :=
  [act 1#64 4#160 0#64 (.RequestVerification 0#256),
    act 1#64 1#160 0#64 (.Challenge 4#160 0#256),
    act 1#64 1#160 1#64 (.SubmitVerdict 1 (.new .Sybil .High)),
    act 1#64 3#160 0#64 (.SubmitVerdict 1 (.new .Sybil .High))]

-- It registers again and gets its vouches.
def applicantReturns : List Event :=
  [act 2#64 4#160 1#64 (.RequestVerification 0#256),
    act 2#64 1#160 2#64 (.Vouch 4#160),
    act 2#64 2#160 0#64 (.Vouch 4#160)]

private theorem returned : ∃ s₀ h₀ s, run mockHost devnet.state applicantRevoked = some s₀ ∧
    s₀.getHuman 4#160 = some h₀ ∧ h₀.status = .Revoked ∧
    run mockHost s₀ applicantReturns = some s ∧ MeetsAnew s 4#160 7#64 ∧
    (s.finalizeRegistration 4#160 7#64 7200#64).1 = .error .ChallengePending := by
  have hrun : (run mockHost devnet.state applicantRevoked).any (fun s₀ =>
      (s₀.getHuman 4#160).any (fun h => h.status = .Revoked) &&
      (run mockHost s₀ applicantReturns).any (fun s =>
        (s.getHuman 4#160).any (fun h =>
          h.status = .Pending && decide (MIN_VOUCHES ≤ h.vouchesIn.length)) &&
        (s.lastRegistration 4#160).any (fun r =>
          r.id = 2 && r.openedAt = 2#64 && r.status = .Committed (.new .Human .High)) &&
        s.cases.all (fun c => c.id ≤ 2) &&
        (s.hasPendingOrUpheldChallenge 4#160))) = true := by
    decide +kernel
  obtain ⟨s₀, hs₀, hboth⟩ := (Option.any_eq_true _ _).mp hrun
  rw [Bool.and_eq_true, Option.any_eq_true, Option.any_eq_true] at hboth
  obtain ⟨⟨h₀, hget₀, hrevoked⟩, s, hs, hall⟩ := hboth
  simp only [Bool.and_eq_true, Option.any_eq_true, List.all_eq_true, decide_eq_true_eq]
    at hall hrevoked
  obtain ⟨⟨⟨⟨h, hget, hpending, hvouches⟩, r, hlast, ⟨hid, hopened⟩, hstatus⟩, hids⟩, hupheld⟩ :=
    hall
  have hpassed : RegistrationPassed s 4#160 7#64 :=
    ⟨r, _, hlast, hstatus, rfl, by rw [hopened]; decide⟩
  refine ⟨s₀, h₀, s, hs₀, hget₀, hrevoked, hs, ⟨⟨h, hget, hpending, hvouches⟩, hpassed, ?_⟩, ?_⟩
  · intro c hc hsubject _ hcurrent
    have hlt := hcurrent r (hsubject ▸ hlast)
    exact absurd (hids c hc) (Nat.not_le.mpr (hid ▸ hlt))
  · have hlive : s.livenessPassed 4#160 = true := by
      simp [livenessPassed, hlast, hstatus, CanonicalVerdict.new]
    have hwindow : ¬ 7#64 < Word.satAdd ((s.registrationOpenedAt 4#160).getD 7#64)
        CHALLENGE_WINDOW := by
      rw [registrationOpenedAt, hlast, Option.map_some, Option.getD_some, hopened]
      decide
    unfold finalizeRegistration
    rw [hget]
    dsimp only
    rw [if_neg (not_not.mpr hpending), hlive, if_neg (by simp), if_neg (by omega),
      if_neg hwindow, if_pos hupheld]

theorem refinalization_of_returned :
    ∃ s, Later mockHost devnet.state s ∧ MeetsAnew s 4#160 7#64 ∧
      (((s.finalizeRegistration 4#160 7#64 7200#64).1 = .ok () ↔ MeetsAnew s 4#160 7#64) ↔
        (MeetsAnew s 4#160 7#64 → Unburdened s 4#160)) ∧ ¬ Unburdened s 4#160 := by
  obtain ⟨s₀, h₀, s, hs₀, hget₀, hrevoked, hs, hmeets, -⟩ := returned
  have hscoped := refinalization_scoped_iff mockHost s 4#160 7#64 7200#64
  exact ⟨s, (Later.run hs₀).trans (Later.run hs), hmeets, hscoped.1,
    hscoped.2 _ s₀ h₀ (reachable_devnet (by decide) hs₀) hget₀ hrevoked (Later.run hs) hmeets⟩

-- The returned applicant meets every condition, and is refused for the old challenge.
theorem returned_never_finalized :
    ∃ s₀ h₀ s, Reachable mockHost 7200#64 s₀ ∧ s₀.getHuman 4#160 = some h₀ ∧
      h₀.status = .Revoked ∧ Later mockHost s₀ s ∧ MeetsAnew s 4#160 7#64 ∧
      (s.finalizeRegistration 4#160 7#64 7200#64).1 = .error .ChallengePending := by
  obtain ⟨s₀, h₀, s, hs₀, hget₀, hrevoked, hs, hmeets, hrefused⟩ := returned
  exact ⟨s₀, h₀, s, reachable_devnet (by decide) hs₀, hget₀, hrevoked, Later.run hs, hmeets,
    hrefused⟩

end Ubi2.Exec
