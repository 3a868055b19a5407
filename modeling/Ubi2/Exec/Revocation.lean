import Ubi2.Exec.Challenges

namespace Ubi2.Exec

open Ubi2.Runtime Ubi2.Runtime.MemState Ubi2.Lib

-- The event is the verdict that upholds a challenge of the human, opened after its latest
-- registration.
def Overturning (s : MemState) (e : Event) (a : Address) : Prop :=
  ∃ tx caseId v c c', e.action = .tx tx ∧ tx.kind = .SubmitVerdict caseId v ∧
    s.Votes caseId tx.from_ v c c' ∧ c.subject = a ∧ c.kind = .Challenge ∧
    (∃ w, c'.status = .Committed w ∧ w.verdict = .Sybil) ∧
    ∀ r ∈ s.cases, r.kind = .Registration → r.subject = a → r.id < c.id

-- The case was opened before a registration of its subject, or is one.
def Superseded (s : MemState) (c : Case) : Prop :=
  c.kind = .Registration ∨
    ∃ r ∈ s.cases, r.kind = .Registration ∧ r.subject = c.subject ∧ c.id < r.id

private theorem submitVerdict_superseded {s : MemState} (hs : s.Docket) {caseId : CaseId}
    {c : Case} (hget : s.getCase caseId = some c) (hsup : Superseded s c) (juror : Address)
    (v : CanonicalVerdict) (block : U64) :
    s.submitVerdict caseId juror v block = (.error .CaseClosed, s) := by
  have hc := mem_cases_of_getCase hget
  have hclosed : c.status ≠ .Open := by
    intro hopen
    rcases hsup with hkind | ⟨r, hr, hkind, hsubject, hlt⟩
    · exact hs.decided c hc hkind hopen
    · exact Nat.lt_asymm hlt (hs.current c hc hopen r hr hkind hsubject)
  unfold submitVerdict
  rw [hget]
  dsimp only
  rw [if_pos hclosed]

-- A step takes a verified or challenged human to Revoked only by the verdict that upholds
-- a challenge opened after its latest registration. A verdict on any older case, or on a
-- registration, is refused and changes nothing.
theorem stripped_by_current_challenge {host : Host} {t : U64} {s s' : MemState} {e : Event}
    {o : Option OpOutcome} (hs : Reachable host t s) (hstep : step host s e = some (o, s')) :
    (∀ a h h', s.getHuman a = some h → (h.status = .Verified ∨ h.status = .Challenged) →
      s'.getHuman a = some h' → h'.status = .Revoked → Overturning s e a) ∧
    ∀ caseId c, s.getCase caseId = some c → Superseded s c → ∀ juror v block,
      s.submitVerdict caseId juror v block = (.error .CaseClosed, s) := by
  have hdocket := docket_of_reachable hs
  refine ⟨fun a h h' hget hstatus hget' hrevoked => ?_,
    fun caseId c hget hsup => submitVerdict_superseded hdocket hget hsup⟩
  have hchanges : Changes (fun _ a => ∃ tx, e.action = .tx tx ∧ Upholds tx s a) s s' :=
    changes_step (fun tx htx a ha => ⟨tx, htx, ha.2⟩) hstep
  have hafter : (s'.coreOf a).map Human.status = some .Revoked := by
    rw [coreOf_of_get s' hget', Option.map_some, Human.core_status, hrevoked]
  rcases revoked_of_changes hchanges hafter with ⟨tx, htx, hup⟩ | hbefore
  · unfold Upholds at hup
    cases hk : tx.kind with
    | SubmitVerdict caseId v =>
      simp only [hk] at hup
      obtain ⟨c, c', hvotes, hup, rfl⟩ := hup
      have hc := mem_cases_of_getCase hvotes.get
      have hsubject := hvotes.same.2.1
      refine ⟨tx, caseId, v, c, c', htx, hk, hvotes, hsubject.symm,
        hdocket.kind_of_open hc hvotes.isOpen, hup, fun r hr hkind hrs => ?_⟩
      exact hdocket.current c hc hvotes.isOpen r hr hkind (hrs.trans hsubject)
    | _ => simp [hk] at hup
  · rw [coreOf_of_get s hget, Option.map_some, Human.core_status] at hbefore
    rcases hstatus with hstatus | hstatus <;> rw [hstatus] at hbefore <;> cases hbefore

-- The last verdict on a challenge of a verified human.
theorem stripped_by_last_verdict :
    ∃ s o s', run mockHost devnet.state [act 1#64 1#160 0#64 (.Challenge 2#160 0#256),
        act 1#64 1#160 1#64 (.SubmitVerdict 0 (.new .Sybil .High))] = some s ∧
      step mockHost s (act 1#64 3#160 0#64 (.SubmitVerdict 0 (.new .Sybil .High))) =
        some (o, s') ∧
      ((∀ a h h', s.getHuman a = some h → (h.status = .Verified ∨ h.status = .Challenged) →
        s'.getHuman a = some h' → h'.status = .Revoked →
        Overturning s (act 1#64 3#160 0#64 (.SubmitVerdict 0 (.new .Sybil .High))) a) ∧
      ∀ caseId c, s.getCase caseId = some c → Superseded s c → ∀ juror v block,
        s.submitVerdict caseId juror v block = (.error .CaseClosed, s)) := by
  have hsome : ((run mockHost devnet.state [act 1#64 1#160 0#64 (.Challenge 2#160 0#256),
      act 1#64 1#160 1#64 (.SubmitVerdict 0 (.new .Sybil .High))]).bind (fun s =>
        step mockHost s (act 1#64 3#160 0#64
          (.SubmitVerdict 0 (.new .Sybil .High))))).isSome = true := by
    decide +kernel
  obtain ⟨⟨o, s'⟩, hp⟩ := Option.isSome_iff_exists.mp hsome
  obtain ⟨s, hrun, hstep⟩ := Option.bind_eq_some_iff.mp hp
  exact ⟨s, o, s', hrun, hstep,
    stripped_by_current_challenge (reachable_devnet (by decide) hrun) hstep⟩

end Ubi2.Exec
