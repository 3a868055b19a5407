import Ubi2.Exec.Challenges
import Ubi2.Exec.Registers

namespace Ubi2.Exec

open Ubi2.Runtime Ubi2.Runtime.Ledger Ubi2.Runtime.MemState Ubi2.Lib

-- A verdict that a case has counted.
structure Ballot where
  caseId : CaseId
  juror : Address
  verdict : CanonicalVerdict

def ballotOf (tx : KernelTx) : Option Ballot :=
  match tx.kind with
  | .SubmitVerdict caseId verdict => some ⟨caseId, tx.from_, verdict⟩
  | _ => none

def cast (e : Event) (o : Option OpOutcome) : List Ballot :=
  match e.action with
  | .tx tx => if o.any OpOutcome.success then (ballotOf tx).toList else []
  | _ => []

-- The verdicts of a run that were counted, in their order.
def ballots (host : Host) : MemState → List Event → List Ballot
  | _, [] => []
  | s, e :: es =>
    match step host s e with
    | none => []
    | some (o, s') => cast e o ++ ballots host s' es

def votesOn (id : CaseId) (bs : List Ballot) : List (Address × CanonicalVerdict) :=
  (bs.filter fun b => b.caseId = id).map fun b => (b.juror, b.verdict)

-- What a case opens with: a registration is graded at once, on behalf of its whole jury.
def opening (host : Host) (c : Case) : List (Address × CanonicalVerdict) :=
  match c.kind with
  | .Registration =>
    let (challenge, response) := deriveLiveness host c.evidenceRef
    c.jury.map fun juror => (juror, host.oracle.gradeLiveness challenge response)
  | .Challenge => []

-- The case is the record of its votes, which are from different jurors of its jury.
structure Transcribed (host : Host) (jurors : List Address) (c : Case)
    (votes : List (Address × CanonicalVerdict)) : Prop where
  votes : c.votes = opening host c ++ votes
  distinct : (c.votes.map Prod.fst).Nodup
  voters : ∀ vote ∈ c.votes, vote.1 ∈ c.jury
  jury : c.jury.Nodup ∧ c.jury ≠ []
  jurors : ∀ juror ∈ c.jury, juror ∈ jurors
  status : c.status = if c.votes = [] then .Open else (applyTally c).status

-- What later votes make of a case: once it is decided, it stays as it is.
structure Continues (c c' : Case) (votes : List (Address × CanonicalVerdict)) : Prop where
  same : c' = { c with votes := c.votes ++ votes, status := c'.status }
  decided : c.status ≠ .Open → c' = c

namespace Continues

variable {c c' c'' : Case} {votes votes' : List (Address × CanonicalVerdict)}

theorem refl : Continues c c [] := by
  refine ⟨?_, fun _ => rfl⟩
  rw [List.append_nil]

theorem trans (h : Continues c c' votes) (h' : Continues c' c'' votes') :
    Continues c c'' (votes ++ votes') := by
  refine ⟨?_, fun hdecided => ?_⟩
  · rw [h'.same, h.same, List.append_assoc]
  · have hsame := h.decided hdecided
    rw [← hsame] at hdecided
    exact (h'.decided hdecided).trans hsame

end Continues

theorem votesOn_append (id : CaseId) (bs bs' : List Ballot) :
    votesOn id (bs ++ bs') = votesOn id bs ++ votesOn id bs' := by
  rw [votesOn, List.filter_append, List.map_append]
  rfl

theorem votesOn_of_ne {id : CaseId} {bs : List Ballot} (h : ∀ b ∈ bs, b.caseId ≠ id) :
    votesOn id bs = [] := by
  rw [votesOn, List.filter_eq_nil_iff.mpr]
  · rfl
  · intro b hb
    simpa using h b hb

-- What happens to the docket: nothing, a new case with its opening votes, or a vote on an open one.
inductive Files (host : Host) (r r' : HumanRegistry) : List Ballot → Prop where
  | same (hcases : r'.cases = r.cases) (hnext : r'.nextCaseId = r.nextCaseId) : Files host r r' []
  | entered (c : Case) (hid : c.id = r.nextCaseId) (hc : Transcribed host r.activeJurors c [])
      (hcases : r'.cases = r.cases.put c) (hnext : r'.nextCaseId = r.nextCaseId + 1) :
      Files host r r' []
  | voted (b : Ballot) (c c' : Case) (hget : r.cases.get b.caseId = some c) (hopen : c.status = .Open)
      (hjury : b.juror ∈ c.jury) (hfirst : c.voteOf b.juror = none)
      (htallied : c' = applyTally { c with votes := c.votes ++ [(b.juror, b.verdict)] })
      (hcases : r'.cases = r.cases.put c') (hnext : r'.nextCaseId = r.nextCaseId) :
      Files host r r' [b]

-- What has been filed one after another, by the same jurors.
inductive Filed (host : Host) (r : HumanRegistry) : HumanRegistry → List Ballot → Prop where
  | refl : Filed host r r []
  | tail {r' r'' : HumanRegistry} {bs bs' : List Ballot} (h : Filed host r r' bs)
      (hjurors : r''.jurors = r'.jurors) (hfiles : Files host r' r'' bs') :
      Filed host r r'' (bs ++ bs')

-- The docket holds the transcripts of its cases.
structure Minuted (host : Host) (jurors : List Address) (r : HumanRegistry) (bs : List Ballot) :
    Prop where
  cases : ∀ c ∈ r.cases.rows, Transcribed host jurors c (votesOn c.id bs)
  ids : ∀ c ∈ r.cases.rows, c.id < r.nextCaseId
  ballots : ∀ b ∈ bs, b.caseId < r.nextCaseId
  jurors : r.activeJurors = jurors

section
variable {host : Host} {jurors : List Address} {r r' r'' : HumanRegistry} {bs bs' : List Ballot}
variable {c c' : Case} {votes : List (Address × CanonicalVerdict)}

theorem status_applyTally (c : Case) (status : CaseStatus) :
    (applyTally { c with status := status }).status = (applyTally c).status := by
  rw [applyTally, applyTally]

-- A case takes the vote of a juror that has not voted.
theorem Transcribed.voted (h : Transcribed host jurors c votes) {juror : Address}
    {verdict : CanonicalVerdict} (hjury : juror ∈ c.jury) (hfirst : c.voteOf juror = none)
    (htallied : c' = applyTally { c with votes := c.votes ++ [(juror, verdict)] }) :
    Transcribed host jurors c' (votes ++ [(juror, verdict)]) := by
  have hc' : c' = { c with votes := c.votes ++ [(juror, verdict)], status := c'.status } := by
    rw [htallied]
    exact applyTally_eq _
  have hstatus : c'.status = (applyTally c').status := by
    have hown := status_applyTally { c with votes := c.votes ++ [(juror, verdict)] } c'.status
    rw [← htallied] at hown
    rw [← hown]
    exact congrArg (fun x => (applyTally x).status) hc'.symm
  have hnew : juror ∉ c.votes.map Prod.fst := by
    intro hmem
    obtain ⟨vote, hvote, rfl⟩ := List.mem_map.mp hmem
    rw [Case.voteOf, Option.map_eq_none_iff, List.find?_eq_none] at hfirst
    simpa using hfirst vote hvote
  have hvotes : c'.votes = c.votes ++ [(juror, verdict)] := by rw [hc']
  have hsame : c'.jury = c.jury := by rw [hc']
  have hopening : opening host c' = opening host c := by
    rw [hc']
    rfl
  refine ⟨?_, ?_, fun vote hvote => ?_, ?_, ?_, ?_⟩
  · rw [hvotes, hopening, h.votes, List.append_assoc]
  · rw [hvotes, List.map_append, List.nodup_append]
    refine ⟨h.distinct, List.nodup_singleton _, fun a ha b hb => ?_⟩
    rw [List.map_singleton, List.mem_singleton] at hb
    rw [hb]
    rintro rfl
    exact hnew ha
  · rw [hsame]
    rw [hvotes, List.mem_append, List.mem_singleton] at hvote
    rcases hvote with hvote | rfl
    · exact h.voters vote hvote
    · exact hjury
  · rw [hsame]
    exact h.jury
  · rw [hsame]
    exact h.jurors
  · rw [if_neg (by rw [hvotes]; simp)]
    exact hstatus

theorem Minuted.filed (h : Minuted host jurors r bs) (hjurors : r'.jurors = r.jurors)
    (hfiles : Files host r r' bs') : Minuted host jurors r' (bs ++ bs') := by
  have hactive : r'.activeJurors = jurors := by
    rw [← h.jurors, HumanRegistry.activeJurors, HumanRegistry.activeJurors, hjurors]
  have hfree : ∀ id, r.nextCaseId ≤ id → votesOn id bs = [] := by
    intro id hid
    exact votesOn_of_ne fun b hb => (Nat.lt_of_lt_of_le (h.ballots b hb) hid).ne
  cases hfiles with
  | same hcases hnext =>
    rw [List.append_nil]
    refine ⟨?_, ?_, ?_, hactive⟩
    · rw [hcases]
      exact h.cases
    · rw [hcases, hnext]
      exact h.ids
    · rw [hnext]
      exact h.ballots
  | entered c hid hc hcases hnext =>
    rw [List.append_nil]
    refine ⟨?_, ?_, fun b hb => ?_, hactive⟩
    · intro x hx
      rw [hcases, Table.mem_put] at hx
      rcases hx with rfl | ⟨hx, -⟩
      · rw [hfree _ hid.ge, ← h.jurors]
        exact hc
      · exact h.cases x hx
    · intro x hx
      rw [hcases, Table.mem_put] at hx
      rw [hnext]
      rcases hx with rfl | ⟨hx, -⟩
      · rw [hid]
        exact Nat.lt_succ_self _
      · exact Nat.lt_succ_of_lt (h.ids x hx)
    · rw [hnext]
      exact Nat.lt_succ_of_lt (h.ballots b hb)
  | voted b c c' hget hopen hjury hfirst htallied hcases hnext =>
    have hmem : c ∈ r.cases.rows := Table.mem_of_get hget
    have hcid : c.id = b.caseId := Table.key_of_get hget
    have hid : c'.id = c.id := by
      rw [htallied, applyTally_eq]
    have hbound : b.caseId < r.nextCaseId := hcid ▸ h.ids c hmem
    refine ⟨?_, ?_, ?_, hactive⟩
    · intro x hx
      rw [hcases, Table.mem_put] at hx
      rw [votesOn_append]
      rcases hx with rfl | ⟨hx, hne⟩
      · have hvoted := (h.cases c hmem).voted hjury hfirst htallied
        have hown : votesOn x.id [b] = [(b.juror, b.verdict)] := by
          simp [votesOn, hid, hcid]
        rw [hown, hid]
        exact hvoted
      · have hother : votesOn x.id [b] = [] := by
          refine votesOn_of_ne fun b' hb' => ?_
          rw [List.mem_singleton.mp hb', ← hcid, ← hid]
          exact Ne.symm hne
        rw [hother, List.append_nil]
        exact h.cases x hx
    · intro x hx
      rw [hcases, Table.mem_put] at hx
      rw [hnext]
      rcases hx with rfl | ⟨hx, -⟩
      · rw [hid]
        exact h.ids c hmem
      · exact h.ids x hx
    · intro b' hb'
      rw [hnext]
      rcases List.mem_append.mp hb' with hb' | hb'
      · exact h.ballots b' hb'
      · rw [List.mem_singleton.mp hb']
        exact hbound

theorem Minuted.of_filed (h : Minuted host jurors r bs) (hfiled : Filed host r r' bs') :
    Minuted host jurors r' (bs ++ bs') := by
  induction hfiled with
  | refl =>
    rw [List.append_nil]
    exact h
  | tail _ hjurors hfiles ih =>
    rw [← List.append_assoc]
    exact ih.filed hjurors hfiles

-- No case leaves the docket.
theorem continues_files (hids : ∀ c ∈ r.cases.rows, c.id < r.nextCaseId)
    (hfiles : Files host r r' bs) (hc : c ∈ r.cases.rows) :
    ∃ c' ∈ r'.cases.rows, Continues c c' (votesOn c.id bs) := by
  cases hfiles with
  | same hcases hnext =>
    rw [hcases]
    exact ⟨c, hc, .refl⟩
  | entered x hid hx hcases hnext =>
    refine ⟨c, ?_, .refl⟩
    rw [hcases, Table.mem_put]
    refine Or.inr ⟨hc, ?_⟩
    rw [hid]
    exact (hids c hc).ne
  | voted b x x' hget hopen hjury hfirst htallied hcases hnext =>
    have hxid : x.id = b.caseId := Table.key_of_get hget
    have hx' : x' = { x with votes := x.votes ++ [(b.juror, b.verdict)], status := x'.status } := by
      rw [htallied]
      exact applyTally_eq _
    have hid : x'.id = x.id := by rw [hx']
    by_cases hsame : c.id = b.caseId
    · have hcx : c = x := by
        have hgetc := Table.get_of_mem hc
        rw [hsame, hget] at hgetc
        exact (Option.some.inj hgetc).symm
      subst hcx
      refine ⟨x', ?_, ?_, fun hdecided => absurd hopen hdecided⟩
      · rw [hcases, Table.mem_put]
        exact Or.inl rfl
      · have hown : votesOn c.id [b] = [(b.juror, b.verdict)] := by
          simp [votesOn, hsame]
        rw [hown]
        exact hx'
    · have hother : votesOn c.id [b] = [] := by
        refine votesOn_of_ne fun b' hb' => ?_
        rw [List.mem_singleton.mp hb']
        exact Ne.symm hsame
      rw [hother]
      refine ⟨c, ?_, .refl⟩
      rw [hcases, Table.mem_put]
      exact Or.inr ⟨hc, by rw [hid, hxid]; exact hsame⟩

theorem continues_filed (hminuted : Minuted host jurors r bs') (hfiled : Filed host r r' bs)
    (hc : c ∈ r.cases.rows) : ∃ c' ∈ r'.cases.rows, Continues c c' (votesOn c.id bs) := by
  induction hfiled with
  | refl => exact ⟨c, hc, .refl⟩
  | tail hfiled hjurors hfiles ih =>
    obtain ⟨c', hc', hcontinues⟩ := ih
    obtain ⟨c'', hc'', hcontinues'⟩ :=
      continues_files (hminuted.of_filed hfiled).ids hfiles hc'
    have hid : c'.id = c.id := by rw [hcontinues.same]
    rw [hid] at hcontinues'
    rw [votesOn_append]
    exact ⟨c'', hc'', hcontinues.trans hcontinues'⟩

theorem Filed.trans (h : Filed host r r' bs) (h' : Filed host r' r'' bs') :
    Filed host r r'' (bs ++ bs') := by
  induction h' with
  | refl =>
    rw [List.append_nil]
    exact h
  | tail _ hjurors hfiles ih =>
    rw [← List.append_assoc]
    exact .tail ih hjurors hfiles

end

section
variable {host : Host} {ctx : BlockCtx} {tx : KernelTx} {s s' : MemState} {usizeBits : Nat}
variable {o : Option OpOutcome} {e : Event} {es : List Event}

theorem files_same (h : s'.humanity = s.humanity) : Files host s.humanity s'.humanity [] := by
  rw [h]
  exact .same rfl rfl

-- A case that has just been opened, before any vote.
structure Fresh (s : MemState) (kind : CaseKind) (evidenceRef : Hash) (c : Case) : Prop where
  id : c.id = s.humanity.nextCaseId
  kind : c.kind = kind
  evidenceRef : c.evidenceRef = evidenceRef
  isOpen : c.status = .Open
  votes : c.votes = []
  jury : c.jury.Nodup ∧ c.jury ≠ []
  jurors : ∀ juror ∈ c.jury, juror ∈ s.activeJurors

theorem fresh_openCase {subject challenger : Address} {kind : CaseKind} {evidenceRef : Hash}
    {entropy now : U64} {r : Except LifecycleError CaseId}
    (h : s.openCase usizeBits subject challenger kind evidenceRef entropy now = (r, s')) :
    (r = .error .NoJurors ∧ s' = s) ∨
    ∃ c, Fresh s kind evidenceRef c ∧ r = .ok c.id ∧ s' = s.addCase c := by
  simp only [openCase] at h
  split_ifs at h with hnone
  · cases h
    exact Or.inl ⟨rfl, rfl⟩
  · cases h
    refine Or.inr ⟨_, ⟨rfl, rfl, rfl, rfl, rfl, ⟨?_, ?_⟩, fun juror hjuror => ?_⟩, rfl, rfl⟩
    · exact nodup_selectJury _ _ _ _
    · exact selectJury_ne_nil hnone (by decide)
    · exact mem_of_mem_selectJury hjuror

-- A challenge waits for its jury.
theorem Fresh.challenge {evidenceRef : Hash} {c : Case} (h : Fresh s .Challenge evidenceRef c) :
    Transcribed host s.activeJurors c [] := by
  refine ⟨?_, ?_, fun vote hvote => ?_, h.jury, h.jurors, ?_⟩
  · rw [h.votes, opening, h.kind]
    rfl
  · rw [h.votes]
    exact List.nodup_nil
  · rw [h.votes] at hvote
    cases hvote
  · rw [if_pos h.votes]
    exact h.isOpen

-- A registration is graded in the name of all of its jury.
theorem Fresh.registration {evidenceRef : Hash} {c c' : Case}
    (h : Fresh s .Registration evidenceRef c)
    (hc' : c' = applyTally { c with votes := c.votes ++ opening host c }) :
    Transcribed host s.activeJurors c' [] := by
  have hsame : c' = { c with votes := c.votes ++ opening host c, status := c'.status } := by
    rw [hc']
    exact applyTally_eq _
  have hopening : opening host c = c.jury.map fun juror =>
      (juror, host.oracle.gradeLiveness (deriveLiveness host c.evidenceRef).1
        (deriveLiveness host c.evidenceRef).2) := by
    rw [opening, h.kind]
  have hvotes : c'.votes = opening host c := by
    rw [hsame, h.votes]
    rfl
  have hvoters : c'.votes.map Prod.fst = c.jury := by
    rw [hvotes, hopening, List.map_map]
    exact List.map_id _
  have hjury : c'.jury = c.jury := by rw [hsame]
  have hstatus : c'.status = (applyTally c').status := by
    have hown := status_applyTally { c with votes := c.votes ++ opening host c } c'.status
    rw [← hc'] at hown
    rw [← hown]
    exact congrArg (fun x => (applyTally x).status) hsame.symm
  refine ⟨?_, ?_, fun vote hvote => ?_, ?_, ?_, ?_⟩
  · rw [List.append_nil, hvotes, hsame]
    rfl
  · rw [hvoters]
    exact h.jury.1
  · rw [hjury, ← hvoters]
    exact List.mem_map_of_mem hvote
  · rw [hjury]
    exact h.jury
  · rw [hjury]
    exact h.jurors
  · rw [if_neg fun hnone => h.jury.2 (by rw [← hvoters, hnone]; rfl)]
    exact hstatus

theorem files_requestVerification {subject : Address} {livenessRef : Hash} {entropy now : U64}
    {r : Except LifecycleError CaseId}
    (h : s.requestVerification host.oracle host.usizeBits subject
      { livenessRef := livenessRef, challenge := (deriveLiveness host livenessRef).1
        response := (deriveLiveness host livenessRef).2 } entropy now = some (r, s')) :
    Files host s.humanity s'.humanity [] := by
  unfold requestVerification at h
  extract_lets s₀ proceed at h
  have hproceed (hp : proceed = some (r, s')) : Files host s.humanity s'.humanity [] := by
    simp only [proceed, s₀] at hp
    cases hopen : (s.clearVouchEdges subject).openCase host.usizeBits subject subject
        .Registration livenessRef entropy now with
    | mk r₁ s₁ =>
      rw [hopen] at hp
      obtain ⟨rfl, rfl⟩ | ⟨c, hc, rfl, rfl⟩ := fresh_openCase hopen
      · cases hp
        exact .same rfl rfl
      · simp only [getCase_addCase, if_true] at hp
        generalize hc' : applyTally { c with votes := c.votes ++ c.jury.map (fun juror =>
          (juror, host.oracle.gradeLiveness (deriveLiveness host livenessRef).1
            (deriveLiveness host livenessRef).2)) } = c' at hp
        have hopening : opening host c = c.jury.map (fun juror =>
            (juror, host.oracle.gradeLiveness (deriveLiveness host livenessRef).1
              (deriveLiveness host livenessRef).2)) := by
          rw [opening, hc.kind, hc.evidenceRef]
        rw [← hopening] at hc'
        have hid : c'.id = c.id := by
          rw [← hc', applyTally_eq]
        have htranscribed : Transcribed host s.activeJurors c' [] := hc.registration hc'.symm
        cases hp
        refine .entered c' (hid.trans hc.id) htranscribed ?_ ?_
        · exact Table.put_put _ hid.symm
        · rw [← show c.id = s.humanity.nextCaseId from hc.id]
          rfl
  split at h
  · split_ifs at h
    · exact hproceed h
    · cases h
      exact .same rfl rfl
  · exact hproceed h

theorem files_challengeInner {challenger subject : Address} {evidenceRef : Hash}
    {entropy now : U64} {requireVerified : Bool} {r : Except LifecycleError CaseId}
    (h : s.challengeInner usizeBits challenger subject evidenceRef entropy now requireVerified =
      (r, s')) : Files host s.humanity s'.humanity [] := by
  unfold challengeInner at h
  dsimp only at h
  have hrefused : ∀ {e : LifecycleError}, (Except.error e, s) = (r, s') →
      Files host s.humanity s'.humanity [] := by
    intro e he
    cases he
    exact .same rfl rfl
  split at h
  · exact hrefused h
  split at h
  · exact hrefused h
  split at h
  · exact hrefused h
  split at h
  · exact hrefused h
  cases hopen : s.openCase usizeBits subject challenger .Challenge evidenceRef entropy now with
  | mk r₁ s₁ =>
    rw [hopen] at h
    obtain ⟨rfl, rfl⟩ | ⟨c, hc, rfl, rfl⟩ := fresh_openCase hopen
    · cases h
      exact .same rfl rfl
    · have hentered : ∀ s₂ : MemState, s₂.humanity.cases = (s.addCase c).humanity.cases →
          s₂.humanity.nextCaseId = (s.addCase c).humanity.nextCaseId →
          Files host s.humanity s₂.humanity [] := by
        intro s₂ hcases hnext
        refine .entered c hc.id hc.challenge hcases (hnext.trans ?_)
        rw [← hc.id]
        rfl
      dsimp only at h
      split at h
      · split at h
        · cases h
          exact hentered _ rfl rfl
        · cases h
          exact hentered _ rfl rfl
      · cases h
        exact hentered _ rfl rfl

theorem files_vouch {voucher vouchee : Address} {now : U64} {r : Except LifecycleError Unit}
    (h : s.vouch voucher vouchee now = (r, s')) : Files host s.humanity s'.humanity [] := by
  obtain ⟨e, -, rfl⟩ | ⟨x, -, -, -, -, -, rfl⟩ := vouch_cases s h
  · exact .same rfl rfl
  · exact .same rfl rfl

theorem files_finalizeRegistration {subject : Address} {nowBlock now : U64}
    {r : Except LifecycleError Unit} (h : s.finalizeRegistration subject nowBlock now = (r, s')) :
    Files host s.humanity s'.humanity [] := by
  obtain ⟨e, -, rfl, -⟩ | ⟨x, -, -, rfl⟩ := finalizeRegistration_cases s h
  · exact .same rfl rfl
  · exact .same rfl rfl

-- A verdict is counted where it is accepted.
theorem files_submitVerdict {caseId : CaseId} {juror : Address} {verdict : CanonicalVerdict}
    {now : U64} {r : Except LifecycleError CaseStatus}
    (h : s.submitVerdict caseId juror verdict now = (r, s')) :
    Files host s.humanity s'.humanity
      (if r.toOption.isSome then [⟨caseId, juror, verdict⟩] else []) := by
  obtain ⟨e, rfl, rfl⟩ | ⟨c, c', hvotes, rfl, rfl⟩ := submitVerdict_cases s h
  · exact .same rfl rfl
  · obtain ⟨hcases, hnext⟩ := cases_actOnStatus (s.putCase c') c'
    exact .voted ⟨caseId, juror, verdict⟩ c c' hvotes.get hvotes.isOpen hvotes.onJury hvotes.first
      hvotes.tallied hcases hnext

theorem files_operates {r : Except String OpResult} (h : Operates host ctx tx s r s') :
    Files host s.humanity s'.humanity
      (if r.toOption.isSome then (ballotOf tx).toList else []) := by
  have hleft := leaves_operates h
  have hsilent : ballotOf tx = none → Files host s.humanity s'.humanity [] →
      Files host s.humanity s'.humanity
        (if r.toOption.isSome then (ballotOf tx).toList else []) := by
    intro hnone hfiles
    rw [hnone]
    exact (ite_self (c := r.toOption.isSome = true) []).symm ▸ hfiles
  unfold Operates at h
  cases hk : tx.kind with
  | RequestVerification livenessRef =>
    simp only [hk, hubOp] at h
    obtain ⟨p, hp, hr⟩ := Option.map_eq_some_iff.mp h
    refine hsilent (by rw [ballotOf, hk]) ?_
    rw [snd_of_render (congrArg some hr)]
    exact files_requestVerification hp
  | Vouch vouchee =>
    simp only [hk, hubOp] at h
    refine hsilent (by rw [ballotOf, hk]) ?_
    rw [snd_of_render h]
    exact files_vouch rfl
  | Challenge subject evidenceRef =>
    simp only [hk, hubOp] at h
    refine hsilent (by rw [ballotOf, hk]) ?_
    rw [snd_of_render h]
    exact files_challengeInner rfl
  | SubmitVerdict caseId verdict =>
    simp only [hk, hubOp] at h
    have hballot : ballotOf tx = some ⟨caseId, tx.from_, verdict⟩ := by rw [ballotOf, hk]
    rw [hballot]
    cases hres : s.submitVerdict caseId tx.from_ verdict ctx.number with
    | mk res s₁ =>
      rw [hres] at h
      have hfiles : Files host s.humanity s₁.humanity _ := files_submitVerdict hres
      cases res with
      | error e =>
        cases h
        exact hfiles
      | ok status =>
        cases h
        exact hfiles
  | SubmitZkPassportProof submission =>
    simp only [hk, hubOp] at h
    refine hsilent (by rw [ballotOf, hk]) ?_
    rw [snd_of_render h]
    unfold submitZkPassportProof
    split
    · exact .same rfl rfl
    · obtain ⟨-, -, hboards⟩ := acceptZkProof_spec s tx.from_ ⟨submission.signals⟩ ctx.timestamp
      exact .same hboards.cases hboards.nextCaseId
  | _ => exact hsilent (by rw [ballotOf, hk]) (files_same (hleft.humanity (by rw [hk]; rfl)))

theorem filed_step (h : step host s e = some (o, s')) :
    Filed host s.humanity s'.humanity (cast e o) := by
  have hjurors := jurors_step h
  unfold step at h
  cases haction : e.action with
  | refresh =>
    rw [haction] at h
    cases h
    rw [cast, haction]
    exact .refl
  | tx tx =>
    rw [haction] at h
    rw [cast, haction]
    refine .tail .refl hjurors ?_
    obtain ⟨ho, hleaves⟩ | ⟨s₀, r, s₁, hbefore, hoperates, hafter, ho⟩ := applyTx_operates h
    · rw [ho]
      exact files_same (hleaves.humanity rfl)
    · have hfiles := files_operates hoperates
      rw [ho, hafter.humanity rfl, ← hbefore.humanity rfl]
      exact hfiles
  | sweeps =>
    rw [haction] at h
    cases h
    rw [cast, haction]
    have hsybil : Filed host s.humanity
        (sweepSybilScan host s e.ctx.blockHash e.ctx.number).humanity [] := by
      refine Run.foldl_invariant (P := fun s₁ : MemState => Filed host s.humanity s₁.humanity [])
        (fun s₁ a hfiled => ?_) _ .refl
      have hchanges : Changes (fun _ _ => True) s₁
          (sweepSybilOne host e.ctx.blockHash e.ctx.number s₁ a) :=
        changes_sweepSybilOne e.ctx.blockHash e.ctx.number s₁ a
      refine .tail hfiled (jurors_changes s₁ hchanges) ?_
      unfold sweepSybilOne
      split_ifs
      · exact .same rfl rfl
      · exact files_challengeInner (Prod.eta (s₁.challengeInner host.usizeBits HUMANITY_HUB a
          (sybilEvidence host a e.ctx.blockHash) (blockEntropy e.ctx.blockHash e.ctx.number)
          e.ctx.number false)).symm
    refine Run.foldl_invariant (P := fun s₁ : MemState => Filed host s.humanity s₁.humanity [])
      (fun s₁ a hfiled => ?_) _ hsybil
    have hchanges : Changes (fun _ _ => True) s₁ (sweepFinalizeOne e.ctx s₁ a) :=
      changes_sweepFinalizeOne s₁ a
    exact .tail hfiled (jurors_changes s₁ hchanges) (files_finalizeRegistration rfl)

theorem filed_run (h : run host s es = some s') :
    Filed host s.humanity s'.humanity (ballots host s es) := by
  induction es generalizing s with
  | nil =>
    cases h
    exact .refl
  | cons e es ih =>
    rw [run] at h
    rw [ballots]
    cases he : step host s e with
    | none => simp [he] at h
    | some p =>
      obtain ⟨o, s₁⟩ := p
      rw [he] at h
      exact (filed_step he).trans (ih h)

theorem Genesis.minuted (g : Genesis) : Minuted host g.state.activeJurors g.state.humanity [] := by
  have hnone : ∀ c, c ∉ g.state.humanity.cases.rows := by
    intro c hc
    rw [g.seeded.cases] at hc
    cases hc
  refine ⟨fun c hc => absurd hc (hnone c), fun c hc => absurd hc (hnone c), fun b hb => ?_, rfl⟩
  cases hb

end

-- The cases of a chain are the transcripts of its verdicts: each holds what its jury has said,
-- every juror once and in the order of the blocks, and has the status that this adds up to. What
-- the chain does later adds votes to an open case and leaves a decided one as it is.
theorem cases_are_transcripts {host : Host} (g : Genesis) {es : List Event} {s : MemState}
    (hrun : run host g.state es = some s) {c : Case} (hc : c ∈ s.cases) :
    Transcribed host g.state.activeJurors c (votesOn c.id (ballots host g.state es)) ∧
    ∀ es' s', run host s es' = some s' →
      ∃ c' ∈ s'.cases, Continues c c' (votesOn c.id (ballots host s es')) := by
  have hminuted := g.minuted.of_filed (filed_run hrun)
  refine ⟨hminuted.cases c hc, fun es' s' hrun' => ?_⟩
  exact continues_filed hminuted (filed_run hrun') hc

-- A challenge that the second verdict decides.
theorem cases_are_transcripts_upheld :
    ∃ s s' c c', run mockHost devnet.state [act 1#64 1#160 0#64 (.Challenge 2#160 0#256),
        act 1#64 1#160 1#64 (.SubmitVerdict 0 (.new .Sybil .High))] = some s ∧
      run mockHost s [act 1#64 3#160 0#64 (.SubmitVerdict 0 (.new .Sybil .High))] = some s' ∧
      c ∈ s.cases ∧ c.status = .Open ∧ c' ∈ s'.cases ∧ c'.status ≠ .Open ∧
      Transcribed mockHost devnet.state.activeJurors c [(1#160, .new .Sybil .High)] ∧
      Continues c c' [(3#160, .new .Sybil .High)] := by
  have hruns : (run mockHost devnet.state [act 1#64 1#160 0#64 (.Challenge 2#160 0#256),
      act 1#64 1#160 1#64 (.SubmitVerdict 0 (.new .Sybil .High))]).bind (fun s =>
        (run mockHost s [act 1#64 3#160 0#64 (.SubmitVerdict 0 (.new .Sybil .High))]).map
          fun s' => (s.cases.map fun c => (c.id, decide (c.status = .Open)),
            s'.cases.map fun c => (c.id, decide (c.status = .Open)),
            votesOn 0 (ballots mockHost s
              [act 1#64 3#160 0#64 (.SubmitVerdict 0 (.new .Sybil .High))]))) =
      some ([(0, true)], [(0, false)], [(3#160, .new .Sybil .High)]) := by decide +kernel
  have hballots : votesOn 0 (ballots mockHost devnet.state
      [act 1#64 1#160 0#64 (.Challenge 2#160 0#256),
        act 1#64 1#160 1#64 (.SubmitVerdict 0 (.new .Sybil .High))]) =
      [(1#160, .new .Sybil .High)] := by decide +kernel
  obtain ⟨s, hrun, hs⟩ := Option.bind_eq_some_iff.mp hruns
  obtain ⟨s', hrun', hs'⟩ := Option.map_eq_some_iff.mp hs
  obtain ⟨hcases, hdecided⟩ := Prod.mk.inj hs'
  obtain ⟨hcases', hvotes⟩ := Prod.mk.inj hdecided
  obtain ⟨c, hc, hopen⟩ := List.mem_map.mp (hcases ▸ List.mem_singleton_self (0, true))
  obtain ⟨hid, hopen⟩ := Prod.mk.inj hopen
  obtain ⟨htranscribed, hcontinues⟩ := cases_are_transcripts devnet hrun hc
  obtain ⟨c', hc', hsame⟩ := hcontinues _ s' hrun'
  have hmem : (c'.id, decide (c'.status = .Open)) ∈ [(0, false)] := by
    rw [← hcases']
    exact List.mem_map_of_mem hc'
  obtain ⟨-, hclosed⟩ := Prod.mk.inj (List.mem_singleton.mp hmem)
  rw [hid, hballots] at htranscribed
  rw [hid, hvotes] at hsame
  exact ⟨s, s', c, c', hrun, hrun', hc, of_decide_eq_true hopen, hc', of_decide_eq_false hclosed,
    htranscribed, hsame⟩

end Ubi2.Exec
