import Ubi2.Runtime.Jury
import Ubi2.Runtime.Contracts.Frame

namespace Ubi2.Runtime

open Lib

section Tally

variable {entries : List (Address × CanonicalEffect)} {jurySize quorum : Nat} {digest : Hash}

-- How many entries carry a digest.
def digestSupport (entries : List (Address × CanonicalEffect)) (digest : Hash) : Nat :=
  entries.countP (fun e => e.2.effectHash = digest)

theorem digestSupport_append (l m : List (Address × CanonicalEffect)) (digest : Hash) :
    digestSupport (l ++ m) digest = digestSupport l digest + digestSupport m digest :=
  List.countP_append

theorem digestSupport_le_length (l : List (Address × CanonicalEffect)) (digest : Hash) :
    digestSupport l digest ≤ l.length := List.countP_le_length

-- Two digests share no entry.
theorem digestSupport_disjoint {d d' : Hash} (hne : d ≠ d')
    (l : List (Address × CanonicalEffect)) :
    digestSupport l d + digestSupport l d' ≤ l.length := support_disjoint hne l

private theorem support_tokens (entries : List (Address × CanonicalEffect)) (digest : Hash) :
    support id (entries.map (fun e => (e.1, e.2.effectHash))) digest =
      digestSupport entries digest := by
  simp [support, digestSupport, List.countP_map, Function.comp_def]

theorem tallyEffects_of_support (hquorum : 0 < quorum)
    (hdigest : quorum ≤ digestSupport entries digest)
    (honly : ∀ digest', quorum ≤ digestSupport entries digest' → digest' = digest) :
    ∃ a e, tallyEffects entries jurySize quorum = some (.Committed e) ∧
      entries.find? (fun e => e.2.effectHash = digest) = some (a, e) := by
  have htokens : ∃ tok, quorumTally id (fun _ => true)
      (entries.map (fun e => (e.1, e.2.effectHash))) jurySize quorum = .Committed tok ∧
        id tok = digest := by
    refine quorumTally_of_support (fun _ => rfl) hquorum ?_ ?_
    · rw [support_tokens]
      exact hdigest
    · intro k hk
      rw [support_tokens] at hk
      exact honly k hk
  obtain ⟨tok, htally, rfl⟩ := htokens
  have hsome : (entries.find? (fun e => e.2.effectHash = tok)).isSome := by
    rw [List.find?_isSome]
    exact List.countP_pos_iff.mp (hquorum.trans_le hdigest)
  obtain ⟨⟨a, e⟩, he⟩ := Option.isSome_iff_exists.mp hsome
  exact ⟨a, e, by simp [tallyEffects, htally, he], he⟩

theorem tallyEffects_pending (hnone : ∀ digest', digestSupport entries digest' < quorum)
    (hopen : quorum ≤ digestSupport entries digest + (jurySize - entries.length)) :
    tallyEffects entries jurySize quorum = some .Pending := by
  have htally : quorumTally id (fun _ => true)
      (entries.map (fun e => (e.1, e.2.effectHash))) jurySize quorum = .Pending := by
    apply quorumTally_pending
    · intro k
      rw [support_tokens]
      exact hnone k
    · rw [support_tokens, List.length_map]
      exact hopen
  simp [tallyEffects, htally]

-- The committed submission is always found again.
theorem tallyEffects_ne_none (hquorum : 0 < quorum) :
    tallyEffects entries jurySize quorum ≠ none := by
  unfold tallyEffects
  dsimp only
  split
  · simp
  · simp
  · rename_i tok htally
    have hsupport := (quorumTally_committed htally).2.1
    rw [support_tokens] at hsupport
    have hsome : (entries.find? (fun e => e.2.effectHash = id tok)).isSome := by
      rw [List.find?_isSome]
      exact List.countP_pos_iff.mp (hquorum.trans_le hsupport)
    obtain ⟨e, he⟩ := Option.isSome_iff_exists.mp hsome
    rw [id] at he
    simp [he]

theorem tallyEffects_committed {e : CanonicalEffect}
    (h : tallyEffects entries jurySize quorum = some (.Committed e)) :
    quorum ≤ digestSupport entries e.effectHash := by
  unfold tallyEffects at h
  dsimp only at h
  split at h
  · cases h
  · cases h
  · rename_i tok htally
    split at h
    · cases h
    · rename_i e' he'
      cases h
      have hhash : e'.2.effectHash = tok := by simpa using List.find?_some he'
      rw [hhash]
      exact (quorumTally_committed htally).2.1.trans_eq (support_tokens entries tok)

end Tally

-- One `submit_effect` call on a case.
structure Submission where
  juror : Address
  effect : CanonicalEffect
  block : U64
  now : U64
deriving DecidableEq

namespace Submission

def entry (x : Submission) : Address × CanonicalEffect := (x.juror, x.effect)

def digest (x : Submission) : Hash := x.effect.effectHash

end Submission

-- The case with the entries of these calls and no others.
def ExecCase.heard (c : ExecCase) (done : List Submission) : ExecCase :=
  { c with effects := done.map Submission.entry }

-- The calls come from different members of the jury.
structure Callers (c : ExecCase) (xs : List Submission) : Prop where
  nodup : (xs.map Submission.juror).Nodup
  seated : ∀ x ∈ xs, x.juror ∈ c.jury

namespace Callers

variable {c : ExecCase} {xs ys : List Submission} {x : Submission}

theorem length_le (h : Callers c xs) : xs.length ≤ c.jury.length := by
  have hsub : xs.map Submission.juror ⊆ c.jury := by
    intro a ha
    obtain ⟨x, hx, rfl⟩ := List.mem_map.mp ha
    exact h.seated x hx
  have hle := h.nodup.length_le_of_subset hsub
  rwa [List.length_map] at hle

theorem of_perm (h : Callers c xs) (hperm : ys.Perm xs) : Callers c ys :=
  ⟨(hperm.map _).nodup_iff.mpr h.nodup, fun x hx => h.seated x (hperm.mem_iff.mp hx)⟩

theorem of_append (h : Callers c (xs ++ ys)) : Callers c xs :=
  ⟨(List.nodup_append.mp (List.map_append ▸ h.nodup)).1,
    fun x hx => h.seated x (List.mem_append_left _ hx)⟩

-- The last caller has not been heard before.
theorem effectOf_heard (h : Callers c (xs ++ [x])) : (c.heard xs).effectOf x.juror = none := by
  have hnodup := h.nodup
  rw [List.map_append, List.nodup_append] at hnodup
  rw [ExecCase.effectOf, Option.map_eq_none_iff, List.find?_eq_none]
  intro e he
  obtain ⟨y, hy, rfl⟩ := List.mem_map.mp he
  have hne := hnodup.2.2 y.juror (List.mem_map.mpr ⟨y, hy, rfl⟩) x.juror (by simp)
  rwa [decide_eq_true_eq]

end Callers

namespace MemState

-- The calls one after another. `none` is a panic in one of them.
def submitAll (s : MemState) (caseId : ExecCaseId) : List Submission → Option MemState
  | [] => some s
  | x :: xs =>
    match s.submitEffect caseId x.juror x.effect x.block x.now with
    | none => none
    | some (_, s) => submitAll s caseId xs

-- The effect a case has committed.
def committed (s : MemState) (caseId : ExecCaseId) : Option CanonicalEffect :=
  match (s.getExecCase caseId).map ExecCase.status with
  | some (.Committed e) => some e
  | _ => none

-- The calls commit this effect.
def Commits (s : MemState) (caseId : ExecCaseId) (xs : List Submission)
    (effect : CanonicalEffect) : Prop :=
  ∃ t, s.submitAll caseId xs = some t ∧ t.committed caseId = some effect

-- An effect that a tally of the case could commit at this time: it is no pure abort, and
-- the runtime applies it.
def Takes (s : MemState) (c : ExecCase) (effect : CanonicalEffect) (now : U64) : Prop :=
  effect.isAbort = false ∧ ∃ t, s.applyEffect c.contract effect now = some (.ok (), t)

section Submissions

variable {s : MemState} {c : ExecCase} {caseId : ExecCaseId} {x : Submission}

theorem getExecCase_putExecCase (s : MemState) (c : ExecCase) :
    (s.putExecCase c).getExecCase c.id = some c := Table.get_put_self _ _

theorem id_of_getExecCase (h : s.getExecCase caseId = some c) : c.id = caseId :=
  Table.key_of_get h

theorem putExecCase_of_get (h : s.getExecCase caseId = some c) : s.putExecCase c = s := by
  have hid := id_of_getExecCase h
  have hput : s.prompt.execCases.put c = s.prompt.execCases :=
    Table.put_of_get (by rw [hid]; exact h)
  unfold putExecCase ContractRegistry.putExecCase
  rw [hput]

theorem submitAll_append (s : MemState) (caseId : ExecCaseId) (xs ys : List Submission) :
    s.submitAll caseId (xs ++ ys) =
      (s.submitAll caseId xs).bind (fun s => s.submitAll caseId ys) := by
  induction xs generalizing s with
  | nil => rfl
  | cons x xs ih =>
    simp only [List.cons_append, submitAll]
    cases s.submitEffect caseId x.juror x.effect x.block x.now with
    | none => rfl
    | some p => exact ih p.2

-- A closed case refuses every further call.
theorem submitAll_closed (hcase : s.getExecCase caseId = some c) (hclosed : c.status ≠ .Open)
    (xs : List Submission) : s.submitAll caseId xs = some s := by
  induction xs with
  | nil => rfl
  | cons x xs ih => simp [submitAll, submitEffect, hcase, hclosed, ih]

-- The effect of an operation on a contract does not depend on the stored cases.
theorem applyEffect_putExecCase (s : MemState) (c : ExecCase) (id : ContractId)
    (effect : CanonicalEffect) (now : U64) :
    (s.putExecCase c).applyEffect id effect now =
      (s.applyEffect id effect now).map (fun p => (p.1, p.2.putExecCase c)) := by
  have hstart : ∀ contract, (s.putExecCase c).effectStart contract (contractAddress id) now =
      s.effectStart contract (contractAddress id) now := fun _ => rfl
  have hget : (s.putExecCase c).getContract id = s.getContract id := rfl
  have hledger : (s.putExecCase c).ledger = s.ledger := rfl
  unfold applyEffect
  rw [hget, hledger]
  cases s.getContract id with
  | none => rfl
  | some contract =>
    dsimp only
    rw [hstart]
    cases validateOps contract (s.ledger.outgoing (contractAddress id)) 0#128 effect.ops with
    | error e => rfl
    | ok draw =>
      dsimp only
      split_ifs
      · rfl
      · cases applyOps (contractAddress id) now
            (s.effectStart contract (contractAddress id) now) effect.ops with
        | none => rfl
        | some r => rfl

theorem putExecCase_putExecCase {c' : ExecCase} (h : c.id = c'.id) :
    (s.putExecCase c).putExecCase c' = s.putExecCase c' := by
  have hput : (s.prompt.execCases.put c).put c' = s.prompt.execCases.put c' :=
    Table.put_put _ h
  unfold putExecCase ContractRegistry.putExecCase
  dsimp only
  rw [hput]

variable {p xs : List Submission}

-- A call of a new juror joins the case and resolves it.
theorem submitEffect_heard (hopen : c.status = .Open) (hcallers : Callers c (p ++ [x])) :
    (s.putExecCase (c.heard p)).submitEffect c.id x.juror x.effect x.block x.now =
      ((s.putExecCase (c.heard p)).resolveCase (c.heard (p ++ [x])) x.block x.now).map
        (fun r => (.ok r.1.status, r.2.putExecCase r.1)) := by
  have hget : (s.putExecCase (c.heard p)).getExecCase c.id = some (c.heard p) :=
    getExecCase_putExecCase s (c.heard p)
  have hstatus : (c.heard p).status = .Open := hopen
  have hjury : x.juror ∈ (c.heard p).jury := hcallers.seated x (by simp)
  have hjoin : c.heard (p ++ [x]) =
      { c.heard p with effects := (c.heard p).effects ++ [(x.juror, x.effect)] } := by
    simp [ExecCase.heard, Submission.entry]
  unfold submitEffect
  rw [hget, hjoin]
  dsimp only
  rw [if_neg (not_not.mpr hstatus), if_neg (not_not.mpr hjury), hcallers.effectOf_heard,
    if_neg (by simp)]
  split
  · rename_i hresolve
    rw [hresolve]
    rfl
  · rename_i c' t hresolve
    rw [hresolve]
    rfl

-- A call that leaves the tally pending is only recorded.
theorem submitEffect_pending (hopen : c.status = .Open) (hcallers : Callers c (p ++ [x]))
    (htally : tallyEffects ((p ++ [x]).map Submission.entry) c.jury.length QUORUM =
      some .Pending) :
    (s.putExecCase (c.heard p)).submitEffect c.id x.juror x.effect x.block x.now =
      some (.ok .Open, s.putExecCase (c.heard (p ++ [x]))) := by
  have hheard : tallyEffects (c.heard (p ++ [x])).effects (c.heard (p ++ [x])).jury.length
      QUORUM = some .Pending := htally
  have hcase : { c.heard (p ++ [x]) with status := .Open } = c.heard (p ++ [x]) := by
    rw [← hopen]
    rfl
  have hput : (s.putExecCase (c.heard p)).putExecCase (c.heard (p ++ [x])) =
      s.putExecCase (c.heard (p ++ [x])) := putExecCase_putExecCase rfl
  have hstatus : (c.heard (p ++ [x])).status = .Open := hopen
  simp only [submitEffect_heard hopen hcallers, resolveCase, hheard, hcase, Option.map_some, hput]
  rw [hstatus]

-- While the tally of what was heard stays pending, a run of calls only records them.
theorem submitAll_pending (hopen : c.status = .Open) (hcallers : Callers c p)
    (hpending : ∀ q, q ≠ [] → q <+: p →
      tallyEffects (q.map Submission.entry) c.jury.length QUORUM = some .Pending) :
    (s.putExecCase (c.heard [])).submitAll c.id p = some (s.putExecCase (c.heard p)) := by
  induction p using List.reverseRecOn with
  | nil => rfl
  | append_singleton p x ih =>
    have hpre := ih hcallers.of_append
      (fun q hq hqp => hpending q hq (hqp.trans (List.prefix_append p [x])))
    have htally := hpending (p ++ [x]) (by simp) (List.prefix_refl _)
    rw [submitAll_append, hpre, Option.bind_some]
    simp only [submitAll, submitEffect_pending hopen hcallers htally]

-- The checks of an effect do not look at the clock: at another time it is applied too,
-- unless the node panics.
theorem Takes.at_time {effect : CanonicalEffect} {now now' : U64} (h : s.Takes c effect now)
    (hruns : s.applyEffect c.contract effect now' ≠ none) : s.Takes c effect now' := by
  obtain ⟨habort, t, ht⟩ := h
  refine ⟨habort, ?_⟩
  obtain ⟨_, hcontra, -⟩ | ⟨contract, -, draw, -, hget, hvalid, hdraw, -, -⟩ :=
    applyEffect_cases s ht
  · cases hcontra
  · unfold applyEffect at hruns ⊢
    simp only [hget, hvalid, if_neg (not_lt.mpr hdraw)] at hruns ⊢
    cases hops : applyOps (contractAddress c.contract) now'
        (s.effectStart contract (contractAddress c.contract) now') effect.ops with
    | none => simp [hops] at hruns
    | some r => exact ⟨_, rfl⟩

-- What a closed case has committed, it keeps.
theorem committed_closed_iff {e : CanonicalEffect} (s : MemState) (hid : c.id = caseId)
    (hclosed : c.status ≠ .Open) (xs : List Submission) :
    (s.putExecCase c).Commits caseId xs e ↔ c.status = .Committed e := by
  subst hid
  have hget := getExecCase_putExecCase s c
  rw [Commits, submitAll_closed hget hclosed]
  simp only [Option.some.injEq, exists_eq_left', committed, hget, Option.map_some]
  cases c.status <;> simp

-- The call that brings a digest to the quorum decides the case: it commits the effect the
-- tally names exactly when that effect can be taken.
theorem committed_iff_of_tally {post : List Submission} {e e' : CanonicalEffect}
    (hopen : c.status = .Open) (hcallers : Callers c (p ++ x :: post))
    (hpending : ∀ q, q ≠ [] → q <+: p →
      tallyEffects (q.map Submission.entry) c.jury.length QUORUM = some .Pending)
    (htally : tallyEffects ((p ++ [x]).map Submission.entry) c.jury.length QUORUM =
      some (.Committed e)) :
    (s.putExecCase (c.heard [])).Commits c.id (p ++ x :: post) e' ↔
      e' = e ∧ s.Takes c e x.now := by
  have hcallers' : Callers c (p ++ [x]) := by
    rw [List.append_cons] at hcallers
    exact hcallers.of_append
  have hheard : tallyEffects (c.heard (p ++ [x])).effects (c.heard (p ++ [x])).jury.length
      QUORUM = some (.Committed e) := htally
  have hcontract : (c.heard (p ++ [x])).contract = c.contract := rfl
  rw [Commits, submitAll_append, submitAll_pending hopen hcallers'.of_append hpending,
    Option.bind_some]
  simp only [submitAll, submitEffect_heard hopen hcallers', resolveCase, hheard, hcontract,
    applyEffect_putExecCase]
  by_cases habort : e.isAbort = true
  · rw [if_pos habort]
    refine (committed_closed_iff _ ?_ ?_ _).trans ?_
    · rfl
    · simp
    · simp [Takes, habort]
  · rw [if_neg habort]
    cases happly : s.applyEffect c.contract e x.now with
    | none => simp [Takes, happly]
    | some r =>
      obtain ⟨res, t⟩ := r
      cases res with
      | error err =>
        refine (committed_closed_iff _ ?_ ?_ _).trans ?_
        · rfl
        · simp
        · simp [Takes, happly]
      | ok u =>
        refine (committed_closed_iff _ ?_ ?_ _).trans ?_
        · rfl
        · simp
        · simp [Takes, happly, habort, eq_comm]

-- Where no digest reaches the quorum, nothing is committed.
theorem not_commits_of_small {e : CanonicalEffect} (hopen : c.status = .Open)
    (hcallers : Callers c (p ++ xs))
    (hsmall : ∀ d, digestSupport ((p ++ xs).map Submission.entry) d < QUORUM) :
    ¬ (s.putExecCase (c.heard p)).Commits c.id xs e := by
  induction xs generalizing p with
  | nil =>
    rintro ⟨t, ht, hcommitted⟩
    cases ht
    have hget : (s.putExecCase (c.heard p)).getExecCase c.id = some (c.heard p) :=
      getExecCase_putExecCase s (c.heard p)
    have hstatus : (c.heard p).status = .Open := hopen
    simp [committed, hget, hstatus] at hcommitted
  | cons x xs ih =>
    rw [List.append_cons] at hcallers hsmall
    have hcallers' := hcallers.of_append
    cases htally : tallyEffects ((p ++ [x]).map Submission.entry) c.jury.length QUORUM with
    | none => exact absurd htally (tallyEffects_ne_none (by decide))
    | some outcome =>
      cases outcome with
      | Pending =>
        rw [Commits, submitAll, submitEffect_pending hopen hcallers' htally]
        exact ih hcallers hsmall
      | NoQuorum =>
        have hheard : tallyEffects (c.heard (p ++ [x])).effects
            (c.heard (p ++ [x])).jury.length QUORUM = some .NoQuorum := htally
        rw [Commits, submitAll, submitEffect_heard hopen hcallers', resolveCase, hheard]
        intro h
        have hclosed := (committed_closed_iff _ rfl (by simp) xs).mp h
        cases hclosed
      | Committed effect =>
        have hsupport := tallyEffects_committed htally
        have hlt := hsmall effect.effectHash
        rw [List.map_append, digestSupport_append] at hlt
        omega

theorem digestSupport_singleton (y : Submission) (d : Hash) :
    digestSupport ([y].map Submission.entry) d = if y.digest = d then 1 else 0 := by
  by_cases hy : y.digest = d
  · rw [if_pos hy, ← hy]
    simp [digestSupport, Submission.entry, Submission.digest]
  · rw [if_neg hy]
    simpa [digestSupport, Submission.entry, Submission.digest] using hy

-- The call that completes a quorum.
theorem exists_decisive {n : Nat} {d : Hash} (hn : 0 < n)
    (h : n ≤ digestSupport (xs.map Submission.entry) d) :
    ∃ p x post, xs = p ++ x :: post ∧ x.digest = d ∧
      digestSupport (p.map Submission.entry) d + 1 = n := by
  induction xs using List.reverseRecOn with
  | nil =>
    simp [digestSupport] at h
    omega
  | append_singleton xs y ih =>
    by_cases hle : n ≤ digestSupport (xs.map Submission.entry) d
    · obtain ⟨p, x, post, rfl, hx, hcount⟩ := ih hle
      exact ⟨p, x, post ++ [y], by simp, hx, hcount⟩
    · rw [List.map_append, digestSupport_append, digestSupport_singleton] at h
      split_ifs at h with hy
      · exact ⟨xs, y, [], rfl, hy, by omega⟩
      · omega

section Decisive

variable {post : List Submission} {d : Hash}

-- A jury is too small for two digests to reach the quorum.
theorem support_lt_of_ne (hjury : c.jury.length ≤ JURY_SIZE) (hcallers : Callers c xs)
    (hd : QUORUM ≤ digestSupport (xs.map Submission.entry) d) {d' : Hash} (hne : d' ≠ d) :
    digestSupport (xs.map Submission.entry) d' < QUORUM := by
  have hdisjoint := digestSupport_disjoint hne (xs.map Submission.entry)
  have hlen := hcallers.length_le
  have hsizes : JURY_SIZE < 2 * QUORUM := by decide
  rw [List.length_map] at hdisjoint
  omega

theorem support_mono {q : List Submission} (h : q <+: xs) (d : Hash) :
    digestSupport (q.map Submission.entry) d ≤ digestSupport (xs.map Submission.entry) d := by
  obtain ⟨r, rfl⟩ := h
  rw [List.map_append, digestSupport_append]
  omega

theorem pending_before_decisive (hjury : c.jury.length ≤ JURY_SIZE)
    (hcallers : Callers c (p ++ [x])) (hx : x.digest = d)
    (hcount : digestSupport (p.map Submission.entry) d + 1 = QUORUM) {q : List Submission}
    (hq : q <+: p) :
    tallyEffects (q.map Submission.entry) c.jury.length QUORUM = some .Pending := by
  have hfull : digestSupport ((p ++ [x]).map Submission.entry) d = QUORUM := by
    rw [List.map_append, digestSupport_append, digestSupport_singleton, if_pos hx, hcount]
  have hmono := support_mono (hq.trans (List.prefix_append p [x]))
  refine tallyEffects_pending ?_ (?_ : QUORUM ≤ digestSupport _ d + _)
  · intro d'
    by_cases hd : d' = d
    · have hle := support_mono hq d
      rw [hd]
      omega
    · exact (hmono d').trans_lt (support_lt_of_ne hjury hcallers hfull.ge hd)
  · obtain ⟨r, rfl⟩ := hq
    have hlen := hcallers.length_le
    have hrest := digestSupport_le_length (r.map Submission.entry) d
    rw [List.map_append, digestSupport_append] at hcount
    simp only [List.length_append, List.length_map, List.length_singleton] at hlen hrest ⊢
    omega

-- At the call that completes the quorum of its digest, the first of these calls decides.
theorem commits_iff_of_decisive (hopen : c.status = .Open)
    (hjury : c.jury.length ≤ JURY_SIZE) (hcallers : Callers c (p ++ x :: post))
    (hx : x.digest = d) (hcount : digestSupport (p.map Submission.entry) d + 1 = QUORUM) :
    ∃ y ∈ p, y.digest = d ∧ ∀ e,
      (s.putExecCase (c.heard [])).Commits c.id (p ++ x :: post) e ↔
        e = y.effect ∧ s.Takes c y.effect x.now := by
  have hcallers' : Callers c (p ++ [x]) := by
    rw [List.append_cons] at hcallers
    exact hcallers.of_append
  have hfull : QUORUM ≤ digestSupport ((p ++ [x]).map Submission.entry) d := by
    rw [List.map_append, digestSupport_append, digestSupport_singleton, if_pos hx, hcount]
  have honly : ∀ d', QUORUM ≤ digestSupport ((p ++ [x]).map Submission.entry) d' →
      d' = d := by
    intro d' hd'
    by_contra hne
    have hlt := support_lt_of_ne hjury hcallers' hfull hne
    omega
  have hdecided : ∃ a e,
      tallyEffects ((p ++ [x]).map Submission.entry) c.jury.length QUORUM =
        some (.Committed e) ∧
      ((p ++ [x]).map Submission.entry).find? (fun e => e.2.effectHash = d) = some (a, e) :=
    tallyEffects_of_support (by decide) hfull honly
  obtain ⟨a, e, htally, hfind⟩ := hdecided
  have hpos : 0 < digestSupport (p.map Submission.entry) d := by
    have hquorum : 2 ≤ QUORUM := by decide
    omega
  obtain ⟨e', he', hdigest⟩ := List.countP_pos_iff.mp hpos
  obtain ⟨y', hy', rfl⟩ := List.mem_map.mp he'
  have hsome : (p.find? (fun y => y.digest = d)).isSome := by
    rw [List.find?_isSome]
    exact ⟨y', hy', hdigest⟩
  obtain ⟨y, hy⟩ := Option.isSome_iff_exists.mp hsome
  have hentry : (fun y : Submission => decide (y.digest = d)) =
      (fun e : Address × CanonicalEffect => decide (e.2.effectHash = d)) ∘ Submission.entry :=
    rfl
  rw [List.find?_map, ← hentry, List.find?_append, hy, Option.some_or, Option.map_some] at hfind
  cases hfind
  refine ⟨y, List.mem_of_find?_eq_some hy, by simpa using List.find?_some hy, fun e => ?_⟩
  refine committed_iff_of_tally hopen hcallers (fun q _ hq => ?_) htally
  exact pending_before_decisive hjury hcallers' hx hcount hq

-- A digest with the quorum has two calls, of different jurors, that decide the case.
theorem commits_iff_of_support (hopen : c.status = .Open) (hjury : c.jury.length ≤ JURY_SIZE)
    (hcallers : Callers c xs) (hd : QUORUM ≤ digestSupport (xs.map Submission.entry) d) :
    ∃ y ∈ xs, ∃ z ∈ xs, z.juror ≠ y.juror ∧ y.digest = d ∧ z.digest = d ∧
      ∀ e, (s.putExecCase (c.heard [])).Commits c.id xs e ↔
        e = y.effect ∧ s.Takes c y.effect z.now := by
  obtain ⟨p, z, post, rfl, hz, hcount⟩ := exists_decisive (by decide) hd
  obtain ⟨y, hy, hdigest, hcommits⟩ :=
    commits_iff_of_decisive (s := s) hopen hjury hcallers hz hcount
  have hnodup := hcallers.nodup
  rw [List.map_append, List.nodup_append] at hnodup
  have hne := hnodup.2.2 y.juror (List.mem_map.mpr ⟨y, hy, rfl⟩) z.juror (by simp)
  exact ⟨y, by simp [hy], z, by simp, hne.symm, hdigest, hz, hcommits⟩

-- Two calls with one digest, made first, decide the case at once.
theorem commits_iff_of_first {y z : Submission} {e : CanonicalEffect} (hopen : c.status = .Open)
    (hjury : c.jury.length ≤ JURY_SIZE) (hcallers : Callers c (y :: z :: post))
    (hdigest : z.digest = y.digest) :
    (s.putExecCase (c.heard [])).Commits c.id (y :: z :: post) e ↔
      e = y.effect ∧ s.Takes c y.effect z.now := by
  have hcount : digestSupport ([y].map Submission.entry) y.digest + 1 = QUORUM := by
    rw [digestSupport_singleton, if_pos rfl]
    rfl
  obtain ⟨y', hy', -, hcommits⟩ :=
    commits_iff_of_decisive (s := s) (p := [y]) hopen hjury hcallers hdigest hcount
  rw [List.mem_singleton.mp hy'] at hcommits
  exact hcommits e

end Decisive

end Submissions

end MemState

end Ubi2.Runtime
