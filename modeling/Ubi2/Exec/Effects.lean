import Ubi2.Exec.EffectCodec
import Ubi2.Runtime.Contracts.Submissions

namespace Ubi2.Exec

open Ubi2.Runtime Ubi2.Runtime.MemState

-- The jury of an invocation is never larger than its nominal size.
theorem length_jury_invokedCase (s : MemState) (interpreter : ContractInterpreter)
    (usizeBits : Nat) (id : ContractId) (contract : PromptContract) (triggerRef : Hash)
    (trigger : Bytes) (invoker : Address) (entropy block now : U64) :
    (s.invokedCase interpreter usizeBits id contract triggerRef trigger invoker entropy block
      now).jury.length ≤ JURY_SIZE :=
  length_selectJury_le _ _ _ _

-- Every order of the calls commits the same effects, and each of them is, operation by
-- operation, what a quorum of the jurors submitted.
def SignedByQuorum (s : MemState) (caseId : ExecCaseId) (calls : List Submission) : Prop :=
  ∀ order, order.Perm calls → ∀ e, s.Commits caseId order e →
    QUORUM ≤ calls.countP (fun x => x.effect.ops = e.ops) ∧
      ∀ order', order'.Perm calls → s.Commits caseId order' e

-- Where the case could take an effect that two calls give the digest of, every call with
-- this digest lists the same operations, and the node applies them at the time of any
-- other such call without a panic.
def DigestBinds (s : MemState) (c : ExecCase) (calls : List Submission) : Prop :=
  ∀ x ∈ calls, ∀ z ∈ calls, z.juror ≠ x.juror → z.digest = x.digest →
    s.Takes c x.effect z.now →
      ∀ y ∈ calls, y.digest = x.digest → y.effect.ops = x.effect.ops ∧
        ∀ w ∈ calls, w.juror ≠ y.juror → w.digest = x.digest →
          s.applyEffect c.contract y.effect w.now ≠ none

-- A case that waits for its jury, with nothing heard yet. No chain holds one: an invocation
-- has its jury answer at once.
structure Convened (s : MemState) (caseId : ExecCaseId) (c : ExecCase) : Prop where
  stored : s.getExecCase caseId = some c
  isOpen : c.status = .Open
  unheard : c.effects = []
  seats : c.jury.length ≤ JURY_SIZE

namespace Convened

variable {s : MemState} {c : ExecCase} {caseId : ExecCaseId} {calls : List Submission}

private theorem start (h : Convened s caseId c) : s.putExecCase (c.heard []) = s := by
  have hheard : c.heard [] = c := by
    rw [ExecCase.heard, List.map_nil, ← h.unheard]
  rw [hheard, putExecCase_of_get h.stored]

theorem commits_iff_of_first {x z : Submission} {post : List Submission} {e : CanonicalEffect}
    (h : Convened s caseId c) (hcallers : Callers c (x :: z :: post))
    (hdigest : z.digest = x.digest) :
    s.Commits caseId (x :: z :: post) e ↔ e = x.effect ∧ s.Takes c x.effect z.now := by
  have hcommits := MemState.commits_iff_of_first (s := s) (e := e) h.isOpen h.seats hcallers hdigest
  rwa [h.start, id_of_getExecCase h.stored] at hcommits

theorem commits_iff_of_support {d : Hash} (h : Convened s caseId c) (hcallers : Callers c calls)
    (hd : QUORUM ≤ digestSupport (calls.map Submission.entry) d) :
    ∃ y ∈ calls, ∃ z ∈ calls, z.juror ≠ y.juror ∧ y.digest = d ∧ z.digest = d ∧
      ∀ e, s.Commits caseId calls e ↔ e = y.effect ∧ s.Takes c y.effect z.now := by
  have hsupport := MemState.commits_iff_of_support (s := s) h.isOpen h.seats hcallers hd
  rwa [h.start, id_of_getExecCase h.stored] at hsupport

theorem exists_support {e : CanonicalEffect} (h : Convened s caseId c)
    (hcallers : Callers c calls) (hcommits : s.Commits caseId calls e) :
    ∃ d, QUORUM ≤ digestSupport (calls.map Submission.entry) d := by
  by_contra hnone
  have hsmall : ∀ d, digestSupport (calls.map Submission.entry) d < QUORUM :=
    fun d => not_le.mp (fun hd => hnone ⟨d, hd⟩)
  rw [← id_of_getExecCase h.stored, ← h.start] at hcommits
  exact not_commits_of_small (p := []) h.isOpen hcallers hsmall hcommits

end Convened

section Quorum

variable {s : MemState} {c : ExecCase} {caseId : ExecCaseId} {calls : List Submission}

private theorem exists_first {x z : Submission} (hx : x ∈ calls) (hz : z ∈ calls)
    (hne : z.juror ≠ x.juror) : ∃ post, (x :: z :: post).Perm calls := by
  have hz' : z ∈ calls.erase x := by
    rw [List.mem_erase_of_ne]
    · exact hz
    · rintro rfl
      exact hne rfl
  refine ⟨(calls.erase x).erase z, ?_⟩
  exact ((List.perm_cons_erase hz').symm.cons x).trans (List.perm_cons_erase hx).symm

-- Two jurors of one digest: one of them is not the caller at hand.
private theorem exists_other {x z : Submission} (y : Submission) (hx : x ∈ calls)
    (hz : z ∈ calls) (hne : z.juror ≠ x.juror) (hzx : z.digest = x.digest) :
    ∃ w ∈ calls, w.juror ≠ y.juror ∧ w.digest = x.digest := by
  by_cases hy : x.juror = y.juror
  · exact ⟨z, hz, hy ▸ hne, hzx⟩
  · exact ⟨x, hx, hy, rfl⟩

private theorem digestBinds_of_signed (h : Convened s caseId c) (hcallers : Callers c calls)
    (hsigned : SignedByQuorum s caseId calls) : DigestBinds s c calls := by
  intro x hx z hz hne hzx htakes y hy hyx
  -- with `x` and `z` called first the effect of `x` is committed, so it is in every order
  obtain ⟨post, hperm⟩ := exists_first hx hz hne
  have hfirst := (h.commits_iff_of_first (hcallers.of_perm hperm) hzx).mpr ⟨rfl, htakes⟩
  have hevery := (hsigned _ hperm x.effect hfirst).2
  have hsame : ∀ w ∈ calls, w.juror ≠ y.juror → w.digest = x.digest →
      x.effect = y.effect ∧ s.Takes c y.effect w.now := by
    intro w hw hwy hwx
    obtain ⟨post', hperm'⟩ := exists_first hy hw hwy
    have hwy' : w.digest = y.digest := hwx.trans hyx.symm
    exact (h.commits_iff_of_first (hcallers.of_perm hperm') hwy').mp (hevery _ hperm')
  constructor
  · obtain ⟨w, hw, hwy, hwx⟩ := exists_other y hx hz hne hzx
    rw [(hsame w hw hwy hwx).1]
  · intro w hw hwy hwx
    obtain ⟨-, t, ht⟩ := (hsame w hw hwy hwx).2
    rw [ht]
    exact Option.some_ne_none _

private theorem signed_of_digestBinds (h : Convened s caseId c) (hcallers : Callers c calls)
    (hadmitted : ∀ x ∈ calls, ∃ blob, decodeEffect blob = .ok x.effect)
    (hbinds : DigestBinds s c calls) : SignedByQuorum s caseId calls := by
  intro order hperm e hcommits
  obtain ⟨d, hd⟩ := h.exists_support (hcallers.of_perm hperm) hcommits
  obtain ⟨y, hy, z, hz, hzy, hyd, hzd, hiff⟩ :=
    h.commits_iff_of_support (hcallers.of_perm hperm) hd
  obtain ⟨rfl, htakes⟩ := (hiff e).mp hcommits
  have hgroup := hbinds y (hperm.mem_iff.mp hy) z (hperm.mem_iff.mp hz) hzy
    (hzd.trans hyd.symm) htakes
  have hcalls : QUORUM ≤ calls.countP (fun x => x.digest = d) := by
    rwa [digestSupport, List.countP_map, hperm.countP_eq] at hd
  constructor
  · refine hcalls.trans (List.countP_mono_left fun x hx hxd => ?_)
    have hxd' : x.digest = y.digest := (of_decide_eq_true hxd).trans hyd.symm
    exact decide_eq_true (hgroup x hx hxd').1
  · intro order' hperm'
    have hd' : QUORUM ≤ digestSupport (order'.map Submission.entry) d := by
      rw [digestSupport, List.countP_map, hperm'.countP_eq]
      exact hcalls
    obtain ⟨y', hy', z', hz', hzy', hyd', hzd', hiff'⟩ :=
      h.commits_iff_of_support (hcallers.of_perm hperm') hd'
    have hy'mem := hperm'.mem_iff.mp hy'
    obtain ⟨hops, hruns⟩ := hgroup y' hy'mem (hyd'.trans hyd.symm)
    -- admitted effects with one list of operations are one effect
    have heffect : y'.effect = y.effect := by
      obtain ⟨_, hblob⟩ := hadmitted y (hperm.mem_iff.mp hy)
      obtain ⟨_, hblob'⟩ := hadmitted y' hy'mem
      rw [(decodeEffect_ok_iff.mp hblob).1, (decodeEffect_ok_iff.mp hblob').1, hops]
    have hruns' := hruns z' (hperm'.mem_iff.mp hz') hzy' (hzd'.trans hyd.symm)
    rw [heffect] at hruns' hiff'
    exact (hiff' _).mpr ⟨rfl, htakes.at_time hruns'⟩

theorem signed_by_quorum_iff (h : Convened s caseId c) (hcallers : Callers c calls)
    (hadmitted : ∀ x ∈ calls, ∃ blob, decodeEffect blob = .ok x.effect) :
    SignedByQuorum s caseId calls ↔ DigestBinds s c calls :=
  ⟨digestBinds_of_signed h hcallers, signed_of_digestBinds h hcallers hadmitted⟩

end Quorum

-- A deployed contract with a case that waits for its three jurors.
def convenedState : MemState :=
  (({} : MemState).deployContract "two-party escrow agreement" 0#256 [1#160, 2#160]).2.putExecCase
    { id := 0, contract := 0, triggerRef := 0#256, invoker := 1#160
      jury := [101#160, 102#160, 103#160], effects := [], status := .Open
      openedAt := 1#64, resolvedAt := none }

def agreedEffect : CanonicalEffect := .new [.SetVar 1#256 2#256]

def agreedCalls : List Submission :=
  [ { juror := 103#160, effect := agreedEffect, block := 2#64, now := 24#64 },
    { juror := 101#160, effect := agreedEffect, block := 3#64, now := 36#64 } ]

private theorem fits_setVar {ops : List Op} (h : ∀ op ∈ ops, op.tag = TAG_SET_VAR) :
    ∀ op ∈ ops, Fits op := by
  intro op hop
  have htag := h op hop
  cases op with
  | StopStream id => simp [Op.tag, TAG_SET_VAR] at htag
  | _ => trivial

theorem signed_by_quorum_agreed : SignedByQuorum convenedState 0 agreedCalls := by
  have hconvened : Convened convenedState 0 _ := ⟨rfl, rfl, rfl, by decide⟩
  have hadmitted : ∀ x ∈ agreedCalls, ∃ blob, decodeEffect blob = .ok x.effect := by
    intro x hx
    rcases List.mem_pair.mp hx with rfl | rfl <;>
      exact admitted_new (by decide) (fits_setVar (by decide))
  refine (signed_by_quorum_iff hconvened ⟨by decide, by decide⟩ hadmitted).mpr ?_
  intro x hx z _ _ _ _ y hy _
  have hx' : x.effect = agreedEffect := by
    rcases List.mem_pair.mp hx with rfl | rfl <;> rfl
  have hy' : y.effect = agreedEffect := by
    rcases List.mem_pair.mp hy with rfl | rfl <;> rfl
  refine ⟨by rw [hx', hy'], fun w hw _ _ => ?_⟩
  rw [hy']
  rcases List.mem_pair.mp hw with rfl | rfl
  · decide +kernel
  · decide +kernel

private theorem commits_of_bind {s : MemState} {caseId : ExecCaseId} {calls : List Submission}
    {e : CanonicalEffect}
    (h : (s.submitAll caseId calls).bind (fun t => t.committed caseId) = some e) :
    s.Commits caseId calls e := Option.bind_eq_some_iff.mp h

-- Two effects of two operations each. They differ in the top bits of pairs of neighbouring
-- bytes, where the four lanes agree, and these differences cancel in every lane.
def collidingEffect : CanonicalEffect := .new
  [ .SetVar 0x214ef02ad8baae7ea066ea014560fc1ce86c10786e326535a8cc9de7b6a35634#256
      0x6134dd286e8698d87867e0b6e15a4cafb454110e827441213ddc8770e93ea141#256,
    .SetVar 0x1cf9c20583196ee08d2719cbe1af7834d27fb933c5d76e9c707602a492c87b17#256
      0xacbc7dab669e854a7e2502e0d2e624fa5cbba8990f95b1ebf1b305eff700e9a1#256 ]

def collidingEffect' : CanonicalEffect := .new
  [ .SetVar 0x214ef0aa58baaefe20e66a0145e07c9c68ec90786e3265b528cc9de7b6a35634#256
      0x6134dda8ee869858f8e760b6e15a4c2f3454110e827441213ddc8770e93ea141#256,
    .SetVar 0x1c79428503196e600da799cbe12ff8b452ff39b34557ee1cf076022412c87b97#256
      0x2c3cfdab669e85cafea582e0d2e624fa5cbba8990f95b1ebf1b305eff700e9a1#256 ]

def collidingCalls : List Submission :=
  [ { juror := 101#160, effect := collidingEffect, block := 2#64, now := 24#64 },
    { juror := 102#160, effect := collidingEffect', block := 3#64, now := 36#64 } ]

-- On a case that waits, two jurors could submit different effects and the first of them be
-- committed with one vote.
theorem committed_by_one_juror : ∃ c, Convened convenedState 0 c ∧ Callers c collidingCalls ∧
    (∀ x ∈ collidingCalls, ∃ blob, decodeEffect blob = .ok x.effect) ∧
    ¬ SignedByQuorum convenedState 0 collidingCalls := by
  refine ⟨_, ⟨rfl, rfl, rfl, by decide⟩, ⟨by decide, by decide⟩, ?_, ?_⟩
  · intro x hx
    rcases List.mem_pair.mp hx with rfl | rfl
    · exact admitted_new (by decide) (fits_setVar (by decide))
    · exact admitted_new (by decide) (fits_setVar (by decide))
  · intro hsigned
    have hcommits : convenedState.Commits 0 collidingCalls collidingEffect :=
      commits_of_bind (by decide +kernel)
    have hquorum := (hsigned _ (List.Perm.refl _) _ hcommits).1
    have hvotes : collidingCalls.countP (fun x => x.effect.ops = collidingEffect.ops) = 1 := by
      decide +kernel
    rw [hvotes] at hquorum
    exact absurd hquorum (by decide)

end Ubi2.Exec
