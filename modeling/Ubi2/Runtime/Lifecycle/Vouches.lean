import Ubi2.Lib.Buckets
import Ubi2.Runtime.Lifecycle.Docket

namespace Ubi2.Runtime

open Lib

-- The two vouch indexes as the node keeps them: a list of addresses for each address.
structure VouchIndexes where
  vouchesOut : Buckets Address := fun _ => []
  vouchersOf : Buckets Address := fun _ => []

namespace VouchIndexes

def putVouch (i : VouchIndexes) (vouch : Vouch) : VouchIndexes where
  vouchesOut := i.vouchesOut.add vouch.voucher vouch.vouchee
  vouchersOf := i.vouchersOf.add vouch.vouchee vouch.voucher

def clearVouchEdges (i : VouchIndexes) (subject : Address) : VouchIndexes where
  vouchesOut := i.vouchesOut.clear subject
  vouchersOf := i.vouchersOf.clear subject

-- The indexes hold the two edge sets of the registry.
structure Refines (i : VouchIndexes) (r : HumanRegistry) : Prop where
  out : i.vouchesOut.Refines r.vouchesOutIdx
  reverse : i.vouchersOf.Refines r.vouchersOfIdx

theorem refines_new : Refines {} {} := ⟨Buckets.refines_empty, Buckets.refines_empty⟩

theorem Refines.putVouch {i : VouchIndexes} {r : HumanRegistry} (h : i.Refines r) (v : Vouch) :
    (i.putVouch v).Refines (r.putVouch v) :=
  ⟨h.out.add v.voucher v.vouchee, h.reverse.add v.vouchee v.voucher⟩

theorem Refines.clearVouchEdges {i : VouchIndexes} {r : HumanRegistry} (h : i.Refines r)
    (subject : Address) : (i.clearVouchEdges subject).Refines (r.clearVouchEdges subject) :=
  ⟨h.out.clear subject, h.reverse.clear subject⟩

-- What is read from the indexes is what the registry answers.
theorem Refines.reads {i : VouchIndexes} {r : HumanRegistry} (h : i.Refines r) (a : Address) :
    i.vouchesOut.sorted a = r.vouchesOut a ∧ i.vouchersOf.sorted a = r.vouchersOf a :=
  ⟨h.out.sorted_eq a, h.reverse.sorted_eq a⟩

end VouchIndexes

namespace HumanRegistry

theorem mem_vouchesOut {r : HumanRegistry} {v x : Address} :
    x ∈ r.vouchesOut v ↔ (v, x) ∈ r.vouchesOutIdx.rows := Buckets.mem_successors

theorem mem_vouchersOf {r : HumanRegistry} {v x : Address} :
    v ∈ r.vouchersOf x ↔ (x, v) ∈ r.vouchersOfIdx.rows := Buckets.mem_successors

theorem nodup_vouchesOut (r : HumanRegistry) (v : Address) : (r.vouchesOut v).Nodup :=
  Buckets.nodup_successors _ v

theorem nodup_vouchersOf (r : HumanRegistry) (x : Address) : (r.vouchersOf x).Nodup :=
  Buckets.nodup_successors _ x

end HumanRegistry

-- The two statuses that may vouch, or may have vouched before a challenge.
def Human.Vouches (h : Human) : Prop := h.status = .Verified ∨ h.status = .Challenged

-- The statuses of a human that may have been vouched for.
def Human.Stands (h : Human) : Prop := h.status ≠ .Unverified ∧ h.status ≠ .Revoked

theorem Human.Vouches.stands {h : Human} (hv : h.Vouches) : h.Stands := by
  rcases hv with hv | hv <;> simp [Human.Stands, hv]

-- A case that is not upheld leaves its subject's record, or restores it.
theorem Case.ruling_of_not_upholds {c : Case} (hno : ¬ c.upholds) (h : Human) :
    c.ruling h = h ∨ c.ruling h = h.restored := by
  unfold Case.ruling
  cases hstatus : c.status with
  | Open => exact Or.inl rfl
  | Escalated =>
    cases c.kind with
    | Registration => exact Or.inl rfl
    | Challenge => exact Or.inr rfl
  | Committed v =>
    dsimp only
    cases hverdict : v.verdict with
    | Sybil => exact absurd ⟨v, hstatus, hverdict⟩ hno
    | Uncertain => exact Or.inl rfl
    | Human =>
      dsimp only
      split_ifs
      · exact Or.inr rfl
      · exact Or.inl rfl

theorem Human.restored_same (h : Human) : h.restored.vouchesIn = h.vouchesIn ∧
    (h.Vouches → h.restored.Vouches) ∧ (h.Stands → h.restored.Stands) := by
  unfold Human.restored
  split_ifs
  · exact ⟨rfl, fun _ => Or.inl rfl, fun _ => by simp [Human.Stands]⟩
  · exact ⟨rfl, fun hv => hv, fun hv => hv⟩

theorem Human.challenged_same (h : Human) : (MemState.challenged h).vouchesIn = h.vouchesIn ∧
    (h.Vouches → (MemState.challenged h).Vouches) ∧
    (h.Stands → (MemState.challenged h).Stands) := by
  unfold MemState.challenged
  split_ifs
  · exact ⟨rfl, fun _ => Or.inr rfl, fun _ => by simp [Human.Stands]⟩
  · exact ⟨rfl, fun hv => hv, fun hv => hv⟩

theorem provedRecord_verified (subject : Address) (now : U64) (h : Option Human) :
    (MemState.provedRecord subject now h).status = .Verified := by
  unfold MemState.provedRecord
  split
  · split_ifs with hverified
    · exact hverified
    · rfl
  · rfl

theorem provedRecord_vouchesIn (subject : Address) (now : U64) (h : Human) :
    (MemState.provedRecord subject now (some h)).vouchesIn = h.vouchesIn := by
  unfold MemState.provedRecord
  dsimp only
  split_ifs <;> rfl

namespace MemState

variable {ok : HumanRegistry → Address → Prop} {s s' : MemState}

def Vouched (s : MemState) (v x : Address) : Prop := (v, x) ∈ s.humanity.vouchesOutIdx.rows

-- The reverse index mirrors the forward one, and the ends of an edge have standing.
structure Vouching (s : MemState) : Prop where
  mirror : ∀ v x, (x, v) ∈ s.humanity.vouchersOfIdx.rows ↔ s.Vouched v x
  apart : ∀ v x, s.Vouched v x → v ≠ x
  voucher : ∀ v x, s.Vouched v x → ∃ h, s.coreOf v = some h ∧ h.Vouches
  vouchee : ∀ v x, s.Vouched v x → ∃ h, s.coreOf x = some h ∧ h.Stands

-- How the vouchers that every record lists compare to those who vouch for it.
def Records (P : List Address → (Address → Prop) → Prop) (s : MemState) : Prop :=
  ∀ x h, s.coreOf x = some h → P h.vouchesIn (fun v => s.Vouched v x)

-- Every record lists each of its vouchers, once.
def Recorded (s : MemState) : Prop :=
  Records (fun l vouched => l.Nodup ∧ ∀ v, vouched v → v ∈ l) s

-- Every record lists its vouchers, once, and no other.
def Listed (s : MemState) : Prop :=
  Records (fun l vouched => l.Nodup ∧ ∀ v, v ∈ l ↔ vouched v) s

-- Both indexes are those of the other state.
def SameEdges (s s' : MemState) : Prop :=
  s'.humanity.vouchesOutIdx = s.humanity.vouchesOutIdx ∧
    s'.humanity.vouchersOfIdx = s.humanity.vouchersOfIdx

theorem SameEdges.vouched (h : SameEdges s s') (v x : Address) :
    s'.Vouched v x ↔ s.Vouched v x := by
  simp only [Vouched, h.1]

theorem SameBoards.edges (h : SameBoards s s') : SameEdges s s' := ⟨h.forward, h.reverse⟩

theorem vouched_clear {a v x : Address} :
    (s.clearVouchEdges a).Vouched v x ↔ s.Vouched v x ∧ v ≠ a ∧ x ≠ a := by
  change (v, x) ∈ (s.humanity.vouchesOutIdx.filter _).rows ↔ _
  rw [Table.mem_filter]
  simp [Vouched]

theorem vouched_putVouch {w : Vouch} {v x : Address} :
    (s.putVouch w).Vouched v x ↔ (v = w.voucher ∧ x = w.vouchee) ∨ s.Vouched v x := by
  change (v, x) ∈ (s.humanity.vouchesOutIdx.put _).rows ↔ _
  rw [Table.mem_put]
  by_cases heq : (v, x) = (w.voucher, w.vouchee)
  · obtain ⟨rfl, rfl⟩ := Prod.mk.inj heq
    simp
  · have hlex : toLex (v, x) ≠ toLex (w.voucher, w.vouchee) :=
      fun h => heq (toLex.injective h)
    have hne : ¬ (v = w.voucher ∧ x = w.vouchee) := fun h => heq (Prod.ext h.1 h.2)
    simp [heq, hlex, hne, Vouched]

namespace Vouching

variable (hs : s.Vouching)

include hs

-- The records change, and keep the standing that their edges need.
theorem of_records (hedges : SameEdges s s')
    (hcore : ∀ a h, s.coreOf a = some h → ∃ h', s'.coreOf a = some h' ∧
      (h.Vouches → h'.Vouches) ∧ (h.Stands → h'.Stands)) : s'.Vouching := by
  constructor
  · intro v x
    rw [hedges.vouched, hedges.2]
    exact hs.mirror v x
  · intro v x hv
    exact hs.apart v x ((hedges.vouched v x).mp hv)
  · intro v x hv
    obtain ⟨h, hget, hvouches⟩ := hs.voucher v x ((hedges.vouched v x).mp hv)
    obtain ⟨h', hget', hkeep, -⟩ := hcore v h hget
    exact ⟨h', hget', hkeep hvouches⟩
  · intro v x hv
    obtain ⟨h, hget, hstands⟩ := hs.vouchee v x ((hedges.vouched v x).mp hv)
    obtain ⟨h', hget', -, hkeep⟩ := hcore x h hget
    exact ⟨h', hget', hkeep hstands⟩

-- The edges of one address go, and no other record changes.
theorem of_clear {a : Address} (hedges : SameEdges (s.clearVouchEdges a) s')
    (hcore : ∀ b, b ≠ a → s'.coreOf b = s.coreOf b) : s'.Vouching := by
  have hiff : ∀ v x, s'.Vouched v x ↔ s.Vouched v x ∧ v ≠ a ∧ x ≠ a :=
    fun v x => (hedges.vouched v x).trans vouched_clear
  constructor
  · intro v x
    have hreverse : (x, v) ∈ s'.humanity.vouchersOfIdx.rows ↔
        (x, v) ∈ s.humanity.vouchersOfIdx.rows ∧ x ≠ a ∧ v ≠ a := by
      rw [hedges.2]
      change (x, v) ∈ (s.humanity.vouchersOfIdx.filter _).rows ↔ _
      rw [Table.mem_filter]
      simp
    rw [hreverse, hiff, hs.mirror]
    exact ⟨fun ⟨h, hx, hv⟩ => ⟨h, hv, hx⟩, fun ⟨h, hv, hx⟩ => ⟨h, hx, hv⟩⟩
  · intro v x hv
    exact hs.apart v x ((hiff v x).mp hv).1
  · intro v x hv
    obtain ⟨hold, hva, -⟩ := (hiff v x).mp hv
    rw [hcore v hva]
    exact hs.voucher v x hold
  · intro v x hv
    obtain ⟨hold, -, hxa⟩ := (hiff v x).mp hv
    rw [hcore x hxa]
    exact hs.vouchee v x hold

-- An address that may register has no edges.
theorem not_vouched_of_registrable {subject : Address} (hreg : s.Registrable subject)
    {v x : Address} (hv : s.Vouched v x) : v ≠ subject ∧ x ≠ subject := by
  have hno : ∀ h, s.coreOf subject = some h → ¬ h.Stands := by
    intro h hget hstands
    obtain ⟨h₀, hget₀, rfl⟩ := Option.map_eq_some_iff.mp hget
    rcases hreg h₀ hget₀ with hst | hst
    · exact hstands.1 hst
    · exact hstands.2 hst
  constructor
  · rintro rfl
    obtain ⟨h, hget, hvouches⟩ := hs.voucher v x hv
    exact hno h hget hvouches.stands
  · rintro rfl
    obtain ⟨h, hget, hstands⟩ := hs.vouchee v x hv
    exact hno h hget hstands

theorem vouched_clear_of_registrable {subject : Address} (hreg : s.Registrable subject)
    (v x : Address) : (s.clearVouchEdges subject).Vouched v x ↔ s.Vouched v x := by
  rw [vouched_clear]
  exact ⟨fun h => h.1, fun h => ⟨h, hs.not_vouched_of_registrable hreg h⟩⟩

theorem vouch {v : Vouch} {h : Human} (hself : v.voucher ≠ v.vouchee)
    (hverified : s.isVerified v.voucher) (hget : s.getHuman v.vouchee = some h)
    (hpending : h.status = .Pending) :
    ((s.putVouch v).putHuman (addVoucher h v.voucher)).Vouching := by
  have hcore := coreOf_vouch s hget
  have hstatus := (addVoucher_same (h := h) v.voucher).2.trans hpending
  have hiff : ∀ w x, ((s.putVouch v).putHuman (addVoucher h v.voucher)).Vouched w x ↔
      (w = v.voucher ∧ x = v.vouchee) ∨ s.Vouched w x := fun w x => vouched_putVouch
  have hstands : ∀ a h₀, s.coreOf a = some h₀ → h₀.Stands →
      ∃ h', ((s.putVouch v).putHuman (addVoucher h v.voucher)).coreOf a = some h' ∧
        h'.Stands := by
    intro a h₀ hget₀ hstands
    rw [hcore]
    split_ifs
    · refine ⟨_, rfl, ?_⟩
      simp [Human.Stands, hstatus]
    · exact ⟨h₀, hget₀, hstands⟩
  have hvouches : ∀ a h₀, s.coreOf a = some h₀ → h₀.Vouches →
      ∃ h', ((s.putVouch v).putHuman (addVoucher h v.voucher)).coreOf a = some h' ∧
        h'.Vouches := by
    intro a h₀ hget₀ hv
    rw [hcore]
    split_ifs with ha
    · -- a pending human vouches for no one
      rw [ha, coreOf_of_get s hget] at hget₀
      cases hget₀
      rcases hv with hv | hv <;> rw [Human.core_status, hpending] at hv <;> cases hv
    · exact ⟨h₀, hget₀, hv⟩
  constructor
  · intro w x
    rw [hiff]
    change (x, w) ∈ (s.humanity.vouchersOfIdx.put _).rows ↔ _
    rw [Table.mem_put, hs.mirror]
    by_cases heq : (x, w) = (v.vouchee, v.voucher)
    · obtain ⟨rfl, rfl⟩ := Prod.mk.inj heq
      simp
    · have hlex : toLex (x, w) ≠ toLex (v.vouchee, v.voucher) :=
        fun h => heq (toLex.injective h)
      have hne : ¬ (w = v.voucher ∧ x = v.vouchee) := fun h => heq (Prod.ext h.2 h.1)
      simp [heq, hlex, hne]
  · intro w x hw
    rcases (hiff w x).mp hw with ⟨rfl, rfl⟩ | hold
    · exact hself
    · exact hs.apart w x hold
  · intro w x hw
    rcases (hiff w x).mp hw with ⟨rfl, rfl⟩ | hold
    · obtain ⟨h₁, hget₁, hst⟩ := (Option.any_eq_true _ _).mp hverified
      exact hvouches _ h₁.core (coreOf_of_get s hget₁) (Or.inl (by simpa using hst))
    · obtain ⟨h₁, hget₁, hv⟩ := hs.voucher w x hold
      exact hvouches w h₁ hget₁ hv
  · intro w x hw
    rcases (hiff w x).mp hw with ⟨rfl, rfl⟩ | hold
    · refine hstands _ h.core (coreOf_of_get s hget) ?_
      simp [Human.Stands, hpending]
    · obtain ⟨h₁, hget₁, hst⟩ := hs.vouchee w x hold
      exact hstands x h₁ hget₁ hst

-- The record of one address is written, and keeps its standing.
theorem of_write {a : Address} {x : Human} (hedges : SameEdges s s')
    (hcore : ∀ b, s'.coreOf b = if b = a then some x else s.coreOf b)
    (hkeep : ∀ h, s.coreOf a = some h → (h.Vouches → x.Vouches) ∧ (h.Stands → x.Stands)) :
    s'.Vouching := by
  refine hs.of_records hedges (fun b h hget => ?_)
  rw [hcore]
  split_ifs with hb
  · rw [hb] at hget
    exact ⟨x, rfl, hkeep h hget⟩
  · exact ⟨h, hget, fun hv => hv, fun hv => hv⟩

end Vouching

-- The step lemma of the vouch indexes.
theorem vouching_change (h : Change ok s s') (hs : s.Vouching) : s'.Vouching := by
  cases h with
  | frame humanity gates =>
    refine hs.of_records ⟨by rw [humanity], by rw [humanity]⟩ (fun a h hget => ?_)
    refine ⟨h, ?_, fun hv => hv, fun hv => hv⟩
    simp only [coreOf, getHuman, humanity] at hget ⊢
    exact hget
  | clear subject hreg => exact hs.of_clear (a := subject) ⟨rfl, rfl⟩ (fun _ _ => rfl)
  | request subject livenessRef c block hreg hc hdecided =>
    refine hs.of_clear (a := subject) ⟨rfl, rfl⟩ (fun b hb => ?_)
    rw [coreOf_request, if_neg hb]
  | vouch v h hself hverified hget hpending hnew => exact hs.vouch hself hverified hget hpending
  | challenge challenger subject h c block hget hknown hstanding hnone hc hopen hawaits =>
    refine hs.of_write ⟨rfl, rfl⟩ (coreOf_challenge s hget) (fun h₀ hget₀ => ?_)
    rw [coreOf_of_get s hget] at hget₀
    cases hget₀
    exact h.challenged_same.2
  | verdict caseId juror v c c' hvotes hok =>
    have hcore : ∀ a, ((s.putCase c').actOnStatus c').coreOf a =
        if a = c'.subject then (s.coreOf a).map c'.ruling else s.coreOf a := by
      intro a
      rw [coreOf_actOnStatus, coreOf_putCase]
    have hedges := edges_actOnStatus (s.putCase c') c'
    by_cases hup : c'.upholds
    · rw [if_pos hup] at hedges
      refine hs.of_clear (a := c'.subject) hedges (fun b hb => ?_)
      rw [hcore, if_neg hb]
    · rw [if_neg hup] at hedges
      refine hs.of_records hedges (fun a h hget => ?_)
      rw [hcore]
      split_ifs
      · rw [hget, Option.map_some]
        refine ⟨_, rfl, ?_⟩
        rcases Case.ruling_of_not_upholds hup h with heq | heq <;> rw [heq]
        · exact ⟨fun hv => hv, fun hv => hv⟩
        · exact h.restored_same.2
      · exact ⟨h, hget, fun hv => hv, fun hv => hv⟩
  | finalize subject h block now hf =>
    refine hs.of_write ⟨rfl, rfl⟩ (coreOf_finalize s hf.get now) (fun h₀ hget₀ => ?_)
    exact ⟨fun _ => Or.inl rfl, fun _ => by simp [Human.Stands]⟩
  | prove subject pi now hsubject =>
    obtain ⟨hcore, -, hboards⟩ := acceptZkProof_spec s subject pi now
    refine hs.of_records hboards.edges (fun a h hget => ?_)
    rw [hcore]
    split_ifs
    · have hverified := provedRecord_verified subject now (s.getHuman a)
      exact ⟨_, rfl, fun _ => Or.inl hverified, fun _ => by simp [Human.Stands, hverified]⟩
    · exact ⟨h, hget, fun hv => hv, fun hv => hv⟩

theorem vouching_changes (h : Changes ok s s') (hs : s.Vouching) : s'.Vouching :=
  Run.invariant (fun _ _ => vouching_change) h hs

-- No one whose vouches stand may be revoked.
def SparesVouchers (r : HumanRegistry) (a : Address) : Prop := r.vouchesOut a = []

theorem not_vouched_of_spares {a x : Address} (h : SparesVouchers s.humanity a) :
    ¬ s.Vouched a x := by
  intro hv
  have hmem := HumanRegistry.mem_vouchesOut.mpr hv
  rw [h] at hmem
  cases hmem

section Records

variable {P : List Address → (Address → Prop) → Prop}

theorem Records.congr {x : Address} {l : List Address} (h : P l (fun v => s.Vouched v x))
    (hiff : ∀ v, s'.Vouched v x ↔ s.Vouched v x) : P l (fun v => s'.Vouched v x) := by
  rwa [show (fun v => s'.Vouched v x) = fun v => s.Vouched v x from
    funext fun v => propext (hiff v)]

theorem Records.of_write {a : Address} {x : Human} (hl : Records P s) (hedges : SameEdges s s')
    (hcore : ∀ b, s'.coreOf b = if b = a then some x else s.coreOf b)
    (hkeep : P x.vouchesIn (fun v => s.Vouched v a)) : Records P s' := by
  intro b h hget
  rw [hcore] at hget
  refine Records.congr (s := s) ?_ (fun v => hedges.vouched v b)
  split_ifs at hget with hb
  · cases hget
    rw [hb]
    exact hkeep
  · exact hl b h hget

-- The step lemma of the records, for a comparison that holds of a new record, that a new
-- vouch keeps, and that the revocation of an admitted voucher keeps for third parties.
theorem records_change (hnil : P [] (fun _ => False))
    (hadd : ∀ l vouched v, P l vouched → ¬ vouched v →
      P (if v ∈ l then l else (l ++ [v]).insertionSort (· ≤ ·)) (fun w => w = v ∨ vouched w))
    (hclear : ∀ a x l, ok s.humanity a → P l (fun v => s.Vouched v x) →
      P l (fun v => s.Vouched v x ∧ v ≠ a))
    (h : Change ok s s') (hs : s.Vouching) (hl : Records P s) : Records P s' := by
  have hempty : ∀ {x : Address} {s : MemState}, (∀ v, ¬ s.Vouched v x) →
      P [] (fun v => s.Vouched v x) := by
    intro x s hno
    rwa [show (fun v => s.Vouched v x) = fun _ => False from
      funext fun v => propext (iff_false_intro (hno v))]
  cases h with
  | frame humanity gates =>
    intro x h hget
    simp only [coreOf, getHuman, humanity, Vouched] at hget ⊢
    exact hl x h hget
  | clear subject hreg =>
    intro x h hget
    exact Records.congr (s := s) (hl x h hget)
      (fun v => hs.vouched_clear_of_registrable hreg v x)
  | request subject livenessRef c block hreg hc hdecided =>
    intro x h hget
    refine Records.congr (s := s) ?_ (fun v => hs.vouched_clear_of_registrable hreg v x)
    rw [coreOf_request] at hget
    split_ifs at hget with hx
    · cases hget
      exact hempty (fun v hv => (hs.not_vouched_of_registrable hreg hv).2 hx)
    · exact hl x h hget
  | vouch v h hself hverified hget hpending hnew =>
    intro x h' hget'
    rw [coreOf_vouch s hget] at hget'
    split_ifs at hget' with hx
    · cases hget'
      have hnot : ¬ s.Vouched v.voucher v.vouchee :=
        fun hv => hnew (HumanRegistry.mem_vouchesOut.mpr hv)
      have hbefore := hadd _ _ v.voucher (hl v.vouchee h.core (coreOf_of_get s hget)) hnot
      have hlist : (addVoucher h v.voucher).core.vouchesIn =
          if v.voucher ∈ h.vouchesIn then h.vouchesIn
          else (h.vouchesIn ++ [v.voucher]).insertionSort (· ≤ ·) := by
        rw [Human.core_vouchesIn, addVoucher]
        split_ifs <;> rfl
      rw [hlist, hx]
      rwa [show (fun w => ((s.putVouch v).putHuman (addVoucher h v.voucher)).Vouched w
          v.vouchee) = fun w => w = v.voucher ∨ s.Vouched w v.vouchee from
        funext fun w => propext (vouched_putVouch.trans (by simp))]
    · refine Records.congr (s := s) (hl x h' hget') (fun w => vouched_putVouch.trans ?_)
      simp [hx]
  | challenge challenger subject h c block hget hknown hstanding hnone hc hopen hawaits =>
    refine hl.of_write ⟨rfl, rfl⟩ (coreOf_challenge s hget) ?_
    rw [Human.core_vouchesIn, h.challenged_same.1]
    exact hl subject h.core (coreOf_of_get s hget)
  | verdict caseId juror v c c' hvotes hok =>
    have hcore : ∀ a, ((s.putCase c').actOnStatus c').coreOf a =
        if a = c'.subject then (s.coreOf a).map c'.ruling else s.coreOf a := by
      intro a
      rw [coreOf_actOnStatus, coreOf_putCase]
    have hedges := edges_actOnStatus (s.putCase c') c'
    intro x h hget
    rw [hcore] at hget
    by_cases hup : c'.upholds
    · rw [if_pos hup] at hedges
      have hiff : ∀ w, ((s.putCase c').actOnStatus c').Vouched w x ↔
          s.Vouched w x ∧ w ≠ c'.subject ∧ x ≠ c'.subject := by
        intro w
        have hclear' := SameEdges.vouched (s := s.clearVouchEdges c'.subject) hedges w x
        rw [hclear', vouched_clear]
      split_ifs at hget with hx
      · obtain ⟨h₀, -, rfl⟩ := Option.map_eq_some_iff.mp hget
        have hrevoked : (c'.ruling h₀).vouchesIn = [] := by
          obtain ⟨w, hw, hsybil⟩ := hup
          simp [Case.ruling, hw, hsybil, Human.revoked]
        rw [hrevoked]
        exact hempty (fun w hw => ((hiff w).mp hw).2.2 hx)
      · have hspared := hclear c'.subject x h.vouchesIn (hok hup) (hl x h hget)
        rwa [show (fun w => ((s.putCase c').actOnStatus c').Vouched w x) =
            fun w => s.Vouched w x ∧ w ≠ c'.subject from
          funext fun w => propext ((hiff w).trans (by simp [hx]))]
    · rw [if_neg hup] at hedges
      refine Records.congr (s := s) ?_ (fun w => SameEdges.vouched (s := s) hedges w x)
      split_ifs at hget with hx
      · obtain ⟨h₀, hget₀, rfl⟩ := Option.map_eq_some_iff.mp hget
        have hsame : (c'.ruling h₀).vouchesIn = h₀.vouchesIn := by
          rcases Case.ruling_of_not_upholds hup h₀ with heq | heq <;> rw [heq]
          exact h₀.restored_same.1
        rw [hsame]
        exact hl x h₀ hget₀
      · exact hl x h hget
  | finalize subject h block now hf =>
    refine hl.of_write ⟨rfl, rfl⟩ (coreOf_finalize s hf.get now) ?_
    exact hl subject h.core (coreOf_of_get s hf.get)
  | prove subject pi now hsubject =>
    obtain ⟨hcore, -, hboards⟩ := acceptZkProof_spec s subject pi now
    intro x h hget
    refine Records.congr (s := s) ?_ (fun v => hboards.edges.vouched v x)
    rw [hcore] at hget
    split_ifs at hget with hx
    · cases hget
      rw [Human.core_vouchesIn]
      cases hx₀ : s.getHuman x with
      | none =>
        refine hempty (fun v hv => ?_)
        obtain ⟨h₀, hget₀, -⟩ := hs.vouchee v x hv
        rw [coreOf, hx₀] at hget₀
        cases hget₀
      | some h₀ =>
        rw [provedRecord_vouchesIn]
        exact hl x h₀.core (coreOf_of_get s hx₀)
    · exact hl x h hget

end Records

private theorem perm_addVoucher (l : List Address) (v : Address) :
    ((l ++ [v]).insertionSort (· ≤ ·)).Perm (v :: l) :=
  (List.perm_insertionSort _ _).trans (List.perm_append_singleton _ _)

-- A record never forgets a voucher whose vouch stands.
theorem recorded_change (h : Change ok s s') (hs : s.Vouching) (hl : s.Recorded) :
    s'.Recorded := by
  refine records_change ⟨List.nodup_nil, fun _ hf => hf.elim⟩ ?_ ?_ h hs hl
  · rintro l vouched v ⟨hnodup, hmem⟩ -
    split_ifs with hv
    · refine ⟨hnodup, fun w hw => ?_⟩
      rcases hw with rfl | hw
      · exact hv
      · exact hmem w hw
    · have hperm := perm_addVoucher l v
      refine ⟨hperm.nodup_iff.mpr (List.nodup_cons.mpr ⟨hv, hnodup⟩), fun w hw => ?_⟩
      rw [hperm.mem_iff, List.mem_cons]
      exact hw.imp_right (hmem w)
  · rintro a x l - ⟨hnodup, hmem⟩
    exact ⟨hnodup, fun w hw => hmem w hw.1⟩

-- The records keep listing their vouchers alone when no voucher is revoked.
theorem listed_change (h : Change SparesVouchers s s') (hs : s.Vouching) (hl : s.Listed) :
    s'.Listed := by
  refine records_change ⟨List.nodup_nil, fun _ => by simp⟩ ?_ ?_ h hs hl
  · rintro l vouched v ⟨hnodup, hmem⟩ hv
    have hfresh : v ∉ l := fun hin => hv ((hmem v).mp hin)
    have hperm := perm_addVoucher l v
    rw [if_neg hfresh]
    refine ⟨hperm.nodup_iff.mpr (List.nodup_cons.mpr ⟨hfresh, hnodup⟩), fun w => ?_⟩
    rw [hperm.mem_iff, List.mem_cons, hmem]
  · rintro a x l hspared ⟨hnodup, hmem⟩
    refine ⟨hnodup, fun w => ?_⟩
    rw [hmem]
    exact ⟨fun hw => ⟨hw, fun heq => not_vouched_of_spares hspared (heq ▸ hw)⟩, fun hw => hw.1⟩

-- No one who vouches for an applicant may be revoked.
def SparesApplicants (r : HumanRegistry) (a : Address) : Prop :=
  ∀ x ∈ r.vouchesOut a, (r.getHuman x).map Human.status ≠ some .Pending

-- Every voucher that the record of an applicant lists vouches for it still.
def ApplicantsBacked (s : MemState) : Prop :=
  ∀ x h, s.coreOf x = some h → h.status = .Pending → ∀ v ∈ h.vouchesIn, s.Vouched v x

-- The edges stay, and the records of applicants were those of applicants with the same list.
theorem ApplicantsBacked.of_records (hb : s.ApplicantsBacked) (hedges : SameEdges s s')
    (hcore : ∀ a h', s'.coreOf a = some h' → h'.status = .Pending →
      ∃ h, s.coreOf a = some h ∧ h.status = .Pending ∧ h.vouchesIn = h'.vouchesIn) :
    s'.ApplicantsBacked := by
  intro x h' hget' hpending' v hv
  obtain ⟨h, hget, hpending, hlist⟩ := hcore x h' hget' hpending'
  rw [← hlist] at hv
  exact (hedges.vouched v x).mpr (hb x h hget hpending v hv)

theorem ApplicantsBacked.of_write (hb : s.ApplicantsBacked) {a : Address} {x : Human}
    (hedges : SameEdges s s')
    (hcore : ∀ b, s'.coreOf b = if b = a then some x else s.coreOf b)
    (hkeep : x.status = .Pending →
      ∃ h, s.coreOf a = some h ∧ h.status = .Pending ∧ h.vouchesIn = x.vouchesIn) :
    s'.ApplicantsBacked := by
  refine hb.of_records hedges (fun b h' hget' hpending' => ?_)
  rw [hcore] at hget'
  split_ifs at hget' with hba
  · cases hget'
    rw [hba]
    exact hkeep hpending'
  · exact ⟨h', hget', hpending', rfl⟩

-- A ruling that leaves its subject pending leaves its record.
private theorem ruling_pending {c : Case} {h : Human} (hp : (c.ruling h).status = .Pending) :
    h.status = .Pending ∧ (c.ruling h).vouchesIn = h.vouchesIn := by
  by_cases hup : c.upholds
  · obtain ⟨w, hw, hsybil⟩ := hup
    simp [Case.ruling, hw, hsybil, Human.revoked] at hp
  rcases Case.ruling_of_not_upholds hup h with heq | heq
  · rw [heq] at hp ⊢
    exact ⟨hp, rfl⟩
  · rw [heq] at hp ⊢
    refine ⟨?_, h.restored_same.1⟩
    unfold Human.restored at hp
    split_ifs at hp
    exact hp

-- The lists of the applicants stay true while no voucher of theirs is revoked.
theorem backed_change (h : Change SparesApplicants s s') (hs : s.Vouching)
    (hb : s.ApplicantsBacked) : s'.ApplicantsBacked := by
  cases h with
  | frame humanity gates =>
    refine hb.of_records ⟨by rw [humanity], by rw [humanity]⟩ (fun a h hget hpending => ?_)
    refine ⟨h, ?_, hpending, rfl⟩
    simp only [coreOf, getHuman, humanity] at hget ⊢
    exact hget
  | clear subject hreg =>
    intro x h hget hpending v hv
    exact (hs.vouched_clear_of_registrable hreg v x).mpr (hb x h hget hpending v hv)
  | request subject livenessRef c block hreg hc hdecided =>
    intro x h hget hpending v hv
    rw [coreOf_request] at hget
    split_ifs at hget
    · cases hget
      cases hv
    · exact (hs.vouched_clear_of_registrable hreg v x).mpr (hb x h hget hpending v hv)
  | vouch w h hself hverified hget hpending hnew =>
    intro x h' hget' hpending' v hv
    refine vouched_putVouch.mpr ?_
    rw [coreOf_vouch s hget] at hget'
    split_ifs at hget' with hx
    · cases hget'
      have hlist : v = w.voucher ∨ v ∈ h.vouchesIn := by
        rw [Human.core_vouchesIn, addVoucher] at hv
        split_ifs at hv
        · exact Or.inr hv
        · have hin := (List.mem_insertionSort _).mp hv
          rw [List.mem_append, List.mem_singleton] at hin
          exact hin.symm
      rcases hlist with rfl | hin
      · exact Or.inl ⟨rfl, hx⟩
      · rw [hx]
        exact Or.inr (hb w.vouchee h.core (coreOf_of_get s hget) hpending v hin)
    · exact Or.inr (hb x h' hget' hpending' v hv)
  | challenge challenger subject h c block hget hknown hstanding hnone hc hopen hawaits =>
    refine hb.of_write ⟨rfl, rfl⟩ (coreOf_challenge s hget) (fun hpending => ?_)
    rw [Human.core_status] at hpending
    refine ⟨h.core, coreOf_of_get s hget, ?_, h.challenged_same.1.symm⟩
    unfold challenged at hpending
    split_ifs at hpending
    exact hpending
  | verdict caseId juror v c c' hvotes hok =>
    have hcore : ∀ a, ((s.putCase c').actOnStatus c').coreOf a =
        if a = c'.subject then (s.coreOf a).map c'.ruling else s.coreOf a := by
      intro a
      rw [coreOf_actOnStatus, coreOf_putCase]
    have hsame : ∀ a h', ((s.putCase c').actOnStatus c').coreOf a = some h' →
        h'.status = .Pending →
        ∃ h, s.coreOf a = some h ∧ h.status = .Pending ∧ h.vouchesIn = h'.vouchesIn := by
      intro a h' hget' hpending'
      rw [hcore] at hget'
      split_ifs at hget'
      · obtain ⟨h₀, hget₀, rfl⟩ := Option.map_eq_some_iff.mp hget'
        obtain ⟨hpending, hlist⟩ := ruling_pending hpending'
        exact ⟨h₀, hget₀, hpending, hlist.symm⟩
      · exact ⟨h', hget', hpending', rfl⟩
    have hedges := edges_actOnStatus (s.putCase c') c'
    by_cases hup : c'.upholds
    · rw [if_pos hup] at hedges
      intro x h' hget' hpending' v hv
      obtain ⟨h, hget, hpending, hlist⟩ := hsame x h' hget' hpending'
      rw [← hlist] at hv
      have hvouched := hb x h hget hpending v hv
      have hstatus : (s.humanity.getHuman x).map Human.status = some .Pending := by
        obtain ⟨h₀, hget₀, rfl⟩ := Option.map_eq_some_iff.mp hget
        exact Option.map_eq_some_iff.mpr ⟨h₀, hget₀, hpending⟩
      have hclear := SameEdges.vouched (s := s.clearVouchEdges c'.subject) hedges v x
      rw [hclear, vouched_clear]
      refine ⟨hvouched, ?_, ?_⟩
      · -- the revoked human vouches for no applicant
        rintro rfl
        exact hok hup x (HumanRegistry.mem_vouchesOut.mpr hvouched) hstatus
      · rintro rfl
        rw [hcore, if_pos rfl, hget, Option.map_some] at hget'
        obtain ⟨w, hw, hsybil⟩ := hup
        rw [← Option.some.inj hget'] at hpending'
        simp [Case.ruling, hw, hsybil, Human.revoked] at hpending'
    · rw [if_neg hup] at hedges
      exact hb.of_records (s := s) hedges hsame
  | finalize subject h block now hf =>
    refine hb.of_write ⟨rfl, rfl⟩ (coreOf_finalize s hf.get now) (fun hpending => ?_)
    cases hpending
  | prove subject pi now hsubject =>
    obtain ⟨hcore, -, hboards⟩ := acceptZkProof_spec s subject pi now
    refine hb.of_records hboards.edges (fun a h hget hpending => ?_)
    rw [hcore] at hget
    split_ifs at hget
    · cases hget
      have hverified := provedRecord_verified subject now (s.getHuman a)
      rw [Human.core_status, hverified] at hpending
      cases hpending
    · exact ⟨h, hget, hpending, rfl⟩

end MemState

end Ubi2.Runtime
