import Ubi2.Runtime.Contracts.Submissions

namespace Ubi2.Runtime

open Lib

-- An outcome as far as a quorum is concerned: the key and not the item.
def QuorumOutcome.keyed {α κ : Type} (key : α → κ) : QuorumOutcome α → QuorumOutcome κ
  | .Pending => .Pending
  | .Committed item => .Committed (key item)
  | .NoQuorum => .NoQuorum

-- Votes of distinct jurors, no more than the jury has.
structure Cast {α : Type} (jurySize : Nat) (items : List (Address × α)) : Prop where
  nodup : (items.map Prod.fst).Nodup
  fits : items.length ≤ jurySize

-- A jury's outcome, once there is one, stands whatever the jurors still to vote say and in
-- whatever order the votes come. The key it commits has its quorum, and when all have voted
-- there is one.
structure Settles {α κ : Type} (key : α → κ)
    (outcome : List (Address × α) → QuorumOutcome κ) (jurySize quorum : Nat)
    (items : List (Address × α)) : Prop where
  final : outcome items ≠ .Pending → ∀ more items', Cast jurySize items' →
    items'.Perm (items ++ more) → outcome items' = outcome items
  backed : ∀ k, outcome items = .Committed k → ∃ jurors : List Address, jurors.Nodup ∧
    quorum ≤ jurors.length ∧ ∀ juror ∈ jurors, ∃ item, (juror, item) ∈ items ∧ key item = k
  full : items.length = jurySize → outcome items ≠ .Pending

section Tally

variable {α κ : Type} [DecidableEq κ] {key : α → κ} {ok : α → Bool}
variable {items items' more : List (Address × α)} {jurySize quorum : Nat}

-- A majority can have its quorum for one key only.
theorem only_key {k k' : κ} (hmajority : jurySize < 2 * quorum) (hfits : items.length ≤ jurySize)
    (hk : quorum ≤ support key items k) (hk' : quorum ≤ support key items k') : k' = k := by
  by_contra hne
  have hdisjoint : support key items k' + support key items k ≤ items.length :=
    support_disjoint hne items
  omega

theorem support_perm (h : items'.Perm (items ++ more)) (k : κ) :
    support key items' k = support key items k + support key more k := by
  rw [support, h.countP_eq, List.countP_append]
  rfl

-- A key that has the quorum has it in every extension, and decides it in the same way.
theorem keyed_of_reached (hok : ∀ a b, key a = key b → ok a = ok b) {item : α}
    (hmajority : jurySize < 2 * quorum) (hfits : items'.length ≤ jurySize)
    (hperm : items'.Perm (items ++ more)) (hk : quorum ≤ support key items (key item)) :
    (quorumTally key ok items' jurySize quorum).keyed key =
      if ok item then .Committed (key item) else .NoQuorum := by
  have hk' : quorum ≤ support key items' (key item) := by
    rw [support_perm hperm]
    omega
  obtain ⟨item', hkey, htally⟩ := @quorumTally_reached α κ _ key ok items' jurySize quorum
    (key item) (by omega) hk' fun k hreached => only_key hmajority hfits hk' hreached
  rw [htally, hok item' item hkey]
  cases ok item with
  | true => exact congrArg QuorumOutcome.Committed hkey
  | false => rfl

-- A quorum that is out of reach stays there.
theorem outOfReach_perm (h : OutOfReach key items jurySize quorum)
    (hfits : items'.length ≤ jurySize) (hperm : items'.Perm (items ++ more)) :
    OutOfReach key items' jurySize quorum := by
  have hlength : items'.length = items.length + more.length := by
    rw [hperm.length_eq, List.length_append]
  refine ⟨(Nat.sub_le_sub_left (by omega) jurySize).trans_lt h.1, fun k => ?_⟩
  have hk := h.2 k
  have hmore : support key more k ≤ more.length := List.countP_le_length
  rw [support_perm hperm]
  omega

theorem settles_quorumTally (hok : ∀ a b, key a = key b → ok a = ok b)
    (hmajority : jurySize < 2 * quorum) (hcast : Cast jurySize items) :
    Settles key (fun items => (quorumTally key ok items jurySize quorum).keyed key) jurySize
      quorum items := by
  have hself : items.Perm (items ++ []) := by rw [List.append_nil]
  refine ⟨?_, ?_, ?_⟩
  · intro hdecided more items' hcast' hperm
    have hreached : ∀ item, quorum ≤ support key items (key item) →
        (quorumTally key ok items' jurySize quorum).keyed key =
          (quorumTally key ok items jurySize quorum).keyed key := by
      intro item hk
      rw [keyed_of_reached hok hmajority hcast'.fits hperm hk,
        keyed_of_reached hok hmajority hcast.fits hself hk]
    cases htally : quorumTally key ok items jurySize quorum with
    | Pending => exact absurd (by rw [htally]; rfl) hdecided
    | Committed item =>
      rw [← htally]
      exact hreached item (quorumTally_committed htally).2.1
    | NoQuorum =>
      rcases quorumTally_noQuorum htally with ⟨item, hk, -⟩ | hout
      · rw [← htally]
        exact hreached item hk
      · rw [quorumTally_outOfReach (outOfReach_perm hout hcast'.fits hperm)]
  · intro k hk
    cases htally : quorumTally key ok items jurySize quorum with
    | Pending => rw [htally] at hk; cases hk
    | NoQuorum => rw [htally] at hk; cases hk
    | Committed item =>
      rw [htally] at hk
      cases hk
      refine ⟨(items.filter fun e => key e.2 = key item).map Prod.fst,
        hcast.nodup.sublist (List.filter_sublist.map _), ?_, ?_⟩
      · rw [List.length_map, ← List.countP_eq_length_filter]
        exact (quorumTally_committed htally).2.1
      · intro juror hjuror
        obtain ⟨⟨juror', item'⟩, hmem, rfl⟩ := List.mem_map.mp hjuror
        obtain ⟨hmem, hkey⟩ := List.mem_filter.mp hmem
        exact ⟨item', hmem, of_decide_eq_true hkey⟩
  · intro hfull hpending
    have hquorum : 0 < quorum := by omega
    have hdecided : quorumTally key ok items jurySize quorum ≠ .Pending :=
      quorumTally_ne_pending hquorum hfull.ge
    cases htally : quorumTally key ok items jurySize quorum with
    | Pending => exact hdecided htally
    | Committed item => rw [htally] at hpending; cases hpending
    | NoQuorum => rw [htally] at hpending; cases hpending

end Tally

-- The outcome of a humanity case and that of an exec case, by what each groups votes by.
def verdictOutcome (jurySize quorum : Nat) (votes : List (Address × CanonicalVerdict)) :
    QuorumOutcome (Verdict × Confidence) :=
  (quorumTally CanonicalVerdict.quorumKey CanonicalVerdict.isCommittable votes jurySize
    quorum).keyed CanonicalVerdict.quorumKey

def EffectTally.digest : EffectTally → QuorumOutcome Hash
  | .Pending => .Pending
  | .Committed effect => .Committed effect.effectHash
  | .NoQuorum => .NoQuorum

-- A tally of effects that panics has no outcome; it is counted as pending here.
def effectOutcome (jurySize quorum : Nat) (effects : List (Address × CanonicalEffect)) :
    QuorumOutcome Hash :=
  ((tallyEffects effects jurySize quorum).map EffectTally.digest).getD .Pending

theorem committable_of_key (v w : CanonicalVerdict) (h : v.quorumKey = w.quorumKey) :
    v.isCommittable = w.isCommittable := by
  have hverdict : v.verdict = w.verdict := congrArg Prod.fst h
  rw [CanonicalVerdict.isCommittable, CanonicalVerdict.isCommittable, hverdict]

-- What a juror's effect is tallied by.
def token (e : Address × CanonicalEffect) : Address × Hash := (e.1, e.2.effectHash)

theorem Cast.tokens {jurySize : Nat} {effects : List (Address × CanonicalEffect)}
    (h : Cast jurySize effects) : Cast jurySize (effects.map token) := by
  have hjurors : (effects.map token).map Prod.fst = effects.map Prod.fst := by
    rw [List.map_map]
    rfl
  exact ⟨by rw [hjurors]; exact h.nodup, by rw [List.length_map]; exact h.fits⟩

theorem effectOutcome_eq {jurySize quorum : Nat} (hquorum : 0 < quorum)
    (effects : List (Address × CanonicalEffect)) :
    effectOutcome jurySize quorum effects =
      (quorumTally id (fun _ => true) (effects.map token) jurySize quorum).keyed id := by
  have hsome : tallyEffects effects jurySize quorum ≠ none := tallyEffects_ne_none hquorum
  obtain ⟨outcome, houtcome⟩ := Option.ne_none_iff_exists'.mp hsome
  rw [effectOutcome, houtcome]
  unfold tallyEffects at houtcome
  dsimp only at houtcome
  split at houtcome
  · rename_i htally
    cases houtcome
    exact (congrArg (QuorumOutcome.keyed id) htally).symm
  · rename_i htally
    cases houtcome
    exact (congrArg (QuorumOutcome.keyed id) htally).symm
  · rename_i tok htally
    split at houtcome
    · cases houtcome
    · rename_i e he
      cases houtcome
      have hhash : e.2.effectHash = tok := by simpa using List.find?_some he
      exact (congrArg QuorumOutcome.Committed hhash).trans
        (congrArg (QuorumOutcome.keyed id) htally).symm

-- The effects settle as their tokens do.
theorem settles_effectOutcome {jurySize quorum : Nat} (hmajority : jurySize < 2 * quorum)
    {effects : List (Address × CanonicalEffect)} (hcast : Cast jurySize effects) :
    Settles CanonicalEffect.effectHash (effectOutcome jurySize quorum) jurySize quorum
      effects := by
  have hquorum : 0 < quorum := by omega
  have htokens : Settles id (fun items =>
      (quorumTally id (fun _ => true) items jurySize quorum).keyed id) jurySize quorum
      (effects.map token) :=
    settles_quorumTally (fun _ _ _ => rfl) hmajority hcast.tokens
  refine ⟨?_, ?_, ?_⟩
  · intro hdecided more effects' hcast' hperm
    rw [effectOutcome_eq hquorum] at hdecided ⊢
    rw [effectOutcome_eq hquorum]
    refine htokens.final hdecided (more.map token) _ hcast'.tokens ?_
    rw [← List.map_append]
    exact hperm.map token
  · intro k hk
    rw [effectOutcome_eq hquorum] at hk
    obtain ⟨jurors, hnodup, hcount, hvoted⟩ := htokens.backed k hk
    refine ⟨jurors, hnodup, hcount, fun juror hjuror => ?_⟩
    obtain ⟨tok, hmem, htok⟩ := hvoted juror hjuror
    obtain ⟨⟨juror', effect⟩, heffect, heq⟩ := List.mem_map.mp hmem
    obtain ⟨rfl, rfl⟩ := Prod.mk.inj heq
    exact ⟨effect, heffect, htok⟩
  · intro hfull
    rw [effectOutcome_eq hquorum]
    exact htokens.full (by rw [List.length_map]; exact hfull)

-- Where the threshold is more than half the jury, verdicts and effects settle: the outcome the
-- first votes decide is the one every further vote and every order of the votes decides, the
-- committed key has its quorum, and no jury that has voted is undecided. Nor does a tally of
-- effects panic.
theorem quorum_final {jurySize quorum : Nat} (hmajority : jurySize < 2 * quorum) :
    (∀ votes, Cast jurySize votes →
      Settles CanonicalVerdict.quorumKey (verdictOutcome jurySize quorum) jurySize quorum
        votes) ∧
    ∀ effects, Cast jurySize effects →
      tallyEffects effects jurySize quorum ≠ none ∧
      Settles CanonicalEffect.effectHash (effectOutcome jurySize quorum) jurySize quorum
        effects := by
  refine ⟨?_, ?_⟩
  · intro votes hcast
    exact settles_quorumTally committable_of_key hmajority hcast
  · intro effects hcast
    exact ⟨tallyEffects_ne_none (by omega), settles_effectOutcome hmajority hcast⟩

theorem quorum_final_three :
    (3 < 2 * QUORUM) ∧ (∀ votes, Cast 3 votes →
      Settles CanonicalVerdict.quorumKey (verdictOutcome 3 QUORUM) 3 QUORUM votes) ∧
    ∀ effects, Cast 3 effects →
      tallyEffects effects 3 QUORUM ≠ none ∧
      Settles CanonicalEffect.effectHash (effectOutcome 3 QUORUM) 3 QUORUM effects :=
  ⟨by decide, quorum_final (by decide)⟩

end Ubi2.Runtime
