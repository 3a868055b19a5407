import Ubi2.Contracts.ZkIdentityVersionRegistry
import Ubi2.Lib.Run

namespace Ubi2.Contracts.ZkIdentityVersionRegistry

open Ubi2.Lib Ubi2.Lib.Evm Ubi2.Lib.Except ZkIdentityEncoding

variable {base : Ownable} {keccak256 : Keccak256} {s s' : State base} {env env' : Env}

-- What one call does, with the checks that the later proofs need.
inductive Step (s s' : State base) : Call base → Prop where
  | ownership (call : base.Call) (ownership : base.State)
      (hs : s' = { s with ownership }) : Step s s' (.ownership call)
  | registeredCircuit (c : Bytes32) (verifier : Address) (codehash : Bytes32)
      (hverifier : verifier ≠ 0) (hnew : (s.circuits c).verifier = 0)
      (hs : s' = { s with
        circuits := Function.update s.circuits c ⟨verifier, codehash, true⟩ }) :
      Step s s' (.registerCircuit c verifier)
  | retiredCircuit (c : Bytes32) (hcircuit : (s.circuits c).verifier ≠ 0)
      (hs : s' = { s with
        circuits := Function.update s.circuits c { s.circuits c with active := false } }) :
      Step s s' (.retireCircuit c)
  | authorizedIssuer (c i : Bytes32) (hcircuit : (s.circuits c).verifier ≠ 0)
      (hnew : (s.issuers (c, i)).registered = false)
      (hs : s' = { s with issuers := Function.update s.issuers (c, i) ⟨true, true⟩ }) :
      Step s s' (.authorizeIssuer c i)
  | retiredIssuer (c i : Bytes32) (hissuer : (s.issuers (c, i)).registered = true)
      (hs : s' = { s with
        issuers := Function.update s.issuers (c, i)
          { s.issuers (c, i) with active := false } }) :
      Step s s' (.retireIssuer c i)
  | publishedRoot (c i : Bytes32) (epoch : BitVec 32) (root : Bytes32)
      (hcircuit : (s.circuits c).verifier ≠ 0)
      (hissuer : (s.issuers (c, i)).registered = true) (hroot : root ≠ 0)
      (hepoch : s.latestStatusEpoch (c, i) < epoch)
      (hnew : s.publishedRoots (c, i) root = false)
      (hs : s' = { s with
        latestStatusEpoch := Function.update s.latestStatusEpoch (c, i) epoch
        publishedRoots := set₂ s.publishedRoots (c, i) root true
        statusRootEpoch := set₂ s.statusRootEpoch (c, i) root epoch
        statusRoots := set₂ s.statusRoots (c, i) epoch ⟨root, false⟩ }) :
      Step s s' (.publishStatusRoot c i epoch root)
  | revokedRoot (c i : Bytes32) (epoch : BitVec 32)
      (hs : s' = { s with
        statusRoots := set₂ s.statusRoots (c, i) epoch
          { s.statusRoots (c, i) epoch with revoked := true } }) :
      Step s s' (.revokeStatusRoot c i epoch)
  | registeredPolicy (provider list root : Bytes32) (publishedAt age : BitVec 32)
      (hash : Bytes32) (hnew : (s.dynamicStatusPolicies hash).registered = false)
      (hs : s' = { s with
        dynamicStatusPolicies := Function.update s.dynamicStatusPolicies hash
          ⟨provider, list, root, publishedAt, age, true, true⟩ }) :
      Step s s' (.registerDynamicStatusPolicy provider list root publishedAt age)
  | retiredPolicy (hash : Bytes32)
      (hs : s' = { s with
        dynamicStatusPolicies := Function.update s.dynamicStatusPolicies hash
          { s.dynamicStatusPolicies hash with active := false } }) :
      Step s s' (.retireDynamicStatusPolicy hash)

namespace State

theorem activeCircuit_eq_ok {c : Bytes32} {circuit : CircuitVersion} :
    s.activeCircuit c = .ok circuit ↔
      (s.circuits c).verifier ≠ 0 ∧ (s.circuits c).active = true ∧ circuit = s.circuits c := by
  simp only [activeCircuit, bind_eq_ok, revertIf_eq_ok, exists_const, pure_eq_ok,
    Bool.not_eq_false, eq_comm (a := circuit), ne_eq]

theorem activeIssuer_eq_ok {c i : Bytes32} {issuer : IssuerAuthorization} :
    s.activeIssuer c i = .ok issuer ↔
      (s.issuers (c, i)).registered = true ∧ (s.issuers (c, i)).active = true ∧
        issuer = s.issuers (c, i) := by
  simp only [activeIssuer, bind_eq_ok, revertIf_eq_ok, exists_const, pure_eq_ok,
    Bool.not_eq_false, eq_comm (a := issuer)]

theorem execute_step {call : Call base} (h : s.execute keccak256 env call = .ok s') :
    Step s s' call := by
  cases call with
  | ownership call =>
    simp only [execute, ownableCall] at h
    split at h
    · cases h
      exact .ownership call _ rfl
    · cases h
  | registerCircuit c verifier =>
    simp only [execute, registerCircuit, bind_eq_ok, revertIf_eq_ok, exists_const, pure_eq_ok,
      not_or, not_not, ne_eq] at h
    obtain ⟨-, -, -, hverifier, hnew, rfl⟩ := h
    exact .registeredCircuit c verifier _ hverifier.1 hnew rfl
  | retireCircuit c =>
    simp only [execute, retireCircuit, bind_eq_ok, pure_eq_ok, activeCircuit_eq_ok] at h
    obtain ⟨-, -, circuit, ⟨hcircuit, -, rfl⟩, rfl⟩ := h
    exact .retiredCircuit c hcircuit rfl
  | authorizeIssuer c i =>
    simp only [execute, authorizeIssuer, bind_eq_ok, revertIf_eq_ok, exists_const, pure_eq_ok,
      activeCircuit_eq_ok, Bool.not_eq_true] at h
    obtain ⟨-, -, circuit, ⟨hcircuit, -, -⟩, -, hnew, rfl⟩ := h
    exact .authorizedIssuer c i hcircuit hnew rfl
  | retireIssuer c i =>
    simp only [execute, retireIssuer, bind_eq_ok, pure_eq_ok, activeIssuer_eq_ok] at h
    obtain ⟨-, -, -, -, issuer, ⟨hissuer, -, rfl⟩, rfl⟩ := h
    exact .retiredIssuer c i hissuer rfl
  | publishStatusRoot c i epoch root =>
    simp only [execute, publishStatusRoot, bind_eq_ok, revertIf_eq_ok, exists_const, pure_eq_ok,
      activeCircuit_eq_ok, activeIssuer_eq_ok, Bool.not_eq_true] at h
    obtain ⟨-, -, circuit, ⟨hcircuit, -, -⟩, issuer, ⟨hissuer, -, -⟩, hroot, hepoch, hnew, rfl⟩ :=
      h
    exact .publishedRoot c i epoch root hcircuit hissuer hroot (by simpa using hepoch) hnew rfl
  | revokeStatusRoot c i epoch =>
    simp only [execute, revokeStatusRoot, bind_eq_ok, pure_eq_ok] at h
    obtain ⟨-, -, -, -, -, -, -, -, -, -, rfl⟩ := h
    exact .revokedRoot c i epoch rfl
  | registerDynamicStatusPolicy provider list root publishedAt age =>
    simp only [execute, registerDynamicStatusPolicy, bind_eq_ok, revertIf_eq_ok, exists_const,
      pure_eq_ok, Bool.not_eq_true] at h
    obtain ⟨-, -, -, hash, -, hnew, rfl⟩ := h
    exact .registeredPolicy provider list root publishedAt age hash hnew rfl
  | retireDynamicStatusPolicy hash =>
    simp only [execute, retireDynamicStatusPolicy, bind_eq_ok, pure_eq_ok] at h
    obtain ⟨-, -, -, -, -, -, rfl⟩ := h
    exact .retiredPolicy hash rfl

end State

-- What the mappings say about each other.
structure Consistent (s : State base) : Prop where
  known : ∀ n e, (s.statusRoots n e).root ≠ 0 →
    (s.circuits n.1).verifier ≠ 0 ∧ (s.issuers n).registered = true ∧
      e ≤ s.latestStatusEpoch n ∧ e ≠ 0
  indexed : ∀ n e, (s.statusRoots n e).root ≠ 0 →
    s.statusRootEpoch n (s.statusRoots n e).root = e ∧
      s.publishedRoots n (s.statusRoots n e).root = true

namespace Consistent

variable {call : Call base}

theorem new (ownership : base.State) : Consistent (new ownership) where
  known _ _ h := absurd rfl h
  indexed _ _ h := absurd rfl h

-- Two epochs never show one root.
theorem root_unique (h : Consistent s) {n : Namespace} {e e' : BitVec 32}
    (hroot : (s.statusRoots n e).root ≠ 0)
    (heq : (s.statusRoots n e).root = (s.statusRoots n e').root) : e = e' := by
  have he := (h.indexed n e hroot).1
  have he' := (h.indexed n e' (heq ▸ hroot)).1
  rw [← he, ← he', heq]

theorem step (h : Consistent s) (hs : Step s s' call) : Consistent s' := by
  cases hs with
  | ownership _ _ hs =>
    subst hs
    exact ⟨h.known, h.indexed⟩
  | registeredCircuit c verifier codehash hverifier _ hs =>
    subst hs
    refine ⟨fun n e hroot => ?_, h.indexed⟩
    obtain ⟨hcircuit, hrest⟩ := h.known n e hroot
    refine ⟨?_, hrest⟩
    simp only [Function.update_apply]
    split
    · exact hverifier
    · exact hcircuit
  | retiredCircuit c _ hs =>
    subst hs
    refine ⟨fun n e hroot => ?_, h.indexed⟩
    obtain ⟨hcircuit, hrest⟩ := h.known n e hroot
    refine ⟨?_, hrest⟩
    simp only [Function.update_apply]
    split
    · next heq => exact heq ▸ hcircuit
    · exact hcircuit
  | authorizedIssuer c i _ _ hs =>
    subst hs
    refine ⟨fun n e hroot => ?_, h.indexed⟩
    obtain ⟨hcircuit, hissuer, hrest⟩ := h.known n e hroot
    refine ⟨hcircuit, ?_, hrest⟩
    simp only [Function.update_apply]
    split
    · rfl
    · exact hissuer
  | retiredIssuer c i _ hs =>
    subst hs
    refine ⟨fun n e hroot => ?_, h.indexed⟩
    obtain ⟨hcircuit, hissuer, hrest⟩ := h.known n e hroot
    refine ⟨hcircuit, ?_, hrest⟩
    simp only [Function.update_apply]
    split
    · next heq => exact heq ▸ hissuer
    · exact hissuer
  | publishedRoot c i epoch root hcircuit hissuer hroot hepoch hnew hs =>
    subst hs
    constructor
    · intro n e hstored
      simp only [set₂_apply] at hstored
      split at hstored
      · next heq =>
        obtain ⟨rfl, rfl⟩ := heq
        refine ⟨hcircuit, hissuer, by simp, ?_⟩
        rintro rfl
        exact absurd hepoch (by simp [BitVec.lt_def])
      · next hne =>
        obtain ⟨hc, hi, hle, hpos⟩ := h.known n e hstored
        refine ⟨hc, hi, ?_, hpos⟩
        simp only [Function.update_apply]
        split
        · next heq =>
          subst heq
          exact hle.trans hepoch.le
        · exact hle
    · intro n e hstored
      simp only [set₂_apply] at hstored ⊢
      split
      · next heq =>
        obtain ⟨rfl, rfl⟩ := heq
        simp
      · next hne =>
        rw [if_neg hne] at hstored
        obtain ⟨hold, hpublished⟩ := h.indexed n e hstored
        have hother : ¬(n = (c, i) ∧ (s.statusRoots n e).root = root) := by
          rintro ⟨rfl, heq⟩
          rw [heq, hnew] at hpublished
          cases hpublished
        rw [if_neg hother, if_neg hother]
        exact ⟨hold, hpublished⟩
  | revokedRoot c i epoch hs =>
    subst hs
    have hroots : ∀ n e, (set₂ s.statusRoots (c, i) epoch
        { s.statusRoots (c, i) epoch with revoked := true } n e).root =
          (s.statusRoots n e).root := by
      intro n e
      rw [set₂_apply]
      split
      · next heq => rw [heq.1, heq.2]
      · rfl
    constructor
    · intro n e hstored
      simp only [hroots] at hstored
      exact h.known n e hstored
    · intro n e hstored
      simp only [hroots] at hstored ⊢
      exact h.indexed n e hstored
  | registeredPolicy _ _ _ _ _ _ _ hs =>
    subst hs
    exact ⟨h.known, h.indexed⟩
  | retiredPolicy _ hs =>
    subst hs
    exact ⟨h.known, h.indexed⟩

end Consistent

-- What is registered or published stays as it is, and only loses its acceptance.
structure Onward (s s' : State base) : Prop where
  circuits : ∀ c, (s.circuits c).verifier ≠ 0 →
    (s'.circuits c).verifier = (s.circuits c).verifier ∧
      (s'.circuits c).verifierCodehash = (s.circuits c).verifierCodehash ∧
      ((s.circuits c).active = false → (s'.circuits c).active = false)
  issuers : ∀ n, (s.issuers n).registered = true →
    (s'.issuers n).registered = true ∧
      ((s.issuers n).active = false → (s'.issuers n).active = false)
  roots : ∀ n e, (s.statusRoots n e).root ≠ 0 →
    (s'.statusRoots n e).root = (s.statusRoots n e).root ∧
      ((s.statusRoots n e).revoked = true → (s'.statusRoots n e).revoked = true)
  policies : ∀ hash, (s.dynamicStatusPolicies hash).registered = true →
    ∃ active, s'.dynamicStatusPolicies hash =
        { s.dynamicStatusPolicies hash with active := active } ∧
      ((s.dynamicStatusPolicies hash).active = false → active = false)

namespace Onward

variable {s'' : State base} {call : Call base}

theorem refl (s : State base) : Onward s s where
  circuits _ _ := ⟨rfl, rfl, id⟩
  issuers _ h := ⟨h, id⟩
  roots _ _ _ := ⟨rfl, id⟩
  policies _ _ := ⟨_, rfl, id⟩

theorem trans (h : Onward s s') (h' : Onward s' s'') : Onward s s'' where
  circuits c hc := by
    obtain ⟨hv, hh, ha⟩ := h.circuits c hc
    obtain ⟨hv', hh', ha'⟩ := h'.circuits c (hv ▸ hc)
    exact ⟨hv'.trans hv, hh'.trans hh, fun hi => ha' (ha hi)⟩
  issuers n hn := by
    obtain ⟨hr, ha⟩ := h.issuers n hn
    obtain ⟨hr', ha'⟩ := h'.issuers n hr
    exact ⟨hr', fun hi => ha' (ha hi)⟩
  roots n e he := by
    obtain ⟨hr, hv⟩ := h.roots n e he
    obtain ⟨hr', hv'⟩ := h'.roots n e (hr ▸ he)
    exact ⟨hr'.trans hr, fun hi => hv' (hv hi)⟩
  policies hash hr := by
    obtain ⟨active, heq, ha⟩ := h.policies hash hr
    obtain ⟨active', heq', ha'⟩ := h'.policies hash (by rw [heq]; exact hr)
    rw [heq] at heq' ha'
    exact ⟨active', heq', fun hi => ha' (ha hi)⟩

theorem step (h : Consistent s) (hs : Step s s' call) : Onward s s' := by
  cases hs with
  | ownership _ _ hs =>
    subst hs
    exact ⟨(refl s).circuits, (refl s).issuers, (refl s).roots, (refl s).policies⟩
  | registeredCircuit c _ _ _ hnew hs =>
    subst hs
    refine { refl s with circuits := fun c' hc' => ?_ }
    have hne : c' ≠ c := by
      rintro rfl
      exact hc' hnew
    simpa only [Function.update_of_ne hne] using (refl s).circuits c' hc'
  | retiredCircuit c _ hs =>
    subst hs
    refine { refl s with circuits := fun c' hc' => ?_ }
    rcases eq_or_ne c' c with rfl | hne
    · simp
    · simpa only [Function.update_of_ne hne] using (refl s).circuits c' hc'
  | authorizedIssuer c i _ hnew hs =>
    subst hs
    refine { refl s with issuers := fun n hn => ?_ }
    have hne : n ≠ (c, i) := by
      rintro rfl
      rw [hn] at hnew
      cases hnew
    simpa only [Function.update_of_ne hne] using (refl s).issuers n hn
  | retiredIssuer c i _ hs =>
    subst hs
    refine { refl s with issuers := fun n hn => ?_ }
    rcases eq_or_ne n (c, i) with rfl | hne
    · simpa using hn
    · simpa only [Function.update_of_ne hne] using (refl s).issuers n hn
  | publishedRoot c i epoch root _ _ _ hepoch _ hs =>
    subst hs
    refine { refl s with roots := fun n e he => ?_ }
    -- A new epoch is above every epoch that has a root.
    have hne : n = (c, i) → e ≠ epoch := by
      rintro rfl rfl
      exact absurd (h.known _ _ he).2.2.1 (not_le_of_gt hepoch)
    simpa only [set₂_of_ne hne] using (refl s).roots n e he
  | revokedRoot c i epoch hs =>
    subst hs
    refine { refl s with roots := fun n e he => ?_ }
    simp only [set₂_apply]
    split
    · next heq =>
      obtain ⟨rfl, rfl⟩ := heq
      exact ⟨rfl, fun _ => rfl⟩
    · exact ⟨rfl, id⟩
  | registeredPolicy _ _ _ _ _ hash hnew hs =>
    subst hs
    refine { refl s with policies := fun hash' hr => ?_ }
    have hne : hash' ≠ hash := by
      rintro rfl
      rw [hr] at hnew
      cases hnew
    simpa only [Function.update_of_ne hne] using (refl s).policies hash' hr
  | retiredPolicy hash hs =>
    subst hs
    refine { refl s with policies := fun hash' hr => ?_ }
    rcases eq_or_ne hash' hash with rfl | hne
    · exact ⟨false, by simp, fun _ => rfl⟩
    · simpa only [Function.update_of_ne hne] using (refl s).policies hash' hr

end Onward

namespace State

theorem isAccepted_eq_true {c : Bytes32} {v : Address} {i r : Bytes32} {e : BitVec 32} :
    s.isAccepted env c v i r e = true ↔
      ((s.circuits c).active = true ∧ (s.circuits c).verifier = v ∧
        env.codehash v = (s.circuits c).verifierCodehash) ∧
      (s.issuers (c, i)).active = true ∧
      (s.statusRoots (c, i) e).root = r ∧ r ≠ 0 ∧ (s.statusRoots (c, i) e).revoked = false := by
  simp only [isAccepted]
  split
  · next h =>
    simp only [Bool.false_eq_true, false_iff, not_and]
    rintro ⟨hactive, hverifier, hcode⟩
    rcases h with h | h | h
    · rw [hactive] at h
      cases h
    · exact absurd hverifier h
    · exact absurd hcode h
  · next h =>
    simp only [not_or, not_not, Bool.not_eq_false] at h
    split
    · next hissuer => simp [hissuer]
    · next hissuer => simp [h, hissuer, and_assoc]

end State

-- Read backwards: what is accepted later, with the verifier's bytecode unchanged, was
-- accepted before.
theorem Onward.accepted_before (h : Onward s s') (hc : Consistent s) {c : Bytes32}
    {v : Address} {i r : Bytes32} {e : BitVec 32}
    (hstored : (s.statusRoots (c, i) e).root = r) (hroot : r ≠ 0)
    (hcode : env'.codehash v = env.codehash v)
    (haccepted : s'.isAccepted env' c v i r e = true) :
    s.isAccepted env c v i r e = true := by
  subst hstored
  obtain ⟨hcircuit, hissuer, -, -⟩ := hc.known (c, i) e hroot
  obtain ⟨hverifier, hhash, hactive⟩ := h.circuits c hcircuit
  obtain ⟨-, hissuerActive⟩ := h.issuers (c, i) hissuer
  obtain ⟨-, hrevoked⟩ := h.roots (c, i) e hroot
  rw [State.isAccepted_eq_true] at haccepted ⊢
  obtain ⟨⟨ha, hv, hh⟩, hi, -, -, hr⟩ := haccepted
  refine ⟨⟨?_, hverifier ▸ hv, ?_⟩, ?_, rfl, hroot, ?_⟩
  · by_contra hna
    rw [hactive (by simpa using hna)] at ha
    cases ha
  · rw [← hcode, hh, hhash]
  · by_contra hna
    rw [hissuerActive (by simpa using hna)] at hi
    cases hi
  · by_contra hna
    rw [hrevoked (by simpa using hna)] at hr
    cases hr

theorem Consistent.isRootAccepted_iff (h : Consistent s) (c : Bytes32) (v : Address)
    (i r : Bytes32) :
    s.isRootAccepted env c v i r = true ↔ ∃ e, s.isAccepted env c v i r e = true := by
  simp only [State.isRootAccepted, Bool.and_eq_true, decide_eq_true_eq]
  constructor
  · rintro ⟨-, haccepted⟩
    exact ⟨_, haccepted⟩
  · rintro ⟨e, haccepted⟩
    obtain ⟨-, -, hstored, hroot, -⟩ := State.isAccepted_eq_true.mp haccepted
    have hne : (s.statusRoots (c, i) e).root ≠ 0 := hstored ▸ hroot
    have hindex := (h.indexed (c, i) e hne).1
    rw [hstored] at hindex
    rw [hindex]
    exact ⟨(h.known (c, i) e hne).2.2.2, haccepted⟩

abbrev publicationsOf (n : Namespace) (ps : List Publication) : List Publication :=
  ps.filter fun p => p.scope = n

-- Every publication is still stored, under a growing epoch.
structure Recorded (s : State base) (ps : List Publication) : Prop where
  stored : ∀ p ∈ ps, p.root ≠ 0 ∧ (s.statusRoots p.scope p.epoch).root = p.root
  sorted : ∀ n, (publicationsOf n ps).Pairwise fun p q => p.epoch < q.epoch

namespace Recorded

variable {ps : List Publication} {call : Call base}

theorem step (h : Recorded s ps) (hc : Consistent s) (hs : Step s s' call) :
    Recorded s' (ps ++ call.publication?.toList) := by
  have honward := Onward.step hc hs
  have hold : ∀ p ∈ ps, p.root ≠ 0 ∧ (s'.statusRoots p.scope p.epoch).root = p.root := by
    intro p hp
    obtain ⟨hroot, hstored⟩ := h.stored p hp
    rw [(honward.roots p.scope p.epoch (hstored ▸ hroot)).1]
    exact ⟨hroot, hstored⟩
  cases hs with
  | publishedRoot c i epoch root _ _ hroot hepoch _ hs =>
    subst hs
    constructor
    · intro p hp
      rcases List.mem_append.mp hp with hbefore | hlast
      · exact hold p hbefore
      · obtain rfl := List.mem_singleton.mp hlast
        simpa using hroot
    · intro n
      rw [publicationsOf, List.filter_append]
      refine List.pairwise_append.mpr ⟨h.sorted n, (List.pairwise_singleton _ _).filter _, ?_⟩
      intro p hp q hq
      obtain ⟨hmem, hscope⟩ := List.mem_filter.mp hp
      obtain ⟨hlast, hscope'⟩ := List.mem_filter.mp hq
      obtain rfl := List.mem_singleton.mp hlast
      obtain ⟨hne, hstored⟩ := h.stored p hmem
      have hle := (hc.known p.scope p.epoch (hstored ▸ hne)).2.2.1
      rw [of_decide_eq_true hscope, ← of_decide_eq_true hscope'] at hle
      exact lt_of_le_of_lt hle hepoch
  | _ =>
    rw [show Call.publication? _ = none from rfl, Option.toList_none, List.append_nil]
    exact ⟨hold, h.sorted⟩

-- The epochs of one circuit and issuer differ, so do the roots.
theorem roots_nodup (h : Recorded s ps) (hc : Consistent s) (n : Namespace) :
    ((publicationsOf n ps).map (·.root)).Nodup := by
  refine List.pairwise_map.mpr ((h.sorted n).imp_of_mem ?_)
  intro p q hp hq hlt heq
  obtain ⟨hp, hpn⟩ := List.mem_filter.mp hp
  obtain ⟨hq, hqn⟩ := List.mem_filter.mp hq
  obtain ⟨hne, hps⟩ := h.stored p hp
  obtain ⟨-, hqs⟩ := h.stored q hq
  rw [of_decide_eq_true hpn] at hps
  rw [of_decide_eq_true hqn] at hqs
  have hsame : p.epoch = q.epoch :=
    hc.root_unique (hps ▸ hne) (hps.trans (heq.trans hqs.symm))
  exact absurd hlt (hsame ▸ lt_irrefl _)

end Recorded

-- Where a world stands, seen from the registry that `s` was.
structure Since (s : State base) (w : World base) : Prop where
  consistent : Consistent w.state
  recorded : Recorded w.state w.publications
  onward : Onward s w.state

theorem Since.calls {w : World base} (h : Since s w) (calls : List (Env × Call base)) :
    Since s (w.calls keccak256 calls) := by
  refine Run.foldl_invariant ?_ calls h
  intro w c hw
  rw [World.call]
  split
  · next s' hexecute =>
    have hs := State.execute_step hexecute
    exact ⟨hw.consistent.step hs, hw.recorded.step hw.consistent hs,
      hw.onward.trans (Onward.step hw.consistent hs)⟩
  · exact hw

theorem run_since (keccak256 : Keccak256) (ownership : base.State)
    (calls : List (Env × Call base)) :
    Since (new ownership) (run keccak256 ownership calls) := by
  have hrecorded : Recorded (new ownership) [] :=
    ⟨fun _ h => absurd h List.not_mem_nil, fun _ => List.Pairwise.nil⟩
  have hnew : Since (new ownership) ⟨new ownership, []⟩ :=
    ⟨.new ownership, hrecorded, .refl _⟩
  exact hnew.calls calls

-- What holds of the registry at one time, and between it and any later time.
structure AcceptanceLaws (w w' : World base) : Prop where
  tuples : ∀ p ∈ w.publications, ∀ (verifier : Address) (env env' : Env),
    env'.codehash verifier = env.codehash verifier →
    w.state.isAccepted env p.scope.1 verifier p.scope.2 p.root p.epoch = false →
    w'.state.isAccepted env' p.scope.1 verifier p.scope.2 p.root p.epoch = false
  policies : ∀ hash, (w.state.dynamicStatusPolicyState hash).registered = true →
    ∃ active, w'.state.dynamicStatusPolicyState hash =
        { w.state.dynamicStatusPolicyState hash with active := active } ∧
      ((w.state.dynamicStatusPolicyState hash).active = false → active = false)
  epochs : ∀ n, (publicationsOf n w.publications).Pairwise fun p q => p.epoch < q.epoch
  roots : ∀ n, ((publicationsOf n w.publications).map (·.root)).Nodup
  rootAccepted : ∀ env c v i r, w.state.isRootAccepted env c v i r = true ↔
    ∃ e, w.state.isAccepted env c v i r e = true

theorem run_acceptanceLaws (keccak256 : Keccak256) (ownership : base.State)
    (before after : List (Env × Call base)) :
    AcceptanceLaws (run keccak256 ownership before)
      ((run keccak256 ownership before).calls keccak256 after) := by
  obtain ⟨hc, hr, -⟩ := run_since keccak256 ownership before
  obtain ⟨-, -, honward⟩ : Since _ ((run keccak256 ownership before).calls keccak256 after) :=
    Since.calls ⟨hc, hr, .refl _⟩ after
  constructor
  case tuples =>
    intro p hp verifier env env' hcode hrejected
    obtain ⟨hroot, hstored⟩ := hr.stored p hp
    by_contra haccepted
    rw [honward.accepted_before hc hstored hroot hcode (by simpa using haccepted)] at hrejected
    cases hrejected
  case policies =>
    intro hash hregistered
    obtain ⟨active, heq, hactive⟩ := honward.policies hash hregistered
    refine ⟨active, ?_, hactive⟩
    simp only [State.dynamicStatusPolicyState, heq]
  case epochs => exact hr.sorted
  case roots => exact hr.roots_nodup hc
  case rootAccepted => exact fun env c v i r => hc.isRootAccepted_iff c v i r

end Ubi2.Contracts.ZkIdentityVersionRegistry
