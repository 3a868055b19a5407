import Ubi2.Exec.Reachable
import Ubi2.Runtime.Lifecycle.Passports

namespace Ubi2.Exec

open Ubi2.Runtime Ubi2.Runtime.Ledger Ubi2.Runtime.MemState Ubi2.Lib

-- The passport that a transaction presents.
def passportOf (tx : KernelTx) : Option Hash :=
  match tx.kind with
  | .SubmitZkPassportProof submission => some (submission.signals SELF_IDX_NULLIFIER)
  | _ => none

-- The nullifier and the human of a submission that is accepted.
def taken (e : Event) (o : Option OpOutcome) : List (Hash × Address) :=
  match e.action with
  | .tx tx =>
    if o.any OpOutcome.success then ((passportOf tx).map fun n => (n, tx.from_)).toList else []
  | _ => []

-- Those of all submissions of a run that are accepted.
def passports (host : Host) : MemState → List Event → List (Hash × Address)
  | _, [] => []
  | s, e :: es =>
    match step host s e with
    | none => []
    | some (o, s') => taken e o ++ passports host s' es

section Step

variable {host : Host} {ctx : BlockCtx} {tx : KernelTx} {s s' : MemState}
variable {r : Except String OpResult}

-- What an operation does to the set of spent nullifiers.
private def Spends (tx : KernelTx) (r : Except String OpResult) (s s' : MemState) : Prop :=
  match passportOf tx with
  | none => s'.zk.nullifiers = s.zk.nullifiers
  | some n => (∃ e, r = .error e ∧ s'.zk.nullifiers = s.zk.nullifiers) ∨
    ∃ a, r = .ok a ∧ Binds s s' n tx.from_

private theorem spends_of_none (hk : passportOf tx = none)
    (h : s'.zk.nullifiers = s.zk.nullifiers) : Spends tx r s s' := by
  unfold Spends
  rw [hk]
  exact h

private theorem spends_hubOp (h : hubOp host ctx tx s = some (r, s')) : Spends tx r s s' := by
  unfold hubOp at h
  have hnone : (∀ submission, tx.kind ≠ .SubmitZkPassportProof submission) →
      s'.zk.nullifiers = s.zk.nullifiers → Spends tx r s s' := by
    intro hkind hzk
    refine spends_of_none ?_ hzk
    unfold passportOf
    split
    · exact absurd ‹_› (hkind _)
    · rfl
  have hprompt : ∀ {p : MemState} {w : Authority}, PromptFrame ctx.timestamp w s p → s' = p →
      s'.zk.nullifiers = s.zk.nullifiers := by
    intro p w hframe heq
    rw [heq, hframe.zk]
  cases hk : tx.kind with
  | Transfer to_ value =>
    simp only [hk] at h
    cases h
    exact hnone (by simp [hk]) rfl
  | FundContract id =>
    simp only [hk] at h
    cases h
    exact hnone (by simp [hk]) rfl
  | OpenStream to_ rate deposit =>
    simp only [hk] at h
    refine hnone (by simp [hk]) ?_
    rw [snd_of_render h]
  | StopStream id =>
    simp only [hk] at h
    obtain ⟨p, hp, hr⟩ := Option.map_eq_some_iff.mp h
    refine hnone (by simp [hk]) ?_
    rw [snd_of_render (congrArg some hr)]
  | RequestVerification livenessRef =>
    simp only [hk] at h
    obtain ⟨p, hp, hr⟩ := Option.map_eq_some_iff.mp h
    refine hnone (by simp [hk]) ?_
    rw [snd_of_render (congrArg some hr), zk_requestVerification s hp]
  | Vouch vouchee =>
    simp only [hk] at h
    refine hnone (by simp [hk]) ?_
    rw [snd_of_render h, zk_vouch]
  | Challenge subject evidenceRef =>
    simp only [hk] at h
    refine hnone (by simp [hk]) ?_
    rw [snd_of_render h]
    exact congrArg ZkRegistry.nullifiers (zk_challengeInner s _ _ _ _ _ _ _)
  | SubmitVerdict caseId verdict =>
    simp only [hk] at h
    refine hnone (by simp [hk]) ?_
    rw [snd_of_render h, zk_submitVerdict]
  | SubmitZkPassportProof submission =>
    simp only [hk] at h
    have hpassport : passportOf tx = some (submission.signals SELF_IDX_NULLIFIER) := by
      simp only [passportOf, hk]
    unfold Spends
    rw [hpassport]
    cases hres : s.submitZkPassportProof host.verifier host.userIdentifierHash tx.from_
        submission ctx.timestamp ctx.number with
    | mk res s₁ =>
      rw [hres] at h
      obtain ⟨e, rfl, rfl⟩ | ⟨a, rfl, hbinds⟩ := submitZkPassportProof_binds s hres
      · cases h
        exact Or.inl ⟨_, rfl, rfl⟩
      · cases h
        exact Or.inr ⟨_, rfl, hbinds⟩
  | RegisterCsca countryCode keyId pubkey =>
    simp only [hk] at h
    refine hnone (by simp [hk]) ?_
    rw [snd_of_render h]
    exact nullifiers_governed s tx.from_ (by rintro zk zk' ⟨⟩; rfl)
  | RevokeCsca keyId =>
    simp only [hk] at h
    refine hnone (by simp [hk]) ?_
    rw [snd_of_render h, nullifiers_revokeCsca]
  | PinSelfIdentityRoot root =>
    simp only [hk] at h
    refine hnone (by simp [hk]) ?_
    rw [snd_of_render h]
    exact nullifiers_governed s tx.from_ (by rintro zk zk' ⟨⟩; rfl)
  | PinSelfOfacRoot kind root =>
    simp only [hk] at h
    refine hnone (by simp [hk]) ?_
    rw [snd_of_render h]
    exact nullifiers_governed s tx.from_ (by rintro zk zk' ⟨⟩; rfl)
  | RetireSelfRoot root =>
    simp only [hk] at h
    refine hnone (by simp [hk]) ?_
    rw [snd_of_render h]
    exact nullifiers_governed s tx.from_ (by rintro zk zk' ⟨⟩; rfl)
  | DeployContract text parties =>
    simp only [hk] at h
    have hdeploy : PromptFrame ctx.timestamp (signer tx.from_) s _ :=
      promptFrame_deployContract s text (textCommitment host text) parties
    have hstamp : ∀ p : Except ContractError ContractId × MemState,
        (renderDeploy ctx.number tx.txHash p).2.zk = p.2.zk := by
      rintro ⟨r, s⟩
      cases r with
      | ok id =>
        simp only [renderDeploy, stampDeploy]
        cases s.getContract id <;> rfl
      | error e => rfl
    refine hnone (by simp [hk]) ?_
    have hs := congrArg Prod.snd (Option.some.inj h)
    rw [← show _ = s' from hs, hstamp, hdeploy.zk]
  | InvokeContract id triggerRef =>
    simp only [hk] at h
    obtain ⟨p, hp, hr⟩ := Option.map_eq_some_iff.mp h
    have hframe : PromptFrame ctx.timestamp { signer tx.from_ with
        spends := fun _ => True, renonces := fun _ => True } s _ :=
      promptFrame_invokeContract s trivial trivial hp
    exact hnone (by simp [hk]) (hprompt hframe (snd_of_render (congrArg some hr)))
  | SubmitEffect caseId effect =>
    simp only [hk] at h
    obtain ⟨p, hp, hr⟩ := Option.map_eq_some_iff.mp h
    have hframe : PromptFrame ctx.timestamp { signer tx.from_ with
        spends := fun _ => True, renonces := fun _ => True } s _ :=
      promptFrame_submitEffect s (fun _ _ => trivial) (fun _ _ => trivial) hp
    exact hnone (by simp [hk]) (hprompt hframe (snd_of_render (congrArg some hr)))

-- The fields of the state that a passport reads are not those that a nonce changes.
private theorem Spends.of_same {s₀ : MemState} (h : Spends tx r s s') (hzk : s.zk = s₀.zk)
    (hhum : s.humanity = s₀.humanity) : Spends tx r s₀ s' := by
  have hget : s.getHuman = s₀.getHuman := by
    funext a
    simp only [getHuman, hhum]
  unfold Spends at h ⊢
  cases hp : passportOf tx with
  | none =>
    rw [hp] at h
    dsimp only at h ⊢
    rw [h, hzk]
  | some n =>
    rw [hp] at h
    dsimp only at h ⊢
    rcases h with ⟨e, hr, hsame⟩ | ⟨a, hr, hbinds⟩
    · exact Or.inl ⟨e, hr, by rw [hsame, hzk]⟩
    · refine Or.inr ⟨a, hr, hbinds.canonical, by rw [← hzk]; exact hbinds.fresh,
        by rw [← hzk]; exact hbinds.spent, fun h hh => hbinds.unproved h (by rw [hget]; exact hh),
        hbinds.proved, fun b hb => by rw [← hget]; exact hbinds.others b hb⟩

private theorem spends_applyOne (h : applyOne host ctx tx s = some (r, s')) :
    Spends tx r s s' := by
  unfold applyOne at h
  split at h
  · rename_i to_ value hk
    refine spends_of_none (by simp only [passportOf, hk]) ?_
    rw [snd_of_render h]
  · rename_i id hk
    refine spends_of_none (by simp only [passportOf, hk]) ?_
    have hframe : PromptFrame ctx.timestamp { signer tx.from_ with
        spends := fun _ => True, renonces := fun _ => True } s
        (s.fundContract tx.from_ id tx.value tx.nonce ctx.timestamp).2 :=
      promptFrame_fundContract s trivial trivial
    rw [snd_of_render h, hframe.zk]
  · cases hconsume : consumeNonce s tx.from_ tx.nonce ctx.timestamp with
    | mk res s₁ =>
      rw [hconsume] at h
      cases res with
      | error e =>
        cases h
        rw [consumeNonce_error hconsume]
        unfold Spends
        cases passportOf tx with
        | none => rfl
        | some n => exact Or.inl ⟨e, rfl, rfl⟩
      | ok u =>
        obtain ⟨-, hs₁⟩ := consumeNonce_ok hconsume
        exact (spends_hubOp h).of_same (by rw [hs₁]; rfl) (by rw [hs₁]; rfl)

-- The outcome of a transaction tells whether its operation succeeded.
private theorem applyTx_outcome {o : Option OpOutcome} (h : applyTx host ctx tx s = some (o, s')) :
    (o.any OpOutcome.success = false ∧ ∃ l, s' = { s with ledger := l }) ∨
    ∃ l r s₁, applyOne host ctx tx { s with ledger := l } = some (r, s₁) ∧
      ((∃ a, r = .ok a ∧ o.any OpOutcome.success = true ∧ s' = s₁) ∨
        ∃ e, r = .error e ∧ o.any OpOutcome.success = false ∧ s' = failTx ctx tx s₁) := by
  unfold applyTx at h
  generalize s.ledger.chargeFee tx.from_ tx.kind.gas ctx.timestamp = p at h
  obtain ⟨res, l⟩ := p
  cases res with
  | error e =>
    cases h
    exact Or.inl ⟨rfl, l, rfl⟩
  | ok fee =>
    simp only [afterFee] at h
    refine Or.inr ⟨l, ?_⟩
    cases hone : applyOne host ctx tx { s with ledger := l } with
    | none =>
      rw [hone] at h
      cases h
    | some p =>
      obtain ⟨r, s₁⟩ := p
      rw [hone] at h
      refine ⟨r, s₁, rfl, ?_⟩
      cases r with
      | ok result =>
        cases h
        exact Or.inl ⟨result, rfl, rfl, rfl⟩
      | error e =>
        cases h
        exact Or.inr ⟨e, rfl, rfl, rfl⟩

private theorem zk_runSweeps : (runSweeps host ctx s).zk = s.zk := by
  have hfinal : (runSweeps host ctx s).zk = (sweepSybilScan host s ctx.blockHash ctx.number).zk :=
    Run.foldl_keeps MemState.zk
      (fun s a => zk_finalizeRegistration s a ctx.number ctx.timestamp) _ _
  have hscan : (sweepSybilScan host s ctx.blockHash ctx.number).zk = s.zk := by
    refine Run.foldl_keeps MemState.zk (fun s a => ?_) _ _
    unfold sweepSybilOne
    split_ifs
    · rfl
    · exact zk_challengeInner s _ _ _ _ _ _ _
  exact hfinal.trans hscan

-- A step spends the nullifier of the submission it accepts, which was free, and no other.
theorem nullifiers_step {e : Event} {o : Option OpOutcome} (h : step host s e = some (o, s')) :
    (taken e o = [] ∧ s'.zk.nullifiers = s.zk.nullifiers) ∨
    ∃ n a, taken e o = [(n, a)] ∧ isCanonicalScalar n ∧ s.zk.nullifierUsed n = false ∧
      s'.zk.nullifiers = s.zk.nullifiers.put n := by
  unfold step at h
  cases haction : e.action with
  | sweeps =>
    rw [haction] at h
    cases h
    exact Or.inl ⟨by simp [taken, haction], by rw [zk_runSweeps]⟩
  | refresh =>
    rw [haction] at h
    cases h
    exact Or.inl ⟨by simp [taken, haction], rfl⟩
  | tx tx =>
    rw [haction] at h
    obtain ⟨ho, l, rfl⟩ | ⟨l, r, s₁, hone, hr⟩ := applyTx_outcome h
    · exact Or.inl ⟨by simp [taken, haction, ho], rfl⟩
    have hspends : Spends tx r s s₁ := (spends_applyOne hone).of_same rfl rfl
    unfold Spends at hspends
    cases hp : passportOf tx with
    | none =>
      rw [hp] at hspends
      refine Or.inl ⟨by simp [taken, haction, hp], ?_⟩
      obtain ⟨a, -, -, rfl⟩ | ⟨e, -, -, rfl⟩ := hr
      · exact hspends
      · exact hspends
    | some n =>
      rw [hp] at hspends
      obtain ⟨a, rfl, ho, rfl⟩ | ⟨e, rfl, ho, rfl⟩ := hr
      · obtain ⟨e, he, -⟩ | ⟨a', -, hbinds⟩ := hspends
        · cases he
        · exact Or.inr ⟨n, tx.from_, by simp [taken, haction, hp, ho], hbinds.canonical,
            hbinds.fresh, hbinds.spent⟩
      · obtain ⟨e', -, hsame⟩ | ⟨a', ha', -⟩ := hspends
        · exact Or.inl ⟨by simp [taken, haction, ho], hsame⟩
        · cases ha'

end Step

section Run

variable {host : Host} {s : MemState} {es : List Event}

-- What a run accepts was free in the state it starts from.
theorem passports_fresh {p : Hash × Address} (hp : p ∈ passports host s es) :
    isCanonicalScalar p.1 ∧ p.1 ∉ s.zk.nullifiers.rows := by
  induction es generalizing s with
  | nil => cases hp
  | cons e es ih =>
    rw [passports] at hp
    cases he : step host s e with
    | none => simp [he] at hp
    | some q =>
      obtain ⟨o, s'⟩ := q
      rw [he] at hp
      dsimp only at hp
      obtain ⟨hnone, hsame⟩ | ⟨n, a, hone, hcanonical, hfresh, hput⟩ := nullifiers_step he
      · rw [hnone, List.nil_append] at hp
        rw [← hsame]
        exact ih hp
      · rw [hone, List.singleton_append, List.mem_cons] at hp
        rcases hp with rfl | hp
        · refine ⟨hcanonical, fun hmem => ?_⟩
          rw [← ZkRegistry.nullifierUsed_iff, hfresh] at hmem
          cases hmem
        · obtain ⟨hc, hnot⟩ := ih hp
          refine ⟨hc, fun hmem => hnot ?_⟩
          rw [hput, Table.mem_put]
          by_cases heq : p.1 = n
          · exact Or.inl heq
          · exact Or.inr ⟨hmem, heq⟩

theorem passports_nodup : ((passports host s es).map Prod.fst).Nodup := by
  induction es generalizing s with
  | nil => exact List.nodup_nil
  | cons e es ih =>
    rw [passports]
    cases he : step host s e with
    | none => exact List.nodup_nil
    | some q =>
      obtain ⟨o, s'⟩ := q
      dsimp only
      obtain ⟨hnone, -⟩ | ⟨n, a, hone, -, -, hput⟩ := nullifiers_step he
      · rw [hnone, List.nil_append]
        exact ih
      · rw [hone, List.singleton_append, List.map_cons, List.nodup_cons]
        refine ⟨fun hmem => ?_, ih⟩
        obtain ⟨p, hp, hpn⟩ := List.mem_map.mp hmem
        refine (passports_fresh hp).2 ?_
        rw [hput, Table.mem_put]
        exact Or.inl hpn

-- The nullifiers that a run spends are those it accepts.
theorem nullifiers_run {s' : MemState} (hrun : run host s es = some s') (n : Hash) :
    n ∈ s'.zk.nullifiers.rows ↔
      n ∈ s.zk.nullifiers.rows ∨ n ∈ (passports host s es).map Prod.fst := by
  induction es generalizing s with
  | nil =>
    cases hrun
    simp [passports]
  | cons e es ih =>
    rw [run] at hrun
    rw [passports]
    cases he : step host s e with
    | none => simp [he] at hrun
    | some q =>
      obtain ⟨o, s₁⟩ := q
      rw [he] at hrun
      rw [ih hrun]
      dsimp only
      obtain ⟨hnone, hsame⟩ | ⟨m, a, hone, -, -, hput⟩ := nullifiers_step he
      · rw [hnone, hsame, List.nil_append]
      · rw [hone, hput, Table.mem_put, List.singleton_append, List.map_cons, List.mem_cons]
        by_cases hnm : n = m
        · simp [hnm]
        · simp [hnm]

end Run

open Genesis in
theorem Genesis.nullifiers (g : Genesis) : g.state.zk.nullifiers = ∅ := by
  have hjurors : ∀ s : MemState,
      (g.jurors.foldl (fun s j => s.registerJuror j.1 j.2) s).zk = s.zk :=
    Run.foldl_keeps (f := fun s j => s.registerJuror j.1 j.2) MemState.zk (fun _ _ => rfl) g.jurors
  have hhumans : ∀ s : MemState, (g.humans.foldl (seedHuman g.time) s).zk = s.zk :=
    Run.foldl_keeps (f := seedHuman g.time) MemState.zk (fun _ _ => rfl) g.humans
  have haccounts : ∀ s : MemState, (g.accounts.foldl seedAccount s).zk = s.zk :=
    Run.foldl_keeps (f := seedAccount) MemState.zk (fun _ _ => rfl) g.accounts
  have hidentity : ∀ zk : ZkRegistry,
      (g.identityRoots.foldl seedIdentityRoot zk).nullifiers = zk.nullifiers :=
    Run.foldl_keeps (f := seedIdentityRoot) ZkRegistry.nullifiers (fun _ _ => rfl) g.identityRoots
  have hofac : ∀ zk : ZkRegistry,
      (g.ofacRoots.foldl seedOfacRoot zk).nullifiers = zk.nullifiers :=
    Run.foldl_keeps (f := seedOfacRoot) ZkRegistry.nullifiers (fun _ _ => rfl) g.ofacRoots
  simp only [Genesis.state, hjurors, hhumans, haccounts, Genesis.seedZk, hofac, hidentity]

-- Over every run, no field element is accepted twice, whatever its encoding, and the
-- nullifiers spent are those of the accepted submissions. A submission is refused and
-- changes nothing, or binds one free nullifier to one human.
theorem one_passport_one_human {host : Host} (g : Genesis) (es : List Event) :
    ((passports host g.state es).map fun p => fieldElement p.1).Nodup ∧
    (∀ s, run host g.state es = some s → ∀ n, s.zk.nullifierUsed n = true ↔
      n ∈ (passports host g.state es).map Prod.fst) ∧
    ∀ (s : MemState) subject submission now block r s',
      s.submitZkPassportProof host.verifier host.userIdentifierHash subject submission now
        block = (r, s') →
      (∃ e, r = .error e ∧ s' = s) ∨
        ∃ a, r = .ok a ∧ Binds s s' (submission.signals SELF_IDX_NULLIFIER) subject := by
  refine ⟨?_, fun s hrun n => ?_, fun s _ _ _ _ _ _ h => submitZkPassportProof_binds s h⟩
  · have hmap : (passports host g.state es).map (fun p => fieldElement p.1) =
        ((passports host g.state es).map Prod.fst).map fieldElement := by
      rw [List.map_map]
      rfl
    rw [hmap]
    refine List.Nodup.map_on (fun n hn n' hn' hsame => ?_) passports_nodup
    obtain ⟨p, hp, rfl⟩ := List.mem_map.mp hn
    obtain ⟨p', hp', rfl⟩ := List.mem_map.mp hn'
    exact eq_of_canonical (passports_fresh hp).1 (passports_fresh hp').1 hsame
  · rw [ZkRegistry.nullifierUsed_iff, nullifiers_run hrun n, Genesis.nullifiers]
    simp

-- A chain that trusts one scope and the zero roots, on the first day of the millennium.
def passportNet : Genesis :=
  { time := 946684800#64
    accounts := [(5#160, UBI)]
    identityRoots := [0#256]
    ofacRoots := [(0#8, 0#256), (1#8, 0#256), (2#8, 0#256)]
    scope := some 0#256 }

-- A passport with the given nullifier, presented by its holder.
def presenting (holder : Address) (nonce : U64) (nullifier : Hash) : Event :=
  { ctx := { timestamp := 946684800#64, number := 1#64, blockHash := 0#256 }
    action := .tx
      { txHash := 0#256, from_ := holder, nonce := nonce, value := 0#128
        kind := .SubmitZkPassportProof
          { proof := []
            signals := fun i =>
              if i = SELF_IDX_NULLIFIER then nullifier
              else if i = SELF_IDX_ATTESTATION_ID ∨ i.val = 13 ∨ i.val = 15 then 1#256
              else 0#256
            schemeTag := SCHEME_TAG_PASSPORT
            userContextData := List.replicate 44 0#8 ++ Encode.beBytes holder } } }

-- A passport is taken once: presented again, by its holder or in another encoding of the
-- same scalar, it is refused.
theorem one_passport_presented_thrice :
    (passports mockHost passportNet.state
      [presenting 5#160 0#64 7#256, presenting 5#160 1#64 7#256,
        presenting 5#160 2#64 (7#256 + BN254_FR_MODULUS_BE)]).length = 1 ∧
    ((passports mockHost passportNet.state
      [presenting 5#160 0#64 7#256, presenting 5#160 1#64 7#256,
        presenting 5#160 2#64 (7#256 + BN254_FR_MODULUS_BE)]).map
      fun p => fieldElement p.1).Nodup ∧
    ∃ s, run mockHost passportNet.state [presenting 5#160 0#64 7#256] = some s ∧
      (s.zk.nullifierUsed 7#256 = true ↔
        7#256 ∈ (passports mockHost passportNet.state
          [presenting 5#160 0#64 7#256]).map Prod.fst) := by
  have hlength : (passports mockHost passportNet.state
      [presenting 5#160 0#64 7#256, presenting 5#160 1#64 7#256,
        presenting 5#160 2#64 (7#256 + BN254_FR_MODULUS_BE)]).length = 1 := by
    decide +kernel
  obtain ⟨s, hrun⟩ := Option.isSome_iff_exists.mp (show (run mockHost passportNet.state
    [presenting 5#160 0#64 7#256]).isSome = true by decide +kernel)
  exact ⟨hlength, (one_passport_one_human passportNet _).1, s, hrun,
    (one_passport_one_human passportNet _).2.1 s hrun 7#256⟩

end Ubi2.Exec
