import Ubi2.Exec.Registers

namespace Ubi2.Exec

open Ubi2.Runtime Ubi2.Runtime.Ledger Ubi2.Runtime.MemState Ubi2.Lib

-- A transaction of the governance that was carried out.
structure Ruling where
  authority : Address
  block : U64
  kind : KernelKind

def KernelKind.rules : KernelKind → Bool
  | .RegisterCsca .. | .RevokeCsca .. | .PinSelfIdentityRoot .. | .PinSelfOfacRoot ..
  | .RetireSelfRoot .. => true
  | _ => false

def ruled (e : Event) (o : Option OpOutcome) : List Ruling :=
  match e.action with
  | .tx tx =>
    if o.any OpOutcome.success && tx.kind.rules then [⟨tx.from_, e.ctx.number, tx.kind⟩] else []
  | _ => []

-- Those of a run, in their order.
def rulings (host : Host) : MemState → List Event → List Ruling
  | _, [] => []
  | s, e :: es =>
    match step host s e with
    | none => []
    | some (o, s') => ruled e o ++ rulings host s' es

-- The block that a root was last pinned at, where it has not been retired since.
def Ruling.onIdentityRoot (root : Hash) (since : Option U64) (r : Ruling) : Option U64 :=
  match r.kind with
  | .PinSelfIdentityRoot pinned => if pinned = root then some r.block else since
  | .RetireSelfRoot retired => if retired = root then none else since
  | _ => since

def Ruling.onOfacRoot (kind : U8) (root : Hash) (since : Option U64) (r : Ruling) : Option U64 :=
  match r.kind with
  | .PinSelfOfacRoot k pinned => if k = kind ∧ pinned = root then some r.block else since
  | .RetireSelfRoot retired => if retired = root then none else since
  | _ => since

-- The roots of the genesis count as pinned at its block.
def Genesis.identitySince (g : Genesis) (rs : List Ruling) (root : Hash) : Option U64 :=
  rs.foldl (Ruling.onIdentityRoot root) (if root ∈ g.identityRoots then some 0#64 else none)

def Genesis.ofacSince (g : Genesis) (rs : List Ruling) (kind : U8) (root : Hash) : Option U64 :=
  rs.foldl (Ruling.onOfacRoot kind root) (if (kind, root) ∈ g.ofacRoots then some 0#64 else none)

def Recent (block : U64) (since : Option U64) : Prop :=
  ∃ b, since = some b ∧ Word.satSub block b ≤ SELF_ROOT_WINDOW_BLOCKS

-- What a passport that was accepted has shown, given how long each root has been pinned.
structure Proven (host : Host) (scope : Option Hash) (identity : Hash → Option U64)
    (ofac : U8 → Hash → Option U64) (ctx : BlockCtx) (subject : Address)
    (submission : ZkProofSubmission) (pi : ZkPublicInputs) : Prop where
  inputs : pi = ⟨submission.signals⟩
  scope : scope = some pi.scope
  identity : Recent ctx.number (identity pi.merkleRoot)
  ofac : ∀ kind : Fin 3, Recent ctx.number (ofac (BitVec.ofNat 8 kind) (pi.ofacRoot kind))
  holder : (submission.userContextData.drop 44).take 20 = Encode.beBytes subject
  context : host.userIdentifierHash submission.userContextData = pi.userIdentifier
  fresh : dateFresh pi ctx.timestamp = true
  verified : host.verifier.verifyPassport submission.proof pi = true

end Ubi2.Exec

namespace Ubi2.Runtime.ZkRegistry

open Ubi2.Lib Ubi2.Exec

variable {zk zk' zk'' : ZkRegistry} {rs rs' : List Ruling}

def identityPin (zk : ZkRegistry) (root : Hash) : Option U64 :=
  (zk.selfIdentityRoots.get root).map SelfIdentityRoot.pinnedAtBlock

def ofacPin (zk : ZkRegistry) (kind : U8) (root : Hash) : Option U64 :=
  (zk.selfOfacRoots.get (toLex (kind, root))).map SelfOfacRoot.pinnedAtBlock

-- The trust of the registry is changed by the rulings and by nothing else.
structure Ruled (zk zk' : ZkRegistry) (rs : List Ruling) : Prop where
  governance : zk'.cscaGovernance = zk.cscaGovernance
  scope : zk'.selfScope = zk.selfScope
  identity : ∀ root, zk'.identityPin root = rs.foldl (Ruling.onIdentityRoot root) (zk.identityPin root)
  ofac : ∀ kind root,
    zk'.ofacPin kind root = rs.foldl (Ruling.onOfacRoot kind root) (zk.ofacPin kind root)
  authority : ∀ r ∈ rs, zk.cscaGovernance = some r.authority

namespace Ruled

theorem refl : Ruled zk zk [] := by
  refine ⟨rfl, rfl, fun _ => rfl, fun _ _ => rfl, fun r hr => ?_⟩
  cases hr

theorem of_eq (h : zk' = zk) : Ruled zk zk' [] := by
  rw [h]
  exact refl

theorem trans (h : Ruled zk zk' rs) (h' : Ruled zk' zk'' rs') : Ruled zk zk'' (rs ++ rs') := by
  refine ⟨h'.governance.trans h.governance, h'.scope.trans h.scope, fun root => ?_,
    fun kind root => ?_, fun r hr => ?_⟩
  · rw [List.foldl_append, h'.identity, h.identity]
  · rw [List.foldl_append, h'.ofac, h.ofac]
  · rcases List.mem_append.mp hr with hr | hr
    · exact h.authority r hr
    · rw [← h.governance]
      exact h'.authority r hr

end Ruled

theorem recent_iff_accepted {root : Hash} {block : U64} :
    selfIdentityRootAccepted zk.selfIdentityRoots.rows root block = true ↔
      Recent block (zk.identityPin root) := by
  simp only [selfIdentityRootAccepted, List.any_eq_true, decide_eq_true_eq, Recent, identityPin,
    Option.map_eq_some_iff]
  constructor
  · intro h
    obtain ⟨e, he, rfl, hwindow⟩ := h
    exact ⟨_, ⟨e, Table.get_of_mem he, rfl⟩, hwindow⟩
  · intro h
    obtain ⟨b, ⟨e, he, rfl⟩, hwindow⟩ := h
    exact ⟨e, Table.mem_of_get he, Table.key_of_get he, hwindow⟩

theorem ofac_of_get {kind : U8} {root : Hash} {e : SelfOfacRoot}
    (h : zk.selfOfacRoots.get (toLex (kind, root)) = some e) : e.kind = kind ∧ e.root = root := by
  have hkey := Table.key_of_get h
  exact Prod.mk.inj (toLex.injective hkey)

theorem recent_iff_ofacAccepted {kind : U8} {root : Hash} {block : U64} :
    selfOfacRootAccepted zk.selfOfacRoots.rows kind root block = true ↔
      Recent block (zk.ofacPin kind root) := by
  simp only [selfOfacRootAccepted, List.any_eq_true, decide_eq_true_eq, Recent, ofacPin,
    Option.map_eq_some_iff]
  constructor
  · intro h
    obtain ⟨e, he, rfl, rfl, hwindow⟩ := h
    exact ⟨_, ⟨e, Table.get_of_mem he, rfl⟩, hwindow⟩
  · intro h
    obtain ⟨b, ⟨e, he, rfl⟩, hwindow⟩ := h
    obtain ⟨hkind, hroot⟩ := ofac_of_get he
    exact ⟨e, Table.mem_of_get he, hkind, hroot, hwindow⟩

end Ubi2.Runtime.ZkRegistry

namespace Ubi2.Exec

open Ubi2.Runtime Ubi2.Runtime.Ledger Ubi2.Runtime.MemState Ubi2.Runtime.ZkRegistry Ubi2.Lib

section
variable {host : Host} {ctx : BlockCtx} {tx : KernelTx} {s s' : MemState}
variable {r : Except String OpResult} {o : Option OpOutcome} {e : Event} {es : List Event}

-- A governance operation is refused and changes nothing, or is by the governance.
theorem governed_cases {display : CscaGovError → String} {result : Unit → OpResult}
    {caller : Address} {change : ZkRegistry → Except CscaGovError ZkRegistry}
    (h : render display result (s.governed caller change) = (r, s')) :
    (r.toOption.isSome = false ∧ s'.zk = s.zk) ∨
    ∃ zk, s.zk.cscaGovernance = some caller ∧ change s.zk = .ok zk ∧ s'.zk = zk ∧
      r.toOption.isSome = true := by
  unfold governed at h
  by_cases hcaller : s.zk.isCscaGovernance caller = true
  · rw [hcaller, Bool.not_true, if_neg Bool.false_ne_true] at h
    cases hchange : change s.zk with
    | error e =>
      rw [hchange] at h
      cases h
      exact Or.inl ⟨rfl, rfl⟩
    | ok zk =>
      rw [hchange] at h
      cases h
      exact Or.inr ⟨zk, of_decide_eq_true hcaller, rfl, rfl, rfl⟩
  · rw [if_pos (by simpa using hcaller)] at h
    cases h
    exact Or.inl ⟨rfl, rfl⟩

theorem pins_acceptZkProof (subject : Address) (pi : ZkPublicInputs) (now : U64) :
    Ruled s.zk (s.acceptZkProof subject pi now).2.zk [] := by
  obtain ⟨nullifiers, commitments, hzk⟩ : ∃ nullifiers commitments,
      (s.acceptZkProof subject pi now).2.zk =
        { s.zk with nullifiers := nullifiers, attributeCommitments := commitments } := by
    unfold acceptZkProof
    dsimp only
    split
    · split_ifs
      · exact ⟨_, _, rfl⟩
      · exact ⟨_, _, rfl⟩
    · exact ⟨_, _, rfl⟩
  rw [hzk]
  refine ⟨rfl, rfl, fun _ => rfl, fun _ _ => rfl, fun r hr => ?_⟩
  cases hr

-- What an operation that succeeded rules.
def rulingsOf (ctx : BlockCtx) (tx : KernelTx) (success : Bool) : List Ruling :=
  if success && tx.kind.rules then [⟨tx.from_, ctx.number, tx.kind⟩] else []

-- The pins of one root are those of the rulings that name it.
theorem ruled_governed {change : ZkRegistry → Except CscaGovError ZkRegistry}
    (hrules : tx.kind.rules = true)
    (h : render CscaGovError.display (fun _ => OpResult.None) (s.governed tx.from_ change) = (r, s'))
    (hchange : ∀ zk, change s.zk = .ok zk → zk.cscaGovernance = s.zk.cscaGovernance ∧
      zk.selfScope = s.zk.selfScope ∧
      (∀ root, zk.identityPin root =
        Ruling.onIdentityRoot root (s.zk.identityPin root) ⟨tx.from_, ctx.number, tx.kind⟩) ∧
      ∀ kind root, zk.ofacPin kind root =
        Ruling.onOfacRoot kind root (s.zk.ofacPin kind root) ⟨tx.from_, ctx.number, tx.kind⟩) :
    Ruled s.zk s'.zk (rulingsOf ctx tx r.toOption.isSome) := by
  rcases governed_cases h with ⟨hr, hzk⟩ | ⟨zk, hcaller, hok, hzk, hr⟩
  · rw [rulingsOf, hr]
    exact .of_eq hzk
  · obtain ⟨hgovernance, hscope, hidentity, hofac⟩ := hchange zk hok
    rw [rulingsOf, hr, hrules, hzk]
    refine ⟨hgovernance, hscope, hidentity, hofac, fun ruling hruling => ?_⟩
    rw [List.mem_singleton.mp hruling]
    exact hcaller

theorem ruled_operates (h : Operates host ctx tx s r s') :
    Ruled s.zk s'.zk (rulingsOf ctx tx r.toOption.isSome) := by
  have hleft := leaves_operates h
  have hnone : tx.kind.rules = false → tx.kind.writes.zk = false →
      Ruled s.zk s'.zk (rulingsOf ctx tx r.toOption.isSome) := by
    intro hrules hwrites
    rw [rulingsOf, hrules, Bool.and_false]
    exact .of_eq (hleft.zk hwrites)
  unfold Operates at h
  cases hk : tx.kind with
  | SubmitZkPassportProof submission =>
    simp only [hk, hubOp] at h
    have hnone : rulingsOf ctx tx r.toOption.isSome = [] := by
      rw [rulingsOf, hk]
      exact if_neg (by simp [KernelKind.rules])
    rw [hnone, snd_of_render h]
    unfold submitZkPassportProof
    split
    · exact .refl
    · exact pins_acceptZkProof _ _ _
  | RegisterCsca countryCode keyId pubkey =>
    simp only [hk, hubOp] at h
    refine ruled_governed (by rw [hk]; rfl) (Option.some.inj h) fun zk hzk => ?_
    cases hzk
    rw [hk]
    exact ⟨rfl, rfl, fun _ => rfl, fun _ _ => rfl⟩
  | RevokeCsca keyId =>
    simp only [hk, hubOp] at h
    refine ruled_governed (by rw [hk]; rfl) (Option.some.inj h) fun zk hzk => ?_
    cases hget : s.zk.csca.get keyId with
    | none =>
      rw [hget] at hzk
      cases hzk
    | some entry =>
      rw [hget] at hzk
      cases hzk
      rw [hk]
      exact ⟨rfl, rfl, fun _ => rfl, fun _ _ => rfl⟩
  | PinSelfIdentityRoot root =>
    simp only [hk, hubOp] at h
    refine ruled_governed (by rw [hk]; rfl) (Option.some.inj h) fun zk hzk => ?_
    cases hzk
    rw [hk]
    refine ⟨rfl, rfl, fun root' => ?_, fun _ _ => rfl⟩
    rw [identityPin, Table.get_put, apply_ite (Option.map SelfIdentityRoot.pinnedAtBlock)]
    rfl
  | PinSelfOfacRoot kind root =>
    simp only [hk, hubOp] at h
    refine ruled_governed (by rw [hk]; rfl) (Option.some.inj h) fun zk hzk => ?_
    cases hzk
    rw [hk]
    refine ⟨rfl, rfl, fun _ => rfl, fun kind' root' => ?_⟩
    rw [ofacPin, Table.get_put, apply_ite (Option.map SelfOfacRoot.pinnedAtBlock)]
    simp only [toLex_inj, Prod.mk.injEq]
    rfl
  | RetireSelfRoot root =>
    simp only [hk, hubOp] at h
    refine ruled_governed (by rw [hk]; rfl) (Option.some.inj h) fun zk hzk => ?_
    cases hzk
    rw [hk]
    refine ⟨rfl, rfl, fun root' => ?_, fun kind' root' => ?_⟩
    · rw [identityPin, ZkRegistry.retireSelfRoot, Table.get_erase, Ruling.onIdentityRoot]
      dsimp only
      by_cases hretired : root = root'
      · rw [if_pos hretired, if_pos hretired.symm]
        rfl
      · rw [if_neg hretired, if_neg (Ne.symm hretired)]
        rfl
    · rw [ofacPin, ZkRegistry.retireSelfRoot, Table.get_filter, Ruling.onOfacRoot, ofacPin]
      dsimp only
      cases hget : s.zk.selfOfacRoots.get (toLex (kind', root')) with
      | none => exact (ite_self none).symm
      | some entry =>
        have hentry := (ofac_of_get hget).2
        by_cases hretired : root = root'
        · rw [Option.filter_some_neg (by simp [hentry, hretired]), if_pos hretired]
          rfl
        · rw [Option.filter_some_pos (by simpa [hentry] using Ne.symm hretired), if_neg hretired]
  | _ => exact hnone (by rw [hk]; rfl) (by rw [hk]; rfl)

theorem ruled_step (h : step host s e = some (o, s')) : Ruled s.zk s'.zk (ruled e o) := by
  unfold step at h
  cases haction : e.action with
  | sweeps =>
    rw [haction] at h
    cases h
    rw [ruled, haction]
    exact .of_eq (leaves_runSweeps.zk rfl)
  | refresh =>
    rw [haction] at h
    cases h
    rw [ruled, haction]
    exact .refl
  | tx tx =>
    rw [haction] at h
    have hruled : ruled e o = rulingsOf e.ctx tx (o.any OpOutcome.success) := by
      rw [ruled, haction]
      rfl
    rw [hruled]
    obtain ⟨ho, hleaves⟩ | ⟨s₀, r, s₁, hbefore, hoperates, hafter, ho⟩ := applyTx_operates h
    · rw [ho]
      exact .of_eq (hleaves.zk rfl)
    · have hruns := ruled_operates hoperates
      rw [ho, hafter.zk rfl, ← hbefore.zk rfl]
      exact hruns

theorem ruled_run (h : run host s es = some s') : Ruled s.zk s'.zk (rulings host s es) := by
  induction es generalizing s with
  | nil =>
    cases h
    exact .refl
  | cons e es ih =>
    rw [run] at h
    rw [rulings]
    cases he : step host s e with
    | none => simp [he] at h
    | some p =>
      obtain ⟨o, s₁⟩ := p
      rw [he] at h
      exact (ruled_step he).trans (ih h)

private theorem passed_of_none {p : Prop} [Decidable p] {x : ZkPohError} {rest : Option ZkPohError}
    (h : (if p then some x else rest) = none) : ¬ p ∧ rest = none := by
  split_ifs at h with hp
  exact ⟨hp, h⟩

theorem proven_of_error_none {subject : Address} {submission : ZkProofSubmission}
    (h : s.zkProofError host.verifier host.userIdentifierHash subject submission ctx.timestamp
      ctx.number = none) :
    Proven host s.zk.selfScope s.zk.identityPin s.zk.ofacPin ctx subject submission
      ⟨submission.signals⟩ := by
  unfold zkProofError at h
  obtain ⟨-, h⟩ := passed_of_none h
  obtain ⟨-, h⟩ := passed_of_none h
  obtain ⟨hscope, h⟩ := passed_of_none h
  obtain ⟨-, h⟩ := passed_of_none h
  obtain ⟨hholder, h⟩ := passed_of_none h
  obtain ⟨hcontext, h⟩ := passed_of_none h
  obtain ⟨hfresh, h⟩ := passed_of_none h
  obtain ⟨hidentity, h⟩ := passed_of_none h
  obtain ⟨hofac, h⟩ := passed_of_none h
  cases hsubject : s.zkSubjectError subject with
  | some x =>
    rw [hsubject] at h
    cases h
  | none =>
    rw [hsubject] at h
    obtain ⟨-, h⟩ := passed_of_none h
    obtain ⟨-, h⟩ := passed_of_none h
    obtain ⟨hverified, -⟩ := passed_of_none h
    refine ⟨rfl, not_not.mp hscope, recent_iff_accepted.mp (by simpa using hidentity),
      fun kind => ?_, not_not.mp hholder, not_not.mp hcontext, by simpa using hfresh,
      by simpa using hverified⟩
    have hall : s.ofacRootsAccepted ⟨submission.signals⟩ ctx.number = true := by simpa using hofac
    rw [ofacRootsAccepted, List.all_eq_true] at hall
    refine recent_iff_ofacAccepted.mp (hall kind ?_)
    revert kind
    decide

-- A passport that a step accepts is presented by its transaction, and proven in its state.
theorem proven_step {n : Hash} {a : Address} (h : step host s e = some (o, s'))
    (htaken : (n, a) ∈ taken e o) : ∃ tx submission, e.action = .tx tx ∧ tx.from_ = a ∧
      tx.kind = .SubmitZkPassportProof submission ∧ submission.signals SELF_IDX_NULLIFIER = n ∧
      Proven host s.zk.selfScope s.zk.identityPin s.zk.ofacPin e.ctx a submission
        ⟨submission.signals⟩ := by
  unfold step at h
  unfold taken at htaken
  cases haction : e.action with
  | sweeps => simp [haction] at htaken
  | refresh => simp [haction] at htaken
  | tx tx =>
    rw [haction] at h htaken
    dsimp only at h htaken
    split_ifs at htaken with ho
    · obtain ⟨m, hm, hpair⟩ := Option.map_eq_some_iff.mp (Option.mem_toList.mp htaken)
      cases hpair
      cases hk : tx.kind with
      | SubmitZkPassportProof submission =>
        simp only [passportOf, hk] at hm
        cases hm
        refine ⟨tx, submission, rfl, rfl, hk, rfl, ?_⟩
        obtain ⟨hno, -⟩ | ⟨s₀, r, s₁, hbefore, hoperates, -, hr⟩ := applyTx_operates h
        · rw [hno] at ho
          cases ho
        · rw [ho] at hr
          simp only [Operates, hk, hubOp] at hoperates
          have hnone : s₀.zkProofError host.verifier host.userIdentifierHash tx.from_ submission
              e.ctx.timestamp e.ctx.number = none := by
            rw [submitZkPassportProof] at hoperates
            cases herror : s₀.zkProofError host.verifier host.userIdentifierHash tx.from_
                submission e.ctx.timestamp e.ctx.number with
            | none => rfl
            | some x =>
              rw [herror] at hoperates
              cases hoperates
              cases hr
          have hproven := proven_of_error_none hnone
          rw [hbefore.zk rfl] at hproven
          exact hproven
      | _ => simp [passportOf, hk] at hm
    · cases htaken

end

namespace Genesis

theorem zk_state (g : Genesis) : g.state.zk = g.seedZk := by
  have hjurors : ∀ s : MemState,
      (g.jurors.foldl (fun s j => s.registerJuror j.1 j.2) s).zk = s.zk :=
    Run.foldl_keeps (f := fun s j => s.registerJuror j.1 j.2) MemState.zk (fun _ _ => rfl) g.jurors
  have hhumans : ∀ s : MemState, (g.humans.foldl (seedHuman g.time) s).zk = s.zk :=
    Run.foldl_keeps (f := seedHuman g.time) MemState.zk (fun _ _ => rfl) g.humans
  have haccounts : ∀ s : MemState, (g.accounts.foldl seedAccount s).zk = s.zk :=
    Run.foldl_keeps (f := seedAccount) MemState.zk (fun _ _ => rfl) g.accounts
  simp only [Genesis.state, hjurors, hhumans, haccounts]

theorem identityPin_seeded (roots : List Hash) (zk : ZkRegistry) (root : Hash) :
    (roots.foldl seedIdentityRoot zk).identityPin root =
      if root ∈ roots then some 0#64 else zk.identityPin root := by
  induction roots generalizing zk with
  | nil => rfl
  | cons r roots ih =>
    rw [List.foldl_cons, ih]
    have hseed : (seedIdentityRoot zk r).identityPin root =
        if r = root then some 0#64 else zk.identityPin root := by
      rw [identityPin, seedIdentityRoot, Table.get_put,
        apply_ite (Option.map SelfIdentityRoot.pinnedAtBlock)]
      rfl
    rw [hseed]
    by_cases hroot : r = root
    · simp [hroot]
    · simp [hroot, Ne.symm hroot]

theorem ofacPin_seeded (roots : List (U8 × Hash)) (zk : ZkRegistry) (kind : U8) (root : Hash) :
    (roots.foldl seedOfacRoot zk).ofacPin kind root =
      if (kind, root) ∈ roots then some 0#64 else zk.ofacPin kind root := by
  induction roots generalizing zk with
  | nil => rfl
  | cons r roots ih =>
    rw [List.foldl_cons, ih]
    have hseed : (seedOfacRoot zk r).ofacPin kind root =
        if r = (kind, root) then some 0#64 else zk.ofacPin kind root := by
      rw [ofacPin, seedOfacRoot, Table.get_put,
        apply_ite (Option.map SelfOfacRoot.pinnedAtBlock)]
      simp only [toLex_inj, Prod.eta]
      rfl
    rw [hseed]
    by_cases hroot : r = (kind, root)
    · simp [hroot]
    · simp [hroot, Ne.symm hroot]

theorem ruled_seedZk (g : Genesis) : g.seedZk.cscaGovernance = g.governance ∧
    g.seedZk.selfScope = g.scope ∧ g.seedZk.identityPin = g.identitySince [] ∧
    g.seedZk.ofacPin = g.ofacSince [] := by
  have hkeeps : ∀ {β : Type} (read : ZkRegistry → β),
      (∀ zk root, read (seedIdentityRoot zk root) = read zk) →
      (∀ zk root, read (seedOfacRoot zk root) = read zk) →
      read g.seedZk = read { cscaGovernance := g.governance, selfScope := g.scope } := by
    intro β read hidentity hofac
    exact (Run.foldl_keeps read hofac g.ofacRoots _).trans
      (Run.foldl_keeps read hidentity g.identityRoots _)
  refine ⟨hkeeps ZkRegistry.cscaGovernance (fun _ _ => rfl) (fun _ _ => rfl),
    hkeeps ZkRegistry.selfScope (fun _ _ => rfl) (fun _ _ => rfl), ?_, ?_⟩
  · funext root
    have hofac : g.seedZk.identityPin root = _ :=
      Run.foldl_keeps (f := seedOfacRoot) (fun zk : ZkRegistry => zk.identityPin root)
        (fun _ _ => rfl) g.ofacRoots _
    rw [hofac, identityPin_seeded]
    rfl
  · funext kind root
    rw [seedZk, ofacPin_seeded]
    have hidentity : ∀ zk : ZkRegistry, (g.identityRoots.foldl seedIdentityRoot zk).ofacPin kind root =
        zk.ofacPin kind root :=
      Run.foldl_keeps (f := seedIdentityRoot) (fun zk : ZkRegistry => zk.ofacPin kind root)
        (fun _ _ => rfl) g.identityRoots
    rw [hidentity]
    rfl

end Genesis

-- The trust of a chain is what its governance has made of that of the genesis: each root stands
-- as the last ruling on it left it, no one else rules, and a passport is accepted only where its
-- roots stand, for the scope of the genesis and for its own sender.
theorem trust_is_governed {host : Host} (g : Genesis) {es : List Event} {s : MemState}
    (hrun : run host g.state es = some s) :
    s.zk.cscaGovernance = g.governance ∧ s.zk.selfScope = g.scope ∧
    (∀ root, s.zk.identityPin root = g.identitySince (rulings host g.state es) root) ∧
    (∀ kind root, s.zk.ofacPin kind root = g.ofacSince (rulings host g.state es) kind root) ∧
    (∀ r ∈ rulings host g.state es, g.governance = some r.authority) ∧
    ∀ e o s' n a, step host s e = some (o, s') → (n, a) ∈ taken e o →
      ∃ tx submission, e.action = .tx tx ∧ tx.from_ = a ∧
        tx.kind = .SubmitZkPassportProof submission ∧
        submission.signals SELF_IDX_NULLIFIER = n ∧
        Proven host g.scope (g.identitySince (rulings host g.state es))
          (g.ofacSince (rulings host g.state es)) e.ctx a submission ⟨submission.signals⟩ := by
  have hruled := ruled_run hrun
  rw [g.zk_state] at hruled
  obtain ⟨hgovernance₀, hscope₀, hidentity₀, hofac₀⟩ := g.ruled_seedZk
  have hgovernance : s.zk.cscaGovernance = g.governance := hruled.governance.trans hgovernance₀
  have hscope : s.zk.selfScope = g.scope := hruled.scope.trans hscope₀
  have hidentity : s.zk.identityPin = g.identitySince (rulings host g.state es) := by
    funext root
    rw [hruled.identity, hidentity₀]
    rfl
  have hofac : s.zk.ofacPin = g.ofacSince (rulings host g.state es) := by
    funext kind root
    rw [hruled.ofac, hofac₀]
    rfl
  refine ⟨hgovernance, hscope, fun root => by rw [hidentity], fun kind root => by rw [hofac],
    fun r hr => ?_, fun e o s' n a hstep htaken => ?_⟩
  · rw [← hgovernance₀]
    exact hruled.authority r hr
  · rw [← hscope, ← hidentity, ← hofac]
    exact proven_step hstep htaken

-- A chain whose governance is yet to pin the identity root.
def governedNet : Genesis :=
  { passportNet with
    accounts := [(4#160, UBI), (5#160, UBI), (9#160, UBI)]
    governance := some 9#160
    identityRoots := [] }

def pinning (sender : Address) : Event :=
  { ctx := { timestamp := 946684800#64, number := 1#64, blockHash := 0#256 }
    action := .tx
      { txHash := 0#256, from_ := sender, nonce := 0#64, value := 0#128
        kind := .PinSelfIdentityRoot 0#256 } }

-- Only the pin of the governance is carried out. The passport is accepted on it.
theorem trust_is_governed_pinned :
    (rulings mockHost governedNet.state [pinning 4#160, pinning 9#160]).map Ruling.authority =
      [9#160] ∧
    ∃ s, run mockHost governedNet.state [pinning 4#160, pinning 9#160] = some s ∧
      s.zk.identityPin 0#256 = some 1#64 ∧
      ∃ tx submission, (presenting 5#160 0#64 7#256).action = .tx tx ∧ tx.from_ = 5#160 ∧
        tx.kind = .SubmitZkPassportProof submission ∧
        submission.signals SELF_IDX_NULLIFIER = 7#256 ∧
        Proven mockHost governedNet.scope
          (governedNet.identitySince
            (rulings mockHost governedNet.state [pinning 4#160, pinning 9#160]))
          (governedNet.ofacSince
            (rulings mockHost governedNet.state [pinning 4#160, pinning 9#160]))
          (presenting 5#160 0#64 7#256).ctx 5#160 submission ⟨submission.signals⟩ := by
  refine ⟨by decide +kernel, ?_⟩
  have haccepted : (run mockHost governedNet.state [pinning 4#160, pinning 9#160]).bind (fun s =>
      (step mockHost s (presenting 5#160 0#64 7#256)).map fun r =>
        (s.zk.identityPin 0#256, taken (presenting 5#160 0#64 7#256) r.1)) =
      some (some 1#64, [(7#256, 5#160)]) := by decide +kernel
  obtain ⟨s, hrun, hs⟩ := Option.bind_eq_some_iff.mp haccepted
  obtain ⟨⟨o, s'⟩, hstep, hr⟩ := Option.map_eq_some_iff.mp hs
  obtain ⟨hpin, htaken⟩ := Prod.mk.inj hr
  obtain ⟨-, -, -, -, -, hproven⟩ := trust_is_governed governedNet hrun
  refine ⟨s, hrun, hpin, hproven (presenting 5#160 0#64 7#256) o s' 7#256 5#160 hstep ?_⟩
  rw [htaken]
  exact List.mem_singleton_self _

end Ubi2.Exec
