import Mathlib.Logic.Function.Basic
import Ubi2.Exec.Statuses
import Ubi2.Rpc.Serving

namespace Ubi2.Rpc

open Ubi2.Runtime Ubi2.Runtime.MemState Ubi2.Lib Ubi2.Lib.Encode Ubi2.Exec

-- The address a token id is of, when no bit above an address is set.
def addrOfTokenId (tokenId : U256) : Option Address :=
  if tokenId >>> 160 ≠ 0#256 then none else some (tokenId.setWidth 160)

-- The owner of a token: its human, while verified.
def pohOwnerOf (s : MemState) (tokenId : U256) : Except String Address :=
  match addrOfTokenId tokenId with
  | none => .error "ERC721: invalid token"
  | some addr =>
    if s.statusOf addr = some .Verified then .ok addr
    else .error "ERC721: owner query for nonexistent token"

-- The holders of the tokens, as a collection keeps them: the zero address holds what does
-- not exist.
abbrev Holders := U256 → Address

def holdersOf (s : MemState) : Holders := fun tokenId =>
  match pohOwnerOf s tokenId with
  | .ok addr => addr
  | .error _ => 0#160

structure TokenTransfer where
  from_ : Address
  to_ : Address
  tokenId : U256
deriving DecidableEq

-- The transfer of a token of the collection that a log tells of.
def pohTransfer (host : NodeHost) (log : TxLog) : Option TokenTransfer :=
  match log.topics with
  | [signature, from_, to_, tokenId] =>
    if log.address = HUMANITY_HUB ∧ signature = transferTopic host then
      some ⟨from_.setWidth 160, to_.setWidth 160, tokenId⟩
    else none
  | _ => none

-- A mint takes a token that no one holds, a burn one from its holder. No other transfer is
-- told of.
def replayLog (host : NodeHost) (holders : Holders) (log : TxLog) : Option Holders :=
  match pohTransfer host log with
  | none => some holders
  | some t =>
    if (t.from_ = 0#160 ∨ t.to_ = 0#160) ∧ holders t.tokenId = t.from_ then
      some (Function.update holders t.tokenId t.to_)
    else none

def replayLogs (host : NodeHost) : List TxLog → Holders → Option Holders
  | [], holders => some holders
  | log :: logs, holders => (replayLog host holders log).bind (replayLogs host logs)

def Block.logs (b : Block) : List TxLog := b.txs.flatMap StoredTx.logs

theorem addrOfTokenId_tokenIdOf (a : Address) : addrOfTokenId (tokenIdOf a) = some a := by
  have hhigh : tokenIdOf a >>> 160 = 0#256 := by
    apply BitVec.eq_of_toNat_eq
    have hlt := a.isLt
    simp only [tokenIdOf, BitVec.toNat_ushiftRight, BitVec.toNat_setWidth, BitVec.toNat_ofNat]
    omega
  have hlow : (tokenIdOf a).setWidth 160 = a := by
    apply BitVec.eq_of_toNat_eq
    have hlt := a.isLt
    simp only [tokenIdOf, BitVec.toNat_setWidth]
    omega
  rw [addrOfTokenId, if_neg (not_not.mpr hhigh), hlow]

theorem addrOfTokenId_eq_some {tokenId : U256} {a : Address}
    (h : addrOfTokenId tokenId = some a) : tokenId = tokenIdOf a := by
  rw [addrOfTokenId] at h
  split_ifs at h with hhigh
  cases h
  apply BitVec.eq_of_toNat_eq
  have hzero := congrArg BitVec.toNat (not_not.mp hhigh)
  have hlt := tokenId.isLt
  simp only [BitVec.toNat_ushiftRight, BitVec.toNat_ofNat] at hzero
  simp only [tokenIdOf, BitVec.toNat_setWidth]
  omega

section
variable {host : NodeHost} {s s' s'' : MemState} {logs logs' : List TxLog}

theorem pohOwnerOf_eq_ok {tokenId : U256} {a : Address} :
    pohOwnerOf s tokenId = .ok a ↔ tokenId = tokenIdOf a ∧ s.statusOf a = some .Verified := by
  rw [pohOwnerOf]
  constructor
  · intro h
    split at h
    · cases h
    · rename_i b haddr
      split_ifs at h with hverified
      cases h
      exact ⟨addrOfTokenId_eq_some haddr, hverified⟩
  · rintro ⟨rfl, hverified⟩
    rw [addrOfTokenId_tokenIdOf]
    exact if_pos hverified

theorem holdersOf_tokenIdOf (s : MemState) (a : Address) :
    holdersOf s (tokenIdOf a) = if s.statusOf a = some .Verified then a else 0#160 := by
  rw [holdersOf, pohOwnerOf, addrOfTokenId_tokenIdOf]
  dsimp only
  split_ifs <;> rfl

-- The holders follow from the statuses.
theorem holdersOf_eq_of {tokenId : U256}
    (h : ∀ a, tokenId = tokenIdOf a → s'.statusOf a = s.statusOf a) :
    holdersOf s' tokenId = holdersOf s tokenId := by
  rw [holdersOf, holdersOf, pohOwnerOf, pohOwnerOf]
  cases haddr : addrOfTokenId tokenId with
  | none => rfl
  | some a =>
    dsimp only
    rw [h a (addrOfTokenId_eq_some haddr)]

theorem holdersOf_update {a : Address} (h : ∀ b, b ≠ a → s'.statusOf b = s.statusOf b) :
    holdersOf s' =
      Function.update (holdersOf s) (tokenIdOf a) (holdersOf s' (tokenIdOf a)) := by
  funext tokenId
  rw [Function.update_apply]
  split_ifs with hid
  · rw [hid]
  · refine holdersOf_eq_of ?_
    rintro b rfl
    exact h b fun hab => hid (congrArg tokenIdOf hab)

theorem replayLogs_append (logs logs' : List TxLog) (holders : Holders) :
    replayLogs host (logs ++ logs') holders =
      (replayLogs host logs holders).bind (replayLogs host logs') := by
  induction logs generalizing holders with
  | nil => rfl
  | cons log logs ih =>
    rw [List.cons_append, replayLogs, replayLogs, Option.bind_assoc]
    exact congrArg _ (funext fun _ => ih _)

-- The logs tell how the holders of one state become those of the other.
def Tells (host : NodeHost) (s : MemState) (logs : List TxLog) (s' : MemState) : Prop :=
  replayLogs host logs (holdersOf s) = some (holdersOf s')

namespace Tells

theorem trans (h : Tells host s logs s') (h' : Tells host s' logs' s'') :
    Tells host s (logs ++ logs') s'' := by
  rw [Tells, replayLogs_append, h]
  exact h'

-- Logs that are of no transfer.
theorem silent (hsilent : ∀ log ∈ logs, pohTransfer host log = none)
    (h : s'.statusOf = s.statusOf) : Tells host s logs s' := by
  induction logs with
  | nil =>
    have hsame : holdersOf s' = holdersOf s :=
      funext fun _ => holdersOf_eq_of fun a _ => congrFun h a
    rw [Tells, hsame]
    rfl
  | cons log logs ih =>
    rw [List.forall_mem_cons] at hsilent
    rw [Tells, replayLogs, replayLog, hsilent.1]
    exact ih hsilent.2

theorem nil (h : s'.statusOf = s.statusOf) : Tells host s [] s' :=
  silent (by simp) h

theorem silent_append (hsilent : ∀ log ∈ logs, pohTransfer host log = none)
    (h : Tells host s logs' s') : Tells host s (logs ++ logs') s' :=
  (silent hsilent rfl).trans h

end Tells

theorem pohTransfer_mint (host : NodeHost) (a : Address) :
    pohTransfer host (pohMintLog host a) = some ⟨0#160, a, tokenIdOf a⟩ := by
  have hword : (addrTopic a).setWidth 160 = a := by
    rw [addrTopic, BitVec.setWidth_setWidth_of_le _ (by decide), BitVec.setWidth_eq]
  simp only [pohTransfer, pohMintLog, true_and, if_true, hword]
  rfl

theorem pohTransfer_burn (host : NodeHost) (a : Address) :
    pohTransfer host (pohBurnLog host a) = some ⟨a, 0#160, tokenIdOf a⟩ := by
  have hword : (addrTopic a).setWidth 160 = a := by
    rw [addrTopic, BitVec.setWidth_setWidth_of_le _ (by decide), BitVec.setWidth_eq]
  simp only [pohTransfer, pohBurnLog, true_and, if_true, hword]
  rfl

-- The logs of a status are the transfer that it makes, when given the status before it.
theorem tells_humanityStatusLogs {a : Address} {status : HumanStatus}
    (hothers : ∀ b, b ≠ a → s'.statusOf b = s.statusOf b) (hstatus : s'.statusOf a = some status) :
    Tells host s (humanityStatusLogs host a (s.statusOf a) status) s' := by
  have hholders := holdersOf_update hothers
  have hbefore := holdersOf_tokenIdOf s a
  have hafter := holdersOf_tokenIdOf s' a
  simp only [hstatus, Option.some_inj] at hafter
  have hchanged : ∀ log ∈ [statusChangedLog host a status], pohTransfer host log = none := by
    simp [pohTransfer, statusChangedLog]
  have hlogs : humanityStatusLogs host a (s.statusOf a) status =
      [statusChangedLog host a status] ++
        (if status = .Verified ∧ ¬ s.statusOf a = some .Verified then [pohMintLog host a]
         else if s.statusOf a = some .Verified ∧ ¬ status = .Verified then [pohBurnLog host a]
         else []) := rfl
  rw [hlogs]
  refine Tells.silent_append hchanged ?_
  by_cases hwas : s.statusOf a = some .Verified
  · rw [if_pos hwas] at hbefore
    by_cases hverified : status = .Verified
    · rw [if_pos hverified] at hafter
      rw [if_neg (fun hmint => hmint.2 hwas), if_neg (fun hburn => hburn.2 hverified), Tells,
        hholders, hafter.trans hbefore.symm, Function.update_eq_self]
      rfl
    · rw [if_neg hverified] at hafter
      rw [if_neg (fun hmint => hverified hmint.1), if_pos ⟨hwas, hverified⟩, Tells, replayLogs,
        replayLog, pohTransfer_burn]
      dsimp only
      rw [if_pos ⟨Or.inr rfl, hbefore⟩, hholders, hafter]
      rfl
  · rw [if_neg hwas] at hbefore
    by_cases hverified : status = .Verified
    · rw [if_pos hverified] at hafter
      rw [if_pos ⟨hverified, hwas⟩, Tells, replayLogs, replayLog, pohTransfer_mint]
      dsimp only
      rw [if_pos ⟨Or.inl rfl, hbefore⟩, hholders, hafter]
      rfl
    · rw [if_neg hverified] at hafter
      rw [if_neg (fun hmint => hverified hmint.1), if_neg (fun hburn => hwas hburn.1), Tells,
        hholders, hafter.trans hbefore.symm, Function.update_eq_self]
      rfl

-- A status that is set is told of.
theorem tells_update {a : Address} {status : HumanStatus}
    (h : s'.statusOf = Function.update s.statusOf a (some status)) :
    Tells host s (humanityStatusLogs host a (s.statusOf a) status) s' := by
  refine tells_humanityStatusLogs ?_ ?_
  · intro b hb
    rw [h, Function.update_of_ne hb]
  · rw [h, Function.update_self]

theorem pohTransfer_case (host : NodeHost) (c : Option Case) :
    ∀ log ∈ c.toList.map (caseOpenedLog host), pohTransfer host log = none := by
  intro log hlog
  obtain ⟨c, -, rfl⟩ := List.mem_map.mp hlog
  rfl

theorem pohTransfer_execCase (host : NodeHost) (c : Option ExecCase) :
    ∀ log ∈ (c.bind (execCaseOutcomeLog host)).toList, pohTransfer host log = none := by
  intro log hlog
  obtain ⟨c, -, hc⟩ := Option.bind_eq_some_iff.mp (Option.mem_toList.mp hlog)
  cases hstatus : c.status with
  | Open =>
    rw [execCaseOutcomeLog, hstatus] at hc
    cases hc
  | Committed effect =>
    rw [execCaseOutcomeLog, hstatus] at hc
    cases hc
    rfl
  | Aborted =>
    rw [execCaseOutcomeLog, hstatus] at hc
    cases hc
    rfl

-- The logs of an operation that succeeded tell what it did to the statuses.
theorem tells_buildOpLogs {p : PendingTx} (result : OpResult)
    (h : Rules (kernelTxFromPending p) s s') :
    Tells host s (buildOpLogs host s' p result (preStatusForSubject s p)) s' := by
  have hkind : (kernelTxFromPending p).kind = p.kind := rfl
  have hfrom : (kernelTxFromPending p).from_ = p.from_ := rfl
  unfold Rules at h
  simp only [hkind, hfrom] at h
  unfold buildOpLogs preStatusForSubject
  cases hk : p.kind with
  | Transfer to_ value =>
    simp only [hk] at h ⊢
    exact .nil h
  | Vouch vouchee =>
    simp only [hk] at h ⊢
    exact .nil h
  | FundContract id =>
    simp only [hk] at h ⊢
    exact .nil h
  | OpenStream to_ rate deposit =>
    simp only [hk] at h ⊢
    refine .silent ?_ h
    cases result with
    | StreamId id => simp [streamOpenLogs, pohTransfer, STREAM_HUB, HUMANITY_HUB]
    | _ => simp
  | StopStream id =>
    simp only [hk] at h ⊢
    exact .silent (by simp [streamStopLogs, pohTransfer]) h
  | RequestVerification livenessRef =>
    simp only [hk] at h ⊢
    obtain ⟨hunverified, hstatus⟩ := h
    have hlogs : [statusChangedLog host p.from_ .Pending] =
        humanityStatusLogs host p.from_ (s.statusOf p.from_) .Pending := by
      simp [humanityStatusLogs, hunverified]
    refine Tells.silent_append ?_ (hlogs ▸ tells_update hstatus)
    cases result with
    | CaseId caseId => exact pohTransfer_case host _
    | _ => simp
  | Challenge subject evidenceRef =>
    simp only [hk] at h ⊢
    refine Tells.silent_append ?_ ?_
    · cases result with
      | CaseId caseId => exact pohTransfer_case host _
      | _ => simp
    rcases h with ⟨hverified, hstatus⟩ | ⟨hpending, hsame⟩
    · have hafter : s'.statusOf subject = some .Challenged := by
        rw [hstatus, Function.update_self]
      obtain ⟨x, hget, hx⟩ := Option.map_eq_some_iff.mp hafter
      simp only [hget, hx, if_true, ← hverified]
      exact tells_update hstatus
    · have hafter : s'.statusOf subject = some .Pending := by rw [hsame, hpending]
      obtain ⟨x, hget, hx⟩ := Option.map_eq_some_iff.mp hafter
      simp only [hget, hx]
      exact .nil hsame
  | SubmitVerdict caseId verdict =>
    simp only [hk] at h ⊢
    obtain ⟨c, hcase, hothers, hgone⟩ := h
    have hverdict : ∀ log ∈ [verdictSubmittedLog host caseId p.from_ verdict.verdict],
        pohTransfer host log = none := by
      simp [verdictSubmittedLog, pohTransfer]
    refine Tells.silent_append hverdict ?_
    have hunmoved : s'.statusOf c.subject = s.statusOf c.subject → s'.statusOf = s.statusOf := by
      intro hsubject
      funext a
      by_cases ha : a = c.subject
      · rw [ha, hsubject]
      · exact hothers a ha
    simp only [hcase, Option.map_some]
    cases hget : s'.getHuman c.subject with
    | none =>
      have hnone : s'.statusOf c.subject = none := by rw [statusOf, hget, Option.map_none]
      exact .nil (hunmoved (hnone.trans (hgone hnone).symm))
    | some x =>
      have hafter := statusOf_of_get hget
      dsimp only
      split_ifs with hmoved
      · exact tells_humanityStatusLogs hothers hafter
      · exact .nil (hunmoved (hafter.trans (not_not.mp hmoved)))
  | SubmitZkPassportProof submission =>
    simp only [hk] at h ⊢
    refine Tells.silent_append ?_ ?_
    · cases result with
      | Assurance a => simp [zkVerifiedLog, pohTransfer]
      | _ => simp
    show Tells host s (if s.statusOf p.from_ ≠ some .Verified then
      humanityStatusLogs host p.from_ (s.statusOf p.from_) .Verified else []) s'
    by_cases hverified : s.statusOf p.from_ = some .Verified
    · rw [if_neg (not_not.mpr hverified)]
      refine .nil ?_
      have hsame := Function.update_eq_self p.from_ s.statusOf
      rw [hverified] at hsame
      exact h.trans hsame
    · rw [if_pos hverified]
      exact tells_update h
  | RegisterCsca countryCode keyId pubkey =>
    simp only [hk] at h ⊢
    exact .silent (by simp [pohTransfer]) h
  | RevokeCsca keyId =>
    simp only [hk] at h ⊢
    exact .silent (by simp [pohTransfer]) h
  | PinSelfIdentityRoot root =>
    simp only [hk] at h ⊢
    exact .silent (by simp [pohTransfer]) h
  | PinSelfOfacRoot kind root =>
    simp only [hk] at h ⊢
    exact .silent (by simp [pohTransfer]) h
  | RetireSelfRoot root =>
    simp only [hk] at h ⊢
    exact .silent (by simp [pohTransfer]) h
  | DeployContract text parties =>
    simp only [hk] at h ⊢
    refine .silent ?_ h
    cases result with
    | CaseId id => simp [contractDeployedLog, pohTransfer, CONTRACT_HUB, HUMANITY_HUB]
    | _ => simp
  | InvokeContract id triggerRef =>
    simp only [hk] at h ⊢
    refine .silent ?_ h
    cases result with
    | CaseId caseId =>
      rw [List.forall_mem_cons]
      refine ⟨?_, pohTransfer_execCase host _⟩
      simp [contractCaseOpenedLog, pohTransfer, CONTRACT_HUB, HUMANITY_HUB]
    | _ => simp
  | SubmitEffect caseId effect =>
    simp only [hk] at h ⊢
    exact .silent (pohTransfer_execCase host _) h

-- What a block in the making keeps: the logs of its transactions tell the statuses from those
-- of its start.
structure Told (host : NodeHost) (s : MemState) (m : Mined) : Prop where
  docket : m.state.Docket
  tells : Tells host s (m.stored.flatMap StoredTx.logs) m.state

namespace Told

variable {m m' : Mined} {ctx : BlockCtx} {number i : Nat} {p : PendingTx}
variable {pending : List PendingTx}

theorem store (h : Told host s m) {tx : StoredTx} {extra : List Address} (hdocket : s'.Docket)
    (htells : Tells host m.state tx.logs s') :
    Told host s (({ m with state := s' } : Mined).store tx extra) := by
  refine ⟨hdocket, ?_⟩
  show Tells host s ((m.stored ++ [tx]).flatMap StoredTx.logs) s'
  rw [List.flatMap_append, List.flatMap_singleton]
  exact h.tells.trans htells

theorem mineTx (h : Told host s m) (hmine : Rpc.mineTx host ctx number i p m = some m') :
    Told host s m' := by
  obtain ⟨⟨o, s'⟩, happly, rfl⟩ := Option.map_eq_some_iff.mp hmine
  have hchanges : Changes (fun _ _ => True) m.state s' :=
    changes_applyTx (fun _ _ => trivial) happly
  have hdocket := docket_changes hchanges h.docket
  rcases rules_applyTx h.docket happly with ⟨hfailed, hsame⟩ | ⟨result, rfl, hrules⟩
  · cases o with
    | none =>
      refine ⟨hdocket, ?_⟩
      have htold := h.tells.trans (.nil hsame)
      rwa [List.append_nil] at htold
    | some outcome =>
      have hsuccess : outcome.success = false := by simpa using hfailed
      refine h.store hdocket ?_
      simp only [minedTx, hsuccess, Bool.false_eq_true, if_false]
      exact .nil hsame
  · exact h.store hdocket (tells_buildOpLogs result hrules)

theorem mineTxs (h : Told host s m)
    (hmine : Rpc.mineTxs host ctx number i pending m = some m') : Told host s m' := by
  induction pending generalizing i m with
  | nil =>
    cases hmine
    exact h
  | cons p pending ih =>
    obtain ⟨m₁, hfirst, hrest⟩ := Option.bind_eq_some_iff.mp hmine
    exact ih (h.mineTx hfirst) hrest

end Told

-- What the sweep of challenges keeps: the applicants stay pending, and the logs are of cases.
structure Scanned (host : NodeHost) (s : MemState) (acc : List TxLog × MemState) : Prop where
  docket : acc.2.Docket
  status : acc.2.statusOf = s.statusOf
  silent : ∀ log ∈ acc.1, pohTransfer host log = none

theorem Scanned.one {acc : List TxLog × MemState} {blockHash : Hash} {nowBlock : U64}
    {subject : Address} (h : Scanned host s acc) (hpending : s.statusOf subject = some .Pending) :
    Scanned host s (sweepSybilScanOne host blockHash nowBlock acc subject) := by
  rw [sweepSybilScanOne]
  split_ifs with hverdict
  · exact h
  cases hres : acc.2.systemChallenge host.usizeBits HUMANITY_HUB subject
      (sybilEvidence host.toHost subject blockHash) (blockEntropy blockHash nowBlock) nowBlock with
  | mk r s₁ =>
    have hchange : Changes (fun _ _ => True) acc.2 s₁ := changes_challengeInner acc.2 hres
    have hdocket := docket_changes hchange h.docket
    rcases statusOf_challengeInner h.docket hres with
      ⟨⟨e, rfl⟩, hsame⟩ | ⟨⟨caseId, rfl⟩, ⟨hverified, -⟩ | ⟨-, hsame⟩⟩
    · exact ⟨hdocket, hsame.trans h.status, h.silent⟩
    · rw [h.status, hpending] at hverified
      cases hverified
    · refine ⟨hdocket, hsame.trans h.status, ?_⟩
      intro log hlog
      rcases List.mem_append.mp hlog with hlog | hlog
      · exact h.silent log hlog
      · exact pohTransfer_case host _ log hlog

theorem Scanned.all {acc : List TxLog × MemState} {blockHash : Hash} {nowBlock : U64}
    {subjects : List Address} (h : Scanned host s acc)
    (hpending : ∀ a ∈ subjects, s.statusOf a = some .Pending) :
    Scanned host s (subjects.foldl (sweepSybilScanOne host blockHash nowBlock) acc) := by
  induction subjects generalizing acc with
  | nil => exact h
  | cons a subjects ih =>
    rw [List.forall_mem_cons] at hpending
    exact ih (h.one hpending.1) hpending.2

-- What the sweep of registrations keeps: its logs tell whom it has verified.
structure Finalized (host : NodeHost) (s : MemState) (acc : List TxLog × MemState) : Prop where
  docket : acc.2.Docket
  tells : Tells host s acc.1 acc.2

theorem Finalized.one {acc : List TxLog × MemState} {nowBlock verifiedAtSecs : U64}
    {subject : Address} (h : Finalized host s acc) :
    Finalized host s (sweepFinalizeOne host nowBlock verifiedAtSecs acc subject) := by
  rw [sweepFinalizeOne]
  cases hres : acc.2.finalizeRegistration subject nowBlock verifiedAtSecs with
  | mk r s₁ =>
    have hchange : Changes (fun _ _ => True) acc.2 s₁ := changes_finalizeRegistration acc.2 hres
    have hdocket := docket_changes hchange h.docket
    rcases statusOf_finalizeRegistration hres with ⟨⟨e, rfl⟩, hsame⟩ | ⟨rfl, hpending, hstatus⟩
    · have htells := h.tells.trans (.nil hsame)
      rw [List.append_nil] at htells
      exact ⟨hdocket, htells⟩
    · refine ⟨hdocket, h.tells.trans ?_⟩
      rw [← hpending]
      exact tells_update hstatus

-- The sweeps of a block, with the transaction that carries their logs.
theorem Told.mineSweeps {m : Mined} (h : Told host s m) (ctx : BlockCtx) (number : Nat) :
    Told host s (Rpc.mineSweeps host ctx number m) := by
  have hscan : Scanned host m.state (sweepSybilScan host m.state ctx.blockHash ctx.number) :=
    Scanned.all ⟨h.docket, rfl, by simp⟩ fun _ => statusOf_of_mem_pendingHumans
  have hfinal : Finalized host (sweepSybilScan host m.state ctx.blockHash ctx.number).2
      (sweepFinalize host (sweepSybilScan host m.state ctx.blockHash ctx.number).2 ctx.number
        ctx.timestamp) :=
    Run.foldl_invariant (fun _ _ h => h.one) _ ⟨hscan.docket, .nil rfl⟩
  have htells := Tells.trans (.silent hscan.silent hscan.status) hfinal.tells
  rw [Rpc.mineSweeps]
  dsimp only
  split_ifs with hnone
  · rw [hnone] at htells
    refine ⟨hfinal.docket, ?_⟩
    have htold := h.tells.trans htells
    rwa [List.append_nil] at htold
  · exact h.store hfinal.docket htells

end

-- The chains of executed blocks above a genesis, with the states they lead to. The validators
-- may be seeded before a block is executed.
inductive Executed (host : NodeHost) (g : Exec.Genesis) : List Block → MemState → Prop where
  | genesis (key : Option ProposerKey) :
      Executed host g (Chain.genesis host key g.time g.state).inner.blocks g.state
  | seeded {blocks : List Block} {s : MemState} (h : Executed host g blocks s) :
      Executed host g blocks s.refreshEpochValidators
  | block {chain chain' : Chain} {pending : List PendingTx} {timestamp : U64} {view : U32}
      {proposerOverride : Option (Address × Bytes)} {b : Block}
      (h : Executed host g chain.inner.blocks chain.inner.state)
      (hexec : chain.executeBlock host pending timestamp view proposerOverride =
        some (b, chain')) :
      Executed host g chain'.inner.blocks chain'.inner.state

section
variable {host : NodeHost} {g : Exec.Genesis} {blocks : List Block} {s : MemState}

theorem tells_mine {inner : Inner} {pending : List PendingTx} {timestamp : U64} {view : U32}
    {m : Mined} (hs : inner.state.Docket)
    (hmine : mine host inner pending timestamp view = some m) :
    m.state.Docket ∧ Tells host inner.state (m.stored.flatMap StoredTx.logs) m.state := by
  obtain ⟨m', htxs, rfl⟩ := Option.map_eq_some_iff.mp hmine
  have hstart : inner.start.state.humanity = inner.state.humanity := by
    simp only [Inner.start, blockStart]
    split_ifs <;> rfl
  have hchange : Changes (fun _ _ => True) inner.state inner.start.state := by
    simp only [Inner.start, blockStart]
    split_ifs <;> exact .single (.frame rfl rfl)
  have htold : Told host inner.state inner.start :=
    ⟨docket_changes hchange hs, .nil (statusOf_of_humanity hstart)⟩
  have hmined := (htold.mineTxs htxs).mineSweeps (inner.nextCtx host timestamp view)
    (inner.head.number + 1)
  exact ⟨hmined.docket, hmined.tells⟩

-- The logs of a block are those of its transactions, which only take its hash.
theorem logs_mineBlock (key : Option ProposerKey) (parent : Block) (userTxCount : Nat)
    (timestamp : U64) (view : U32) (proposerOverride : Option (Address × Bytes)) (m : Mined) :
    (mineBlock host key parent userTxCount timestamp view proposerOverride m).logs =
      m.stored.flatMap StoredTx.logs := by
  rw [Block.logs, mineBlock, List.flatMap_map]

theorem tells_of_executed (h : Executed host g blocks s) :
    s.Docket ∧ Tells host g.state (blocks.flatMap Block.logs) s := by
  induction h with
  | genesis key => exact ⟨g.docket, .nil rfl⟩
  | @seeded blocks s h ih =>
    obtain ⟨hdocket, htells⟩ := ih
    have hchange : Change (fun _ _ => True) s s.refreshEpochValidators := .frame rfl rfl
    refine ⟨docket_change hchange hdocket, ?_⟩
    have hsame : Tells host s [] s.refreshEpochValidators := .nil rfl
    have htold := htells.trans hsame
    rwa [List.append_nil] at htold
  | @block chain _ _ _ _ _ _ h hexec ih =>
    obtain ⟨hdocket, htells⟩ := ih
    obtain ⟨m, hmine, rfl, rfl⟩ := executeBlock_eq_some hexec
    obtain ⟨hdocket', hblock⟩ := tells_mine hdocket hmine
    refine ⟨hdocket', ?_⟩
    show Tells host g.state ((chain.inner.blocks ++ [_]).flatMap Block.logs) m.state
    rw [List.flatMap_append, List.flatMap_singleton, logs_mineBlock]
    exact htells.trans hblock

-- The transfers that the logs of a chain tell of are mints of tokens that no one holds and
-- burns of tokens by their holders, and replayed from the humans of genesis they give the
-- tokens of the humans that are verified.
theorem transfer_logs_transcript (h : Executed host g blocks s) :
    replayLogs host (blocks.flatMap Block.logs) (holdersOf g.state) = some (holdersOf s) ∧
    (∀ a, g.state.statusOf a = some .Verified ↔ a ∈ g.humans) ∧
    (∀ a, a ≠ 0#160 → (holdersOf s (tokenIdOf a) = a ↔ s.statusOf a = some .Verified)) ∧
    ∀ tokenId a, pohOwnerOf s tokenId = .ok a ↔
      tokenId = tokenIdOf a ∧ s.statusOf a = some .Verified := by
  refine ⟨(tells_of_executed h).2, g.statusOf_state, ?_, fun _ _ => pohOwnerOf_eq_ok⟩
  intro a ha
  rw [holdersOf_tokenIdOf]
  split_ifs with hverified
  · simp [hverified]
  · simp [hverified, ha.symm]

end

-- A challenge of a verified human, by another.
def challengeTx : PendingTx where
  hash := 1#256
  from_ := 1#160
  txTo := HUMANITY_HUB
  value := 0#128
  nonce := 0#64
  input := []
  kind := .Challenge 2#160 0#256
  txType := 0#8
  maxFeePerGas := none
  maxPriorityFeePerGas := none

-- It burns the token of the human it marks, and leaves those of the others.
theorem transfer_logs_transcript_challenge : ∃ blocks s,
    Executed devnetHost devnet blocks s ∧
    replayLogs devnetHost (blocks.flatMap Block.logs) (holdersOf devnet.state) =
      some (holdersOf s) ∧
    holdersOf devnet.state (tokenIdOf 2#160) = 2#160 ∧
    holdersOf s (tokenIdOf 2#160) = 0#160 ∧ holdersOf s (tokenIdOf 3#160) = 3#160 := by
  have hrun : ((Chain.genesis devnetHost none 0#64 devnet.state).executeBlock devnetHost
      [challengeTx] 7200#64 0#32 none).map (fun p => (p.2.inner.state.statusOf 2#160,
        p.2.inner.state.statusOf 3#160)) = some (some .Challenged, some .Verified) := by
    decide +kernel
  obtain ⟨⟨b, chain⟩, hexec, hstatus⟩ := Option.map_eq_some_iff.mp hrun
  obtain ⟨hmarked, hkept⟩ := Prod.mk.inj hstatus
  have hchain : Executed devnetHost devnet chain.inner.blocks chain.inner.state :=
    .block (.genesis none) hexec
  have hgenesis : devnet.state.statusOf 2#160 = some .Verified := by decide +kernel
  refine ⟨chain.inner.blocks, chain.inner.state, hchain, (transfer_logs_transcript hchain).1,
    ?_, ?_, ?_⟩
  · simp [holdersOf_tokenIdOf, hgenesis]
  · simp [holdersOf_tokenIdOf, hmarked]
  · simp [holdersOf_tokenIdOf, hkept]

end Ubi2.Rpc
