import Ubi2.Runtime.Contracts.Halting
import Ubi2.Runtime.Contracts.Submissions
import Ubi2.Runtime.Lifecycle.Passports
import Ubi2.Runtime.Lifecycle.Vouches

namespace Ubi2.Runtime

open Lib

namespace Ledger

variable {now : U64} {w : Authority} {l l' : Ledger}

-- The indexes list the streams under both of their ends, and nothing else.
structure Linked (l : Ledger) : Prop where
  outgoing : ∀ a id, id ∈ l.outgoing a ↔ ∃ s, l.getStream id = some s ∧ s.from_ = a
  incoming : ∀ a id, id ∈ l.incoming a ↔ ∃ s, l.getStream id = some s ∧ s.to_ = a

-- The pairs of an index that a new stream joins.
private theorem mem_put_pair {idx : StreamIndex} {a b : Address} {id id' : StreamId} :
    id ∈ indexed (idx.put (b, id')) a ↔ (a = b ∧ id = id') ∨ id ∈ indexed idx a := by
  rw [mem_indexed, mem_indexed, Table.mem_put]
  constructor
  · rintro (heq | ⟨hmem, -⟩)
    · exact Or.inl (Prod.mk.inj heq)
    · exact Or.inr hmem
  · rintro (⟨rfl, rfl⟩ | hmem)
    · exact Or.inl rfl
    · by_cases heq : (a, id) = (b, id')
      · exact Or.inl heq
      · exact Or.inr ⟨hmem, fun hkey => heq (toLex_inj.mp hkey)⟩

-- One end of the streams, as an index lists it.
private theorem listed_put (pick : Stream → Address) {idx : StreamIndex} {s : Stream}
    (hnone : l.getStream s.id = none)
    (hlisted : ∀ a id, id ∈ indexed idx a ↔ ∃ t, l.getStream id = some t ∧ pick t = a)
    (a : Address) (id : StreamId) : id ∈ indexed (idx.put (pick s, s.id)) a ↔
      ∃ t, (l.putStream s).getStream id = some t ∧ pick t = a := by
  rw [mem_put_pair, hlisted, getStream_putStream]
  by_cases hid : s.id = id
  · subst hid
    rw [if_pos rfl, hnone]
    simp [eq_comm]
  · rw [if_neg hid]
    have hne : ¬ (a = pick s ∧ id = s.id) := fun h => hid h.2.symm
    simp [hne]

private theorem listed_same {pick : Stream → Address} {idx : StreamIndex} {s t : Stream}
    (hs : l.getStream s.id = some t) (hpick : pick s = pick t)
    (hlisted : ∀ a id, id ∈ indexed idx a ↔ ∃ t, l.getStream id = some t ∧ pick t = a)
    (a : Address) (id : StreamId) : id ∈ indexed idx a ↔
      ∃ t, (l.putStream s).getStream id = some t ∧ pick t = a := by
  rw [hlisted, getStream_putStream]
  by_cases hid : s.id = id
  · subst hid
    rw [if_pos rfl, hs]
    simp [hpick]
  · rw [if_neg hid]

namespace Linked

theorem empty : ({} : Ledger).Linked := by
  refine ⟨fun a id => ?_, fun a id => ?_⟩ <;>
  · constructor
    · intro hid
      cases hid
    · intro hid
      obtain ⟨s, hs, -⟩ := hid
      cases hs

theorem put (h : l.Linked) (x : Account) : (l.put x).Linked := ⟨h.outgoing, h.incoming⟩

theorem putStream_new (h : l.Linked) {s : Stream} (hnone : l.getStream s.id = none) :
    (l.putStream s).Linked := by
  have hout := listed_put Stream.from_ hnone h.outgoing
  have hin := listed_put Stream.to_ hnone h.incoming
  refine ⟨fun a id => ?_, fun a id => ?_⟩
  · rw [← hout, Ledger.outgoing, putStream_of_none l hnone]
  · rw [← hin, Ledger.incoming, putStream_of_none l hnone]

-- A stream that is written again has the ends it had.
theorem putStream_same (h : l.Linked) {s t : Stream} (hs : l.getStream s.id = some t)
    (hfrom : s.from_ = t.from_) (hto : s.to_ = t.to_) : (l.putStream s).Linked := by
  have hout := listed_same hs hfrom h.outgoing
  have hin := listed_same hs hto h.incoming
  refine ⟨fun a id => ?_, fun a id => ?_⟩
  · rw [← hout, Ledger.outgoing, putStream_of_some l hs]
  · rw [← hin, Ledger.incoming, putStream_of_some l hs]

theorem move (h : l.Linked) (hbooked : l.Booked) (hmove : Move now w l l') : l'.Linked := by
  cases hmove with
  | settle a => exact h.put _
  | pay a b v ha hne hv => exact (h.put _).put _
  | mint v ha => exact h.put _
  | renonce a n ha => exact h.put _
  | lock a b rate deposit ha hne hv =>
    have hput : (({ l with nextId := l.nextId + 1 } : Ledger).put
        ((l.account a).debit deposit)).Linked := ⟨h.outgoing, h.incoming⟩
    exact hput.putStream_new hbooked.getStream_nextId
  | draw s hs =>
    exact (h.put _).putStream_same (t := s) (by rw [Stream.drawTo_id]; exact hs)
      (Stream.drawTo_from s now) (Stream.drawTo_to s now)
  | close s hs ha hdone hopen => exact (h.put _).putStream_same (t := s) hs rfl rfl
  | gate a v t ha => exact h.put _

theorem moves (h : l.Linked) (hbooked : l.Booked) (hmoves : Moves now w l l') : l'.Linked := by
  have hboth : l'.Booked ∧ l'.Linked :=
    Run.invariant (P := fun l : Ledger => l.Booked ∧ l.Linked)
      (fun _ _ hmove hl => ⟨hl.1.move hmove, hl.2.move hl.1 hmove⟩) hmoves ⟨hbooked, h⟩
  exact hboth.2

-- Streams under new identifiers are written one after another.
theorem foldl_putStream {rows : List Stream} (h : l.Linked)
    (hrows : rows.Pairwise (fun s t => s.id < t.id))
    (hnew : ∀ s ∈ rows, l.getStream s.id = none) :
    (rows.foldl Ledger.putStream l).Linked ∧
      (rows.foldl Ledger.putStream l).accounts = l.accounts ∧
      (rows.foldl Ledger.putStream l).streams = rows.foldl Table.put l.streams := by
  induction rows generalizing l with
  | nil => exact ⟨h, rfl, rfl⟩
  | cons s rows ih =>
    obtain ⟨hfirst, hrest⟩ := List.pairwise_cons.mp hrows
    have hlinked := h.putStream_new (hnew s List.mem_cons_self)
    have hnext : ∀ t ∈ rows, (l.putStream s).getStream t.id = none := by
      intro t ht
      rw [getStream_putStream, if_neg (hfirst t ht).ne]
      exact hnew t (List.mem_cons_of_mem s ht)
    obtain ⟨hl, haccounts, hstreams⟩ := ih hlinked hrest hnext
    refine ⟨hl, haccounts.trans ?_, hstreams.trans ?_⟩
    · rw [putStream_accounts]
    · rw [putStream_streams, List.foldl_cons]

-- The indexes are a function of the streams.
theorem ext (h : l.Linked) (h' : l'.Linked) (haccounts : l.accounts = l'.accounts)
    (hstreams : l.streams = l'.streams) (hnext : l.nextId = l'.nextId) : l = l' := by
  have hout : l.outgoingIdx = l'.outgoingIdx := by
    apply Table.ext_mem
    intro e
    have hmem := h.outgoing e.1 e.2
    have hmem' := h'.outgoing e.1 e.2
    rw [Ledger.outgoing, mem_indexed, getStream, hstreams] at hmem
    rw [Ledger.outgoing, mem_indexed, getStream] at hmem'
    exact hmem.trans hmem'.symm
  have hin : l.incomingIdx = l'.incomingIdx := by
    apply Table.ext_mem
    intro e
    have hmem := h.incoming e.1 e.2
    have hmem' := h'.incoming e.1 e.2
    rw [Ledger.incoming, mem_indexed, getStream, hstreams] at hmem
    rw [Ledger.incoming, mem_indexed, getStream] at hmem'
    exact hmem.trans hmem'.symm
  cases l
  cases l'
  simp_all

end Linked

-- A ledger is written again from its rows.
theorem rebuilt (h : l.Linked) :
    { l.streams.rows.foldl Ledger.putStream (l.accounts.rows.foldl Ledger.put {}) with
      nextId := l.nextId } = l := by
  have haccounts : l.accounts.rows.foldl Ledger.put {} = { accounts := l.accounts } :=
    Table.foldl_rows (fun t => ({ accounts := t } : Ledger)) (fun _ _ => rfl) l.accounts
  have hempty : ({ accounts := l.accounts } : Ledger).Linked :=
    ⟨Linked.empty.outgoing, Linked.empty.incoming⟩
  obtain ⟨hlinked, hsame, hstreams⟩ := hempty.foldl_putStream l.streams.sorted fun _ _ => rfl
  rw [haccounts]
  refine Linked.ext ⟨hlinked.outgoing, hlinked.incoming⟩ h hsame ?_ rfl
  exact hstreams.trans (Table.ofList_rows l.streams)

end Ledger

-- The two indexes of the vouches hold the same edges.
def HumanRegistry.Mirrored (r : HumanRegistry) : Prop :=
  ∀ v x, (x, v) ∈ r.vouchersOfIdx.rows ↔ (v, x) ∈ r.vouchesOutIdx.rows

namespace HumanRegistry

private theorem foldl_putVouch (edges : List Edge) (r : HumanRegistry) :
    edges.foldl (fun r e => r.putVouch { voucher := e.1, vouchee := e.2, at_ := 0#64 }) r =
      { r with
        vouchesOutIdx := edges.foldl Table.put r.vouchesOutIdx
        vouchersOfIdx := (edges.map Prod.swap).foldl Table.put r.vouchersOfIdx } := by
  induction edges generalizing r with
  | nil => rfl
  | cons e edges ih => rw [List.foldl_cons, ih]; rfl

-- A registry is written again from its rows. The reverse index is written along with the
-- forward one.
theorem rebuilt {r : HumanRegistry} (h : r.Mirrored) :
    { r.jurors.rows.foldl putJuror (r.cases.rows.foldl putCase (r.clearedChallenges.rows.foldl
        (fun r e => r.recordChallengeCleared e.1 e.2) (r.vouchEdges.foldl
          (fun r e => r.putVouch { voucher := e.1, vouchee := e.2, at_ := 0#64 })
            (r.humans.rows.foldl putHuman {})))) with nextCaseId := r.nextCaseId } = r := by
  have hhumans : r.humans.rows.foldl putHuman {} = { humans := r.humans } :=
    Table.foldl_rows (fun t => ({ humans := t } : HumanRegistry)) (fun _ _ => rfl) r.humans
  have hforward : r.vouchEdges.foldl Table.put (∅ : EdgeSet) = r.vouchesOutIdx :=
    Table.ofList_rows r.vouchesOutIdx
  have hreverse : (r.vouchEdges.map Prod.swap).foldl Table.put (∅ : EdgeSet) =
      r.vouchersOfIdx := by
    apply Table.ext_mem
    rintro ⟨x, v⟩
    rw [Table.mem_foldl_put toLex.injective, h v x]
    simp [vouchEdges]
  have hcleared (r₁ : HumanRegistry) (hr₁ : r₁.clearedChallenges = ∅) :
      r.clearedChallenges.rows.foldl (fun r e => r.recordChallengeCleared e.1 e.2) r₁ =
        { r₁ with clearedChallenges := r.clearedChallenges } := by
    have hfold : r.clearedChallenges.rows.foldl (fun r e => r.recordChallengeCleared e.1 e.2)
        { r₁ with clearedChallenges := ∅ } = _ :=
      Table.foldl_rows (fun t => { r₁ with clearedChallenges := t }) (fun _ _ => rfl) _
    rw [← hr₁] at hfold
    exact hfold
  have hcases (r₁ : HumanRegistry) (hr₁ : r₁.cases = ∅) :
      r.cases.rows.foldl putCase r₁ = { r₁ with cases := r.cases } := by
    have hfold : r.cases.rows.foldl putCase { r₁ with cases := ∅ } = _ :=
      Table.foldl_rows (fun t => { r₁ with cases := t }) (fun _ _ => rfl) _
    rw [← hr₁] at hfold
    exact hfold
  have hjurors (r₁ : HumanRegistry) (hr₁ : r₁.jurors = ∅) :
      r.jurors.rows.foldl putJuror r₁ = { r₁ with jurors := r.jurors } := by
    have hfold : r.jurors.rows.foldl putJuror { r₁ with jurors := ∅ } = _ :=
      Table.foldl_rows (fun t => { r₁ with jurors := t }) (fun _ _ => rfl) _
    rw [← hr₁] at hfold
    exact hfold
  rw [hhumans, foldl_putVouch, hforward, hreverse, hcleared _ rfl, hcases _ rfl, hjurors _ rfl]

end HumanRegistry

-- The hash of an effect is that of its operations.
def CanonicalEffect.Hashed (e : CanonicalEffect) : Prop := e = .new e.ops

instance (e : CanonicalEffect) : Decidable e.Hashed := inferInstanceAs (Decidable (_ = _))

-- The effects that a case has been handed, and the one that it committed.
def ExecCase.Hashed (c : ExecCase) : Prop :=
  (∀ e ∈ c.effects, e.2.Hashed) ∧ ∀ e, c.status = .Committed e → e.Hashed

-- What a record of the contract layer can be told from: the parties of a contract are
-- sorted, and every effect of a case is under its own hash.
structure ContractRegistry.Faithful (r : ContractRegistry) : Prop where
  parties : ∀ c ∈ r.contracts.rows, sortDedup c.parties = c.parties
  effects : ∀ c ∈ r.execCases.rows, c.Hashed

theorem sortDedup_sortDedup (l : List Address) : sortDedup (sortDedup l) = sortDedup l :=
  congrArg Table.rows (Table.ofList_rows (Table.ofList id l))

namespace ContractRegistry.Faithful

variable {r : ContractRegistry}

theorem empty : ({} : ContractRegistry).Faithful :=
  ⟨fun _ hc => absurd hc List.not_mem_nil, fun _ hc => absurd hc List.not_mem_nil⟩

theorem putContract (h : r.Faithful) {c : PromptContract} (hc : sortDedup c.parties = c.parties) :
    (r.putContract c).Faithful := by
  refine ⟨fun d hd => ?_, h.effects⟩
  rcases Table.mem_put.mp hd with rfl | ⟨hmem, -⟩
  · exact hc
  · exact h.parties d hmem

theorem putExecCase (h : r.Faithful) {c : ExecCase} (hc : c.Hashed) :
    (r.putExecCase c).Faithful := by
  refine ⟨h.parties, fun d hd => ?_⟩
  rcases Table.mem_put.mp hd with rfl | ⟨hmem, -⟩
  · exact hc
  · exact h.effects d hmem

end ContractRegistry.Faithful

-- A registry is written again from its rows.
theorem ContractRegistry.rebuilt (r : ContractRegistry) :
    { r.execCases.rows.foldl putExecCase (r.contracts.rows.foldl putContract {}) with
      nextContractId := r.nextContractId, nextExecCaseId := r.nextExecCaseId } = r := by
  have hcontracts : r.contracts.rows.foldl putContract {} = { contracts := r.contracts } :=
    Table.foldl_rows (fun t => ({ contracts := t } : ContractRegistry)) (fun _ _ => rfl) r.contracts
  have hexecCases : r.execCases.rows.foldl putExecCase { contracts := r.contracts } =
      { contracts := r.contracts, execCases := r.execCases } :=
    Table.foldl_rows (fun t => ({ contracts := r.contracts, execCases := t } : ContractRegistry))
      (fun _ _ => rfl) r.execCases
  rw [hcontracts, hexecCases]

-- An effect that is committed has been submitted.
theorem mem_of_tallyEffects {entries : List (Address × CanonicalEffect)} {jurySize quorum : Nat}
    {e : CanonicalEffect} (h : tallyEffects entries jurySize quorum = some (.Committed e)) :
    ∃ a, (a, e) ∈ entries := by
  unfold tallyEffects at h
  dsimp only at h
  split at h
  · cases h
  · cases h
  · split at h
    · cases h
    · rename_i entry hentry
      cases h
      exact ⟨entry.1, List.mem_of_find?_eq_some hentry⟩

namespace MemState

section Prompt

variable {s s' : MemState} {now : U64}

theorem parties_applyOp {e : Address} {r r' : EffectRun} {op : Op}
    (h : applyOp e now r op = some r') : r'.contract.parties = r.contract.parties := by
  unfold applyOp at h
  split at h
  · split at h <;> cases h
    rfl
  · split at h <;> cases h
    rfl
  · split at h <;> cases h
    rfl
  · split at h <;> cases h
    rfl
  · cases h
    rfl
  · cases h

theorem parties_applyOps {e : Address} {r r' : EffectRun} {ops : List Op}
    (h : applyOps e now r ops = some r') : r'.contract.parties = r.contract.parties := by
  induction ops generalizing r with
  | nil =>
    cases h
    rfl
  | cons op ops ih =>
    rw [applyOps] at h
    cases hop : applyOp e now r op with
    | none => simp [hop] at h
    | some r₁ =>
      rw [hop] at h
      rw [ih h, parties_applyOp hop]

theorem faithful_applyEffect {id : ContractId} {effect : CanonicalEffect}
    {res : Except EffectError Unit} (hs : s.prompt.Faithful)
    (h : s.applyEffect id effect now = some (res, s')) : s'.prompt.Faithful := by
  obtain ⟨e, -, rfl⟩ | ⟨contract, r, draw, -, hget, -, -, hr, rfl⟩ := applyEffect_cases s h
  · exact hs
  · have hparties : r.contract.parties = contract.parties := parties_applyOps hr
    refine ContractRegistry.Faithful.putContract hs ?_
    rw [hparties]
    exact hs.parties contract (Table.mem_of_get hget)

-- A case that is resolved commits one of its own submissions, if any.
theorem faithful_resolveCase {c c' : ExecCase} {block : U64} (hs : s.prompt.Faithful)
    (hc : ∀ e ∈ c.effects, e.2.Hashed) (h : s.resolveCase c block now = some (c', s')) :
    s'.prompt.Faithful ∧ c'.Hashed := by
  refine ⟨?_, ?_⟩
  · obtain rfl | ⟨effect, -, happly⟩ := resolveCase_cases s h
    · exact hs
    · exact faithful_applyEffect hs happly
  · unfold resolveCase at h
    cases htally : tallyEffects c.effects c.jury.length QUORUM with
    | none => simp [htally] at h
    | some t =>
      rw [htally] at h
      cases t with
      | Pending =>
        cases h
        exact ⟨hc, fun e he => by cases he⟩
      | NoQuorum =>
        cases h
        exact ⟨hc, fun e he => by cases he⟩
      | Committed effect =>
        obtain ⟨a, hmem⟩ := mem_of_tallyEffects htally
        dsimp only at h
        split_ifs at h with habort
        · cases h
          exact ⟨hc, fun e he => by cases he⟩
        · split at h
          · cases h
          · cases h
            refine ⟨hc, fun e he => ?_⟩
            cases he
            exact hc _ hmem
          · cases h
            exact ⟨hc, fun e he => by cases he⟩

theorem faithful_deployContract (hs : s.prompt.Faithful) (text : String) (textRef : Hash)
    (parties : List Address) : (s.deployContract text textRef parties).2.prompt.Faithful := by
  unfold deployContract
  split_ifs
  · exact hs
  · exact hs
  · exact hs
  · have hnext : ({ s.prompt with nextContractId := s.prompt.nextContractId + 1 } :
        ContractRegistry).Faithful := ⟨hs.parties, hs.effects⟩
    exact hnext.putContract (sortDedup_sortDedup parties)

theorem faithful_fundContract (hs : s.prompt.Faithful) (funder : Address) (id : ContractId)
    (amount : U128) (nonce : U64) :
    (s.fundContract funder id amount nonce now).2.prompt.Faithful := by
  unfold fundContract
  cases hget : s.getContract id with
  | none => exact hs
  | some contract =>
    dsimp only
    split_ifs
    · exact hs
    · split
      · exact hs
      · exact ContractRegistry.Faithful.putContract hs
          (hs.parties contract (Table.mem_of_get hget))

theorem faithful_submitEffect {caseId : ExecCaseId} {interpreter : Address}
    {effect : CanonicalEffect} {block : U64} {res : Except ContractError ExecStatus}
    (hs : s.prompt.Faithful) (heffect : effect.Hashed)
    (h : s.submitEffect caseId interpreter effect block now = some (res, s')) :
    s'.prompt.Faithful := by
  obtain ⟨e, -, rfl⟩ | ⟨c, c', s₁, hget, -, -, -, hr, -, rfl⟩ := submitEffect_cases s h
  · exact hs
  · have hc := (hs.effects c (Table.mem_of_get hget)).1
    have hall : ∀ e ∈ c.effects ++ [(interpreter, effect)], e.2.Hashed := by
      intro e he
      rcases List.mem_append.mp he with he | he
      · exact hc e he
      · rw [List.mem_singleton.mp he]
        exact heffect
    obtain ⟨hprompt, hcase⟩ := faithful_resolveCase hs hall hr
    exact hprompt.putExecCase hcase

theorem faithful_invokeContract {interpreter : ContractInterpreter} {usizeBits : Nat}
    {id : ContractId} {triggerRef : Hash} {trigger : Bytes} {invoker : Address}
    {entropy block : U64} {res : Except ContractError ExecCaseId} (hs : s.prompt.Faithful)
    (hinterpret : ∀ text view trigger, (interpreter.interpret text view trigger).Hashed)
    (h : s.invokeContract interpreter usizeBits id triggerRef trigger invoker entropy block
      now = some (res, s')) : s'.prompt.Faithful := by
  obtain ⟨e, -, rfl⟩ | ⟨contract, c, c', s₁, -, -, rfl, hr, -, rfl⟩ := invokeContract_cases s h
  · exact hs
  · have hopened : ({ s.prompt with nextExecCaseId := s.prompt.nextExecCaseId + 1 } :
        ContractRegistry).Faithful := ⟨hs.parties, hs.effects⟩
    have hall : ∀ e ∈ (s.invokedCase interpreter usizeBits id contract triggerRef trigger invoker
        entropy block now).effects, e.2.Hashed :=
      List.forall_mem_map.mpr fun _ _ => hinterpret _ _ _
    obtain ⟨hprompt, hcase⟩ := faithful_resolveCase hopened hall hr
    exact hprompt.putExecCase hcase

end Prompt

section Registry

variable {ok : HumanRegistry → Address → Prop} (s : MemState) {s' : MemState}

private theorem jurors_slashReputation (v : Address) (n : Int) :
    (s.slashReputation v n).humanity.jurors = s.humanity.jurors := by
  simp only [slashReputation]
  cases s.getHuman v <;> rfl

private theorem jurors_restoreChallenged (a : Address) :
    (s.restoreChallenged a).humanity.jurors = s.humanity.jurors := by
  simp only [restoreChallenged]
  cases s.getHuman a with
  | none => rfl
  | some h =>
    dsimp only
    split_ifs <;> rfl

private theorem jurors_revoke (a : Address) :
    (s.revoke a).humanity.jurors = s.humanity.jurors := by
  unfold revoke
  cases s.getHuman a with
  | none => rfl
  | some h =>
    exact Run.foldl_keeps (fun s : MemState => s.humanity.jurors)
      (fun s v => jurors_slashReputation s v SYBIL_SLASH) h.vouchesIn s

-- A ruling moves no juror.
theorem jurors_actOnStatus (c : Case) :
    (s.actOnStatus c).humanity.jurors = s.humanity.jurors := by
  unfold actOnStatus
  cases c.status with
  | Open => rfl
  | Escalated =>
    dsimp only
    split_ifs
    · exact jurors_restoreChallenged s c.subject
    · rfl
  | Committed v =>
    dsimp only
    cases v.verdict with
    | Sybil => exact jurors_revoke s c.subject
    | Uncertain => rfl
    | Human =>
      dsimp only
      split_ifs
      · exact (jurors_slashReputation _ _ _).trans (jurors_restoreChallenged s c.subject)
      · rfl

-- What an accepted passport leaves alone.
theorem kept_acceptZkProof (subject : Address) (pi : ZkPublicInputs) (now : U64) :
    (s.acceptZkProof subject pi now).2.humanity.jurors = s.humanity.jurors ∧
      (s.acceptZkProof subject pi now).2.zk.selfScope = s.zk.selfScope := by
  unfold acceptZkProof
  dsimp only
  split
  · split_ifs <;> exact ⟨rfl, rfl⟩
  · exact ⟨rfl, rfl⟩

-- The jurors are those of genesis.
theorem jurors_change (h : Change ok s s') : s'.humanity.jurors = s.humanity.jurors := by
  cases h with
  | frame humanity gates => rw [humanity]
  | clear subject hreg => rfl
  | request subject livenessRef c block hreg hc hdecided => rfl
  | vouch v h hself hverified hget hpending hnew => rfl
  | challenge challenger subject h c block => rfl
  | verdict caseId juror v c c' hvotes hok => exact jurors_actOnStatus (s.putCase c') c'
  | finalize subject h block now hf => rfl
  | prove subject pi now hsubject => exact (kept_acceptZkProof s subject pi now).1

theorem jurors_changes (h : Changes ok s s') : s'.humanity.jurors = s.humanity.jurors := by
  refine Run.relates (R := fun s s' : MemState => s'.humanity.jurors = s.humanity.jurors) rfl ?_ h
  intro s₁ s₂ hjurors hstep
  rw [jurors_change s₁ hstep, hjurors]

theorem scope_submitZkPassportProof (verifier : ZkPassportVerifier)
    (userIdentifierHash : Bytes → Hash) (subject : Address) (submission : ZkProofSubmission)
    (now block : U64) :
    (s.submitZkPassportProof verifier userIdentifierHash subject submission now
      block).2.zk.selfScope = s.zk.selfScope := by
  unfold submitZkPassportProof
  split
  · rfl
  · exact (kept_acceptZkProof s subject _ now).2

-- Governance pins and retires roots, never the scope they are for.
theorem scope_governed (caller : Address) {change : ZkRegistry → Except CscaGovError ZkRegistry}
    (hchange : ∀ zk zk', change zk = .ok zk' → zk'.selfScope = zk.selfScope) :
    (s.governed caller change).2.zk.selfScope = s.zk.selfScope := by
  unfold governed
  split_ifs
  · rfl
  · cases hzk : change s.zk with
    | error e => rfl
    | ok zk => exact hchange _ _ hzk

theorem scope_revokeCsca (caller : Address) (keyId : Hash) :
    (s.revokeCsca caller keyId).2.zk.selfScope = s.zk.selfScope := by
  refine scope_governed s caller (fun zk zk' h => ?_)
  cases hget : zk.csca.get keyId with
  | none => simp [hget] at h
  | some entry =>
    simp only [hget] at h
    cases h
    rfl

end Registry

-- The state as a snapshot has it: the scope of the Self roots is not written.
def unscoped (s : MemState) : MemState := { s with zk := { s.zk with selfScope := none } }

-- What a state must be for its snapshot to bring it back: all that is not written follows
-- from what is.
structure Restorable (s : MemState) : Prop where
  linked : s.ledger.Linked
  mirror : s.humanity.Mirrored
  active : ∀ j ∈ s.humanity.jurors.rows, j.active = true
  prompt : s.prompt.Faithful
  validators : sortDedup s.epochValidators = s.epochValidators

-- What an operation does to the parts of the state that are neither money nor humans.
structure Settles (s s' : MemState) : Prop where
  scope : s'.zk.selfScope = s.zk.selfScope
  validators : s'.epochValidators = s.epochValidators
  prompt : s.prompt.Faithful → s'.prompt.Faithful

namespace Settles

variable {s s' s'' : MemState} {now : U64} {w : Ledger.Authority}

theorem refl : Settles s s := ⟨rfl, rfl, id⟩

theorem trans (h : Settles s s') (h' : Settles s' s'') : Settles s s'' :=
  ⟨h'.scope.trans h.scope, h'.validators.trans h.validators, fun hs => h'.prompt (h.prompt hs)⟩

theorem of_frame (h : Frame now w s s') (hscope : s'.zk.selfScope = s.zk.selfScope) :
    Settles s s' :=
  ⟨hscope, h.validators, fun hs => h.prompt ▸ hs⟩

theorem of_promptFrame (h : PromptFrame now w s s')
    (hprompt : s.prompt.Faithful → s'.prompt.Faithful) : Settles s s' :=
  ⟨by rw [h.zk], h.validators, hprompt⟩

end Settles

end MemState

end Ubi2.Runtime
