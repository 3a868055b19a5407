import Ubi2.Runtime.Contracts.Escrow
import Ubi2.Runtime.Contracts.Submissions

namespace Ubi2.Runtime

open Lib

def Op.stops : Op → Option StreamId
  | .StopStream id => some id
  | _ => none

-- The streams that a list of operations stops.
def stopIds (ops : List Op) : List StreamId := ops.filterMap Op.stops

namespace Ledger

variable {now : U64} {l l' : Ledger} {e : Address}

-- What passes the checks of an effect and panics in its apply phase: a stream to the escrow
-- account that opens it, a stream that is stopped twice, and one that has ended before.
def Halts (l : Ledger) (e : Address) (ops : List Op) : Prop :=
  (∃ rate deposit, .OpenStream e rate deposit ∈ ops) ∨ ¬ (stopIds ops).Nodup ∨
    ∃ id ∈ stopIds ops, ∃ s, l.getStream id = some s ∧ s.status ≠ .Active

-- A settlement of the streams to an account leaves the other streams as they are.
theorem getStream_settleIncoming (h : l.Indexed) {id : StreamId} {s : Stream}
    (hs : l.getStream id = some s) (hto : s.to_ ≠ e) :
    (l.settleIncoming e now).getStream id = some s := by
  have hother : ∀ id' ∈ l.incoming e, id' ≠ id := by
    rintro id' hmem rfl
    exact hto (h.pays e id' hmem s hs)
  rw [← hs]
  simp only [settleIncoming]
  generalize l.incoming e = ids at hother
  clear hs h
  induction ids generalizing l with
  | nil => rfl
  | cons id' ids ih =>
    obtain ⟨hhead, htail⟩ := List.forall_mem_cons.mp hother
    rw [List.foldl_cons, ih htail, getStream_settleStream_ne hhead]

theorem getStream_applyTransfer (h : l.Booked) {b : Address} {v : U128} {nonce : U64}
    {id : StreamId} {s : Stream} (hs : l.getStream id = some s) (hfrom : s.from_ = e)
    (happly : l.applyTransfer e b v nonce now = (.ok (), l')) : l'.getStream id = some s := by
  obtain ⟨l₁, hl₁, -, rfl⟩ := applyTransfer_eq happly
  have hto : s.to_ ≠ e := fun heq => h.distinct id s hs (hfrom.trans heq.symm)
  have hkept : (l.settleIncoming e now).getStream id = some s :=
    getStream_settleIncoming h.toIndexed hs hto
  rw [← hl₁] at hkept
  split_ifs
  · rw [getStream_put]
    exact hkept
  · rw [getStream_put, getStream_put]
    exact hkept

theorem getStream_openStream (h : l.Booked) {b : Address} {rate deposit : U128}
    {id id' : StreamId} {s : Stream} (hs : l.getStream id = some s)
    (hopen : l.openStream e b rate deposit now = (.ok id', l')) : l'.getStream id = some s := by
  obtain ⟨-, -, rfl⟩ := openStream_eq hopen
  have hne : (Stream.opened l.nextId e b rate deposit now).id ≠ id := (h.assigned id s hs).ne'
  rw [getStream_putStream, if_neg hne]
  exact hs

theorem getStream_stopStream {id id' : StreamId} {refund : U128} {s : Stream}
    (hs : l.getStream id = some s) (hne : id' ≠ id)
    (hstop : l.stopStream id' e now = some (.ok refund, l')) : l'.getStream id = some s := by
  obtain ⟨t, ht, -, -, -, rfl⟩ := stopStream_ok hstop
  rw [getStream_stopped_ne (by rw [getStream_id l ht]; exact hne)]
  exact hs

end Ledger

namespace MemState

open Ledger

section Apply

variable {now : U64} {e : Address} {r r' : EffectRun} {op : Op} {ops : List Op}

-- An operation changes no stream of the escrow account but the one that it stops.
theorem getStream_applyOp (hbooked : r.ledger.Booked) {id : StreamId} {s : Stream}
    (hs : r.ledger.getStream id = some s) (hfrom : s.from_ = e) (hne : op.stops ≠ some id)
    (h : applyOp e now r op = some r') : r'.ledger.getStream id = some s := by
  obtain ⟨to_, amount, l, -, hl, rfl⟩ | ⟨to_, rate, deposit, id', l, -, hl, rfl⟩ |
    ⟨id', refund, l, rfl, hl, rfl⟩ | ⟨key, value, -, rfl⟩ := applyOp_cases h
  · exact getStream_applyTransfer hbooked hs hfrom hl
  · exact getStream_openStream hbooked hs hl
  · exact getStream_stopStream hs (fun heq => hne (congrArg some heq)) hl
  · exact hs

theorem booked_applyOp (hbooked : r.ledger.Booked) (h : applyOp e now r op = some r') :
    r'.ledger.Booked := by
  have hmoves : Moves now { idle with spends := fun _ => True, renonces := fun _ => True }
    r.ledger r'.ledger := moves_applyOp trivial trivial h
  exact hbooked.moves hmoves

-- No stop of a stream that has ended goes through.
theorem applyOp_of_ended {id : StreamId} {s : Stream} (hs : r.ledger.getStream id = some s)
    (hended : s.status ≠ .Active) : applyOp e now r (.StopStream id) = none := by
  simp only [applyOp, stopStream_eq, hs]
  by_cases hfrom : s.from_ = e
  · rw [if_neg (not_not.mpr hfrom), if_pos hended]
  · rw [if_pos hfrom]

theorem applyOps_of_ended (hbooked : r.ledger.Booked) {id : StreamId} {s : Stream}
    (hs : r.ledger.getStream id = some s) (hfrom : s.from_ = e) (hended : s.status ≠ .Active)
    (hmem : id ∈ stopIds ops) : applyOps e now r ops = none := by
  induction ops generalizing r with
  | nil => cases hmem
  | cons op ops ih =>
    rw [applyOps]
    by_cases hop : op.stops = some id
    · cases op with
      | StopStream id' =>
        cases hop
        rw [applyOp_of_ended hs hended]
      | _ => cases hop
    · cases hrun : applyOp e now r op with
      | none => rfl
      | some r₁ =>
        have hrest : id ∈ stopIds ops := by
          obtain ⟨op', hop', hid⟩ := List.mem_filterMap.mp hmem
          rcases List.mem_cons.mp hop' with rfl | hlater
          · exact absurd hid hop
          · exact List.mem_filterMap.mpr ⟨op', hlater, hid⟩
        exact ih (booked_applyOp hbooked hrun) (getStream_applyOp hbooked hs hfrom hop hrun) hrest

-- After its stop, a stream has ended.
theorem ended_of_stop {id : StreamId} (h : applyOp e now r (.StopStream id) = some r') :
    ∃ s, r'.ledger.getStream id = some s ∧ s.from_ = e ∧ s.status ≠ .Active := by
  obtain ⟨_, _, _, hop, -⟩ | ⟨_, _, _, _, _, hop, -⟩ | ⟨id', refund, l, hop, hl, rfl⟩ |
    ⟨_, _, hop, -⟩ := applyOp_cases h
  · rcases hop with hop | hop <;> cases hop
  · cases hop
  · cases hop
    obtain ⟨s, hs, hfrom, -, -, rfl⟩ := stopStream_ok hl
    have hid := getStream_id _ hs
    simp only [stopped]
    refine ⟨{ s.drawTo now with status := .Stopped now }, ?_, ?_, by simp⟩
    · rw [getStream_putStream, if_pos (by simp [hid])]
    · simp [hfrom]
  · cases hop

theorem applyOps_of_repeated (hbooked : r.ledger.Booked) (hrepeated : ¬ (stopIds ops).Nodup) :
    applyOps e now r ops = none := by
  induction ops generalizing r with
  | nil => exact absurd List.nodup_nil hrepeated
  | cons op ops ih =>
    rw [applyOps]
    cases hrun : applyOp e now r op with
    | none => rfl
    | some r₁ =>
      have hbooked₁ := booked_applyOp hbooked hrun
      dsimp only
      by_cases hnodup : (stopIds ops).Nodup
      swap
      · exact ih hbooked₁ hnodup
      cases hop : op.stops with
      | none =>
        rw [stopIds, List.filterMap_cons_none hop] at hrepeated
        exact absurd hnodup hrepeated
      | some id =>
        rw [stopIds, List.filterMap_cons_some hop, List.nodup_cons, not_and_or, not_not]
          at hrepeated
        have hmem : id ∈ stopIds ops := by
          rcases hrepeated with hmem | hrest
          · exact hmem
          · exact absurd hnodup hrest
        cases op with
        | StopStream id' =>
          cases hop
          obtain ⟨s, hs, hfrom, hended⟩ := ended_of_stop hrun
          exact applyOps_of_ended hbooked₁ hs hfrom hended hmem
        | _ => cases hop

theorem applyOps_of_selfStream {rate deposit : U128} (hmem : .OpenStream e rate deposit ∈ ops) :
    applyOps e now r ops = none := by
  induction ops generalizing r with
  | nil => cases hmem
  | cons op ops ih =>
    rw [applyOps]
    rcases List.mem_cons.mp hmem with rfl | hlater
    · simp only [applyOp, openStream, if_true]
    · cases applyOp e now r op with
      | none => rfl
      | some r₁ => exact ih hlater

-- What lets the rest of the apply phase go through.
structure Ready (e : Address) (r : EffectRun) (ops : List Op) : Prop where
  booked : r.ledger.Booked
  nonce : r.escrowNonce = (r.ledger.account e).nonce
  funds : draws ops ≤ (r.ledger.account e).settledBalance.toNat
  valid : ∀ op ∈ ops, ∃ contract owned, validateOp contract owned op = .ok ()
  outward : ∀ rate deposit, .OpenStream e rate deposit ∉ ops
  stoppable : ∀ id ∈ stopIds ops, ∃ s, r.ledger.getStream id = some s ∧ s.from_ = e ∧
    s.status = .Active
  nodup : (stopIds ops).Nodup

theorem stopIds_tail {id : StreamId} (h : id ∈ stopIds ops) : id ∈ stopIds (op :: ops) := by
  obtain ⟨op', hop', hid⟩ := List.mem_filterMap.mp h
  exact List.mem_filterMap.mpr ⟨op', List.mem_cons_of_mem _ hop', hid⟩

theorem nodup_stopIds_tail (h : (stopIds (op :: ops)).Nodup) : (stopIds ops).Nodup := by
  unfold stopIds at h ⊢
  cases hop : op.stops with
  | none => rwa [List.filterMap_cons_none hop] at h
  | some id =>
    rw [List.filterMap_cons_some hop] at h
    exact h.of_cons

-- The rest is as ready after an operation that goes through and leaves enough.
theorem Ready.tail (h : Ready e r (op :: ops)) (hrun : applyOp e now r op = some r')
    (hnonce : r'.escrowNonce = (r'.ledger.account e).nonce)
    (hfunds : draws ops ≤ (r'.ledger.account e).settledBalance.toNat) : Ready e r' ops := by
  refine ⟨booked_applyOp h.booked hrun, hnonce, hfunds,
    fun op hop => h.valid op (List.mem_cons_of_mem _ hop),
    fun rate deposit hop => h.outward rate deposit (List.mem_cons_of_mem _ hop), ?_,
    nodup_stopIds_tail h.nodup⟩
  intro id hid
  obtain ⟨s, hs, hfrom, hactive⟩ := h.stoppable id (stopIds_tail hid)
  have hne : op.stops ≠ some id := by
    intro hop
    have hnodup := h.nodup
    rw [stopIds, List.filterMap_cons_some hop, List.nodup_cons] at hnodup
    exact hnodup.1 hid
  exact ⟨s, getStream_applyOp h.booked hs hfrom hne hrun, hfrom, hactive⟩

theorem Ready.transfer (h : Ready e r (op :: ops)) (to_ : Address) (amount : U128)
    (hdraw : opDraw op = amount)
    (happly : ∀ l, r.ledger.applyTransfer e to_ amount r.escrowNonce now = (.ok (), l) →
      ∃ r', applyOp e now r op = some r' ∧ r'.ledger = l ∧ r'.escrowNonce = r.escrowNonce + 1#64) :
    ∃ r', applyOp e now r op = some r' ∧ Ready e r' ops := by
  have hfunds : amount.toNat + draws ops ≤ (r.ledger.account e).settledBalance.toNat := by
    rw [← hdraw]
    exact h.funds
  obtain ⟨l, hpaid, hleft⟩ := @applyTransfer_covers now _ _ to_ _ _ _ h.nonce hfunds
  obtain ⟨r', hrun, hledger, hnonce⟩ := happly l hpaid
  obtain ⟨hcurrent, hafter⟩ := nonce_applyTransfer hpaid
  refine ⟨r', hrun, h.tail hrun ?_ (by rw [hledger]; exact hleft)⟩
  rw [hnonce, hledger, hafter e, if_pos rfl, hcurrent]

-- One operation goes through.
theorem Ready.applyOp (h : Ready e r (op :: ops)) (now : U64) :
    ∃ r', applyOp e now r op = some r' ∧ Ready e r' ops := by
  obtain ⟨contract, owned, hvalid⟩ := h.valid op (List.mem_cons_self ..)
  have hfunds := h.funds
  have hsum : draws (op :: ops) = (opDraw op).toNat + draws ops := rfl
  cases op with
  | Transfer to_ amount =>
    refine h.transfer to_ amount rfl fun l hpaid => ?_
    simp only [MemState.applyOp, hpaid]
    exact ⟨_, rfl, rfl, rfl⟩
  | Refund party amount =>
    refine h.transfer party amount rfl fun l hpaid => ?_
    simp only [MemState.applyOp, hpaid]
    exact ⟨_, rfl, rfl, rfl⟩
  | OpenStream to_ rate deposit =>
    have hself : e ≠ to_ := fun heq => h.outward rate deposit (heq ▸ List.mem_cons_self ..)
    have hcovers := @openStream_covers now _ _ to_ rate _ _
      (by rw [hsum] at hfunds; exact hfunds :
        deposit.toNat + draws ops ≤ (r.ledger.account e).settledBalance.toNat)
    have hnonce := @nonce_openStream now r.ledger e to_ rate deposit e
    simp only [validateOp] at hvalid
    split_ifs at hvalid with hrate hdeposit hmax
    cases hopen : r.ledger.openStream e to_ rate deposit now with
    | mk res l =>
      rw [hopen] at hcovers hnonce
      cases res with
      | error err =>
        simp only [Ledger.openStream, if_neg hself, if_neg hrate, if_neg hdeposit, if_neg hmax]
          at hopen
        split_ifs at hopen
        · cases hopen
          exact absurd rfl (hcovers.1 _ _)
        · cases hopen
      | ok id =>
        obtain ⟨r', hrun, hledger, hsame⟩ : ∃ r', MemState.applyOp e now r
            (.OpenStream to_ rate deposit) = some r' ∧ r'.ledger = l ∧
              r'.escrowNonce = r.escrowNonce := by
          simp only [MemState.applyOp, hopen]
          exact ⟨_, rfl, rfl, rfl⟩
        refine ⟨r', hrun, h.tail hrun ?_ (by rw [hledger]; exact hcovers.2)⟩
        rw [hsame, hledger, hnonce]
        exact h.nonce
  | StopStream id =>
    obtain ⟨s, hs, hfrom, hactive⟩ := h.stoppable id (by simp [stopIds, Op.stops])
    have hstop : r.ledger.stopStream id e now =
        some (.ok (Word.satSub s.deposit (s.drawTo now).drawn), r.ledger.stopped s now) := by
      rw [stopStream_eq, hs]
      simp only [hfrom, hactive, ne_eq, not_true_eq_false, if_false]
    have hreceived := settled_stopStream_from hstop
    rw [Word.toNat_satAdd] at hreceived
    have hnonce := nonce_stopStream hstop e
    obtain ⟨r', hrun, hledger, hsame⟩ : ∃ r', MemState.applyOp e now r (.StopStream id) = some r' ∧
        r'.ledger = r.ledger.stopped s now ∧ r'.escrowNonce = r.escrowNonce := by
      simp only [MemState.applyOp, hstop]
      exact ⟨_, rfl, rfl, rfl⟩
    refine ⟨r', hrun, h.tail hrun ?_ ?_⟩
    · rw [hsame, hledger, hnonce]
      exact h.nonce
    · have hlt := (r.ledger.account e).settledBalance.isLt
      rw [hledger]
      omega
  | SetVar key value =>
    obtain ⟨r', hrun, hledger, hsame⟩ : ∃ r', MemState.applyOp e now r (.SetVar key value) =
        some r' ∧ r'.ledger = r.ledger ∧ r'.escrowNonce = r.escrowNonce := ⟨_, rfl, rfl, rfl⟩
    refine ⟨r', hrun, h.tail hrun (by rw [hsame, hledger, h.nonce]) ?_⟩
    rw [hledger]
    omega
  | Abort reasonHash => cases hvalid

theorem Ready.applyOps (h : Ready e r ops) (now : U64) :
    ∃ r', applyOps e now r ops = some r' := by
  induction ops generalizing r with
  | nil => exact ⟨r, rfl⟩
  | cons op ops ih =>
    obtain ⟨r₁, hrun, hready⟩ := h.applyOp now
    obtain ⟨r', hrest⟩ := ih hready
    refine ⟨r', ?_⟩
    rw [MemState.applyOps, hrun]
    exact hrest

theorem validateOps_valid {contract : PromptContract} {owned : List StreamId} {start draw : U128}
    (h : validateOps contract owned start ops = .ok draw) :
    ∀ op ∈ ops, validateOp contract owned op = .ok () := by
  induction ops generalizing start with
  | nil => exact fun op hop => by cases hop
  | cons op ops ih =>
    rw [validateOps] at h
    cases hop : validateOp contract owned op with
    | error err => simp [hop] at h
    | ok u =>
      rw [hop] at h
      exact List.forall_mem_cons.mpr ⟨hop, ih h⟩

-- What is stopped is listed for the contract.
theorem owned_of_valid {contract : PromptContract} {owned : List StreamId}
    (h : ∀ op ∈ ops, validateOp contract owned op = .ok ()) : ∀ id ∈ stopIds ops, id ∈ owned := by
  intro id hid
  obtain ⟨op, hop, hstops⟩ := List.mem_filterMap.mp hid
  have hvalid := h op hop
  cases op with
  | StopStream id' =>
    cases hstops
    simp only [validateOp] at hvalid
    split_ifs at hvalid with howned
    exact howned
  | _ => cases hstops

end Apply

section Effect

variable {s : MemState} {id : ContractId} {contract : PromptContract} {effect : CanonicalEffect}
variable {now : U64}

-- An effect that passes the checks is ready to be applied, unless it halts.
theorem ready_effectStart (now : U64) (hbooked : s.ledger.Booked)
    (hget : s.getContract id = some contract)
    (hcovered : contract.escrow ≤ (s.account (contractAddress id)).settledBalance)
    (hmax : contract.escrow.toNat < 2 ^ 128 - 1) (haccepts : s.Accepts id effect)
    (hruns : ¬ s.ledger.Halts (contractAddress id) effect.ops) :
    Ready (contractAddress id) (s.effectStart contract (contractAddress id) now) effect.ops := by
  obtain ⟨contract', draw, hget', hvalidate, hdraw⟩ := haccepts
  cases hget'.symm.trans hget
  have hvalid := validateOps_valid hvalidate
  have hdraws := toNat_validateOps hvalidate
  have hdraw := BitVec.le_def.mp hdraw
  have hzero : (0#128).toNat = 0 := rfl
  simp only [Ledger.Halts, not_or, not_not] at hruns
  obtain ⟨hself, hnodup, hended⟩ := hruns
  have hstart : (s.effectStart contract (contractAddress id) now).ledger.account
      (contractAddress id) = (s.account (contractAddress id)).settle now := by
    simp only [effectStart]
    rw [account_put_of_address _ (by simp [MemState.account])]
  refine ⟨hbooked.put _, ?_, ?_, fun op hop => ⟨_, _, hvalid op hop⟩, ?_, ?_, hnodup⟩
  · rw [hstart]
    rfl
  · have hsettle := BitVec.le_def.mp
      (hcovered.trans (Account.settledBalance_le_settle _ now))
    rw [hstart]
    omega
  · exact fun rate deposit hop => hself ⟨rate, deposit, hop⟩
  · intro id' hid'
    obtain ⟨t, ht, hfrom⟩ := hbooked.opener _ id' (owned_of_valid hvalid id' hid')
    exact ⟨t, ht, hfrom, not_not.mp fun hne => hended ⟨id', hid', t, ht, hne⟩⟩

-- The apply phase panics exactly for the effects that pass the checks and halt.
theorem applyEffect_eq_none_iff (hbooked : s.ledger.Booked)
    (hcovered : ∀ c, s.getContract id = some c →
      c.escrow ≤ (s.account (contractAddress id)).settledBalance)
    (hmax : ∀ c, s.getContract id = some c → c.escrow.toNat < 2 ^ 128 - 1) :
    s.applyEffect id effect now = none ↔
      s.Accepts id effect ∧ s.ledger.Halts (contractAddress id) effect.ops := by
  have hbooked₁ (c : PromptContract) :
      (s.effectStart c (contractAddress id) now).ledger.Booked := hbooked.put _
  unfold applyEffect
  cases hget : s.getContract id with
  | none => simp [Accepts, hget]
  | some contract =>
    dsimp only
    cases hvalidate : validateOps contract (s.ledger.outgoing (contractAddress id)) 0#128
        effect.ops with
    | error err => simp [Accepts, hget, hvalidate]
    | ok draw =>
      dsimp only
      by_cases hdraw : contract.escrow < draw
      · rw [if_pos hdraw]
        simp [Accepts, hget, hvalidate, not_le.mpr hdraw]
      · rw [if_neg hdraw]
        have haccepts : s.Accepts id effect := ⟨contract, draw, hget, hvalidate, not_lt.mp hdraw⟩
        have howned := owned_of_valid (validateOps_valid hvalidate)
        constructor
        · intro hnone
          refine ⟨haccepts, not_not.mp fun hruns => ?_⟩
          obtain ⟨r', hrun⟩ := (ready_effectStart now hbooked hget (hcovered _ hget)
            (hmax _ hget) haccepts hruns).applyOps now
          simp [hrun] at hnone
        · rintro ⟨-, ⟨rate, deposit, hself⟩ | hrepeated | ⟨id', hid', t, ht, hended⟩⟩
          · rw [applyOps_of_selfStream hself]
          · rw [applyOps_of_repeated (hbooked₁ contract) hrepeated]
          · obtain ⟨t', ht', hfrom⟩ := hbooked.opener _ id' (howned id' hid')
            cases ht.symm.trans ht'
            rw [applyOps_of_ended (hbooked₁ contract) ht hfrom hended hid']

-- An abort is not accepted.
theorem not_abort_of_accepts (h : s.Accepts id effect) : effect.isAbort = false := by
  obtain ⟨contract, draw, -, hvalid, -⟩ := h
  have hall := validateOps_valid hvalid
  unfold CanonicalEffect.isAbort
  split
  · rename_i reasonHash hops
    have habort := hall (.Abort reasonHash) (by rw [hops]; exact List.mem_singleton_self _)
    cases habort
  · rfl

theorem resolveCase_eq_none_iff (c : ExecCase) (block now : U64) (hbooked : s.ledger.Booked)
    (hcovered : ∀ k, s.getContract c.contract = some k →
      k.escrow ≤ (s.account (contractAddress c.contract)).settledBalance)
    (hmax : ∀ k, s.getContract c.contract = some k → k.escrow.toNat < 2 ^ 128 - 1) :
    s.resolveCase c block now = none ↔
      ∃ effect, tallyEffects c.effects c.jury.length QUORUM = some (.Committed effect) ∧
        s.Accepts c.contract effect ∧
        s.ledger.Halts (contractAddress c.contract) effect.ops := by
  unfold resolveCase
  cases htally : tallyEffects c.effects c.jury.length QUORUM with
  | none => exact absurd htally (tallyEffects_ne_none (by decide))
  | some t =>
    cases t with
    | Pending => simp
    | NoQuorum => simp
    | Committed effect =>
      have hiff := @applyEffect_eq_none_iff s c.contract effect now hbooked hcovered hmax
      dsimp only
      by_cases habort : effect.isAbort = true
      · rw [if_pos habort]
        refine ⟨(by rintro ⟨⟩), ?_⟩
        rintro ⟨_, heq, haccepts, -⟩
        cases heq
        simp [not_abort_of_accepts haccepts] at habort
      · rw [if_neg habort]
        cases happly : s.applyEffect c.contract effect now with
        | none =>
          have hhalts := hiff.mp happly
          exact ⟨fun _ => ⟨effect, rfl, hhalts⟩, fun _ => rfl⟩
        | some p =>
          obtain ⟨res, s'⟩ := p
          refine ⟨(by cases res <;> rintro ⟨⟩), ?_⟩
          rintro ⟨_, heq, hhalts⟩
          cases heq
          rw [hiff.mpr hhalts] at happly
          cases happly

theorem submitEffect_eq_none_iff {caseId : ExecCaseId} {interpreter : Address} {block : U64} :
    s.submitEffect caseId interpreter effect block now = none ↔
      ∃ c, s.getExecCase caseId = some c ∧ c.status = .Open ∧ interpreter ∈ c.jury ∧
        c.effectOf interpreter = none ∧
        s.resolveCase { c with effects := c.effects ++ [(interpreter, effect)] } block now =
          none := by
  unfold submitEffect
  cases s.getExecCase caseId with
  | none => simp
  | some c =>
    simp only [Option.some.injEq, exists_eq_left']
    by_cases hopen : c.status = .Open
    swap
    · simp [hopen]
    by_cases hjury : interpreter ∈ c.jury
    swap
    · simp [hopen, hjury]
    cases hsub : c.effectOf interpreter with
    | some e => simp [hopen, hjury]
    | none =>
      cases s.resolveCase { c with effects := c.effects ++ [(interpreter, effect)] } block now with
      | none => simp [hopen, hjury]
      | some p => simp [hopen, hjury]

theorem invokeContract_eq_none_iff {interpreter : ContractInterpreter} {usizeBits : Nat}
    {triggerRef : Hash} {trigger : Bytes} {invoker : Address} {entropy block : U64} :
    s.invokeContract interpreter usizeBits id triggerRef trigger invoker entropy block now = none ↔
      ∃ contract, s.getContract id = some contract ∧ contract.status ≠ .Terminated ∧
        s.activeJurors ≠ [] ∧ ∃ c, c = s.invokedCase interpreter usizeBits id contract triggerRef
          trigger invoker entropy block now ∧
        ({ s with prompt := { s.prompt with nextExecCaseId := c.id + 1 } } : MemState).resolveCase c
          block now = none := by
  unfold invokeContract
  cases s.getContract id with
  | none => simp
  | some contract =>
    simp only [Option.some.injEq, exists_eq_left', exists_eq_left]
    by_cases hterm : contract.status = .Terminated
    · simp [hterm]
    by_cases hjurors : s.activeJurors = []
    · simp [hterm, hjurors]
    rw [if_neg hterm, if_neg hjurors]
    generalize s.invokedCase interpreter usizeBits id contract triggerRef trigger invoker entropy
      block now = c
    cases ({ s with prompt := { s.prompt with nextExecCaseId := c.id + 1 } } : MemState).resolveCase
        c block now with
    | none => simp [hterm, hjurors]
    | some p => simp

end Effect

end MemState

end Ubi2.Runtime
