import Ubi2.Runtime.Ledger.Balance
import Ubi2.Runtime.Ledger.Simulation

namespace Ubi2.Runtime

open Lib

namespace Account

variable (a : Account) (now : U64)

-- A settled account is worth what it has settled, and a credit adds to it.
theorem worth_credit_settle (v : U128) : (((a.settle now).credit v).worth now) =
    min (a.worth now + v.toNat) (2 ^ 128 - 1) := by
  have hpending : ((a.settle now).credit v).pendingEmission now = 0#128 :=
    a.pendingEmission_settle now
  rw [worth, hpending, credit, Word.toNat_satAdd, toNat_settle_settledBalance]
  simp only [BitVec.toNat_ofNat, Nat.zero_mod, Nat.add_zero]
  omega

end Account

namespace Ledger

variable {now : U64} {w : Authority} {l l' : Ledger}

-- The incoming index lists streams that pay the account it lists them for, and an
-- identifier is assigned once.
structure Indexed (l : Ledger) : Prop where
  pays : ∀ a, ∀ id ∈ l.incoming a, ∀ s, l.getStream id = some s → s.to_ = a
  assigned : ∀ id s, l.getStream id = some s → id < l.nextId
  listed : ∀ a, ∀ id ∈ l.incoming a, id < l.nextId

namespace Indexed

theorem empty : ({} : Ledger).Indexed := by
  refine ⟨?_, ?_, ?_⟩
  · intro a id hid
    cases hid
  · intro id s hs
    cases hs
  · intro a id hid
    cases hid

theorem put (h : l.Indexed) (x : Account) : (l.put x).Indexed :=
  ⟨h.pays, h.assigned, h.listed⟩

-- A stream that is written again pays the same account.
theorem putStream (h : l.Indexed) {s t : Stream} (hs : l.getStream s.id = some t)
    (hto : s.to_ = t.to_) : (l.putStream s).Indexed := by
  have hincoming : (l.putStream s).incoming = l.incoming := by
    rw [putStream_of_some l hs]
    rfl
  refine ⟨?_, ?_, ?_⟩
  · intro a id hid r hr
    rw [hincoming] at hid
    rw [getStream_putStream] at hr
    split_ifs at hr with heq
    · rw [Option.some.injEq] at hr
      subst hr heq
      exact hto.trans (h.pays a _ hid t hs)
    · exact h.pays a id hid r hr
  · intro id r hr
    rw [getStream_putStream] at hr
    rw [putStream_nextId]
    split_ifs at hr with heq
    · exact heq ▸ h.assigned s.id t hs
    · exact h.assigned id r hr
  · intro a id hid
    rw [hincoming] at hid
    rw [putStream_nextId]
    exact h.listed a id hid

-- A new stream takes the next identifier, which nothing is listed under.
theorem opened (h : l.Indexed) (a b : Address) (rate deposit : U128) :
    (({ l with nextId := l.nextId + 1 } : Ledger).putStream
      (Stream.opened l.nextId a b rate deposit now)).Indexed := by
  have hnew : ({ l with nextId := l.nextId + 1 } : Ledger).getStream
      (Stream.opened l.nextId a b rate deposit now).id = none := by
    cases hget : l.getStream l.nextId with
    | none => exact hget
    | some s => exact absurd (h.assigned _ s hget) (lt_irrefl _)
  have hmem : ∀ {c : Address} {id : StreamId},
      id ∈ (({ l with nextId := l.nextId + 1 } : Ledger).putStream
        (Stream.opened l.nextId a b rate deposit now)).incoming c →
      (id = l.nextId ∧ c = b) ∨ id ∈ l.incoming c := by
    intro c id hid
    rw [putStream_of_none _ hnew, incoming, mem_indexed, Table.mem_put] at hid
    rcases hid with heq | ⟨hold, -⟩
    · exact Or.inl ⟨congrArg Prod.snd heq, congrArg Prod.fst heq⟩
    · exact Or.inr (mem_indexed.mpr hold)
  refine ⟨?_, ?_, ?_⟩
  · intro c id hid r hr
    rw [getStream_putStream] at hr
    rcases hmem hid with ⟨rfl, rfl⟩ | hold
    · split_ifs at hr with heq
      · rw [← Option.some.inj hr]
        rfl
      · exact absurd rfl heq
    · have hne : (Stream.opened l.nextId a b rate deposit now).id ≠ id :=
        (h.listed c id hold).ne'
      rw [if_neg hne] at hr
      exact h.pays c id hold r hr
  · intro id r hr
    rw [getStream_putStream] at hr
    rw [putStream_nextId]
    split_ifs at hr with heq
    · exact heq ▸ Nat.lt_succ_self _
    · exact Nat.lt_succ_of_lt (h.assigned id r hr)
  · intro c id hid
    rw [putStream_nextId]
    rcases hmem hid with ⟨rfl, -⟩ | hold
    · exact Nat.lt_succ_self _
    · exact Nat.lt_succ_of_lt (h.listed c id hold)

theorem move (h : l.Indexed) (hmove : Move now w l l') : l'.Indexed := by
  cases hmove with
  | settle a => exact h.put _
  | pay a b v ha hne hv => exact (h.put _).put _
  | mint v ha => exact h.put _
  | renonce a n ha => exact h.put _
  | lock a b rate deposit ha hne hv =>
    exact (h.put ((l.account a).debit deposit)).opened a b rate deposit
  | draw s hs =>
    exact (h.put _).putStream (t := s) (by rw [Stream.drawTo_id]; exact hs) (Stream.drawTo_to s now)
  | close s hs ha hdone hopen => exact (h.put _).putStream (t := s) hs rfl
  | gate a v t ha => exact h.put _

theorem moves (h : l.Indexed) (hmoves : Moves now w l l') : l'.Indexed :=
  Run.invariant (fun _ _ hmove hl => hl.move hmove) hmoves h

end Indexed

theorem nodup_incoming (l : Ledger) (a : Address) : (l.incoming a).Nodup := by
  unfold incoming indexed
  refine (List.Nodup.filter _ l.incomingIdx.nodup_rows).map_on ?_
  intro e he e' he' heq
  have hfst := (List.mem_filter.mp he).2
  have hfst' := (List.mem_filter.mp he').2
  rw [decide_eq_true_eq] at hfst hfst'
  exact Prod.ext (hfst.trans hfst'.symm) heq

-- The streams of a list, settled one after the other.
def settleAll (l : Ledger) (ids : List StreamId) (now : U64) : Ledger :=
  ids.foldl (fun l id => (l.settleStream id now).2) l

-- What a list of streams still pays to an account.
def inflow (l : Ledger) (a : Address) (now : U64) (ids : List StreamId) : Nat :=
  (((ids.filterMap l.getStream).filter (fun s => s.to_ = a)).map
    (fun s => (s.owed now).toNat)).sum

-- What an account can spend once its incoming streams are folded in.
def spendable (l : Ledger) (a : Address) (now : U64) : Nat :=
  min ((l.account a).worth now + l.inflow a now (l.incoming a)) (2 ^ 128 - 1)

theorem getStream_settleStream_ne {id id' : StreamId} (h : id ≠ id') :
    (l.settleStream id now).2.getStream id' = l.getStream id' := by
  cases hs : l.getStream id with
  | none => rw [settleStream_of_none l hs]
  | some s =>
    rw [settleStream_of_some l hs, getStream_putStream, Stream.drawTo_id, getStream_id l hs,
      if_neg h]
    rfl

-- A settlement moves what its stream owes into what its recipient is worth.
theorem worth_settleStream (id : StreamId) (a : Address) :
    min (((l.settleStream id now).2.account a).worth now) (2 ^ 128 - 1) =
      min ((l.account a).worth now + l.inflow a now [id]) (2 ^ 128 - 1) := by
  cases hs : l.getStream id with
  | none =>
    rw [settleStream_of_none l hs]
    simp [inflow, hs]
  | some s =>
    rw [settleStream_of_some l hs, account_putStream, account_put]
    simp only [Account.credit_address, Account.settle_address, account_address, inflow,
      List.filterMap_cons, hs, List.filterMap_nil]
    split_ifs with hto
    · rw [hto, Account.worth_credit_settle]
      simp [hto]
    · simp [hto]

theorem inflow_cons (id : StreamId) (ids : List StreamId) (a : Address) :
    l.inflow a now (id :: ids) = l.inflow a now [id] + l.inflow a now ids := by
  rw [inflow, inflow, inflow, ← List.sum_append, ← List.map_append, ← List.filter_append,
    ← List.filterMap_append, List.singleton_append]

theorem inflow_congr {ids : List StreamId} {a : Address}
    (h : ∀ id ∈ ids, l'.getStream id = l.getStream id) :
    l'.inflow a now ids = l.inflow a now ids := by
  rw [inflow, inflow, List.filterMap_congr h]

-- Settling a list of streams settles all that they pay to the account.
theorem worth_settleAll {ids : List StreamId} (h : ids.Nodup) (a : Address) :
    min (((l.settleAll ids now).account a).worth now) (2 ^ 128 - 1) =
      min ((l.account a).worth now + l.inflow a now ids) (2 ^ 128 - 1) := by
  induction ids generalizing l with
  | nil => simp [settleAll, inflow]
  | cons id ids ih =>
    obtain ⟨hnot, hnodup⟩ := List.nodup_cons.mp h
    have hhead := @worth_settleStream now l id a
    have hrest : (l.settleStream id now).2.inflow a now ids = l.inflow a now ids :=
      inflow_congr fun id' hid => getStream_settleStream_ne fun heq => hnot (heq ▸ hid)
    rw [inflow_cons]
    have htail := ih hnodup (l := (l.settleStream id now).2)
    rw [hrest] at htail
    rw [settleAll, List.foldl_cons, ← settleAll, htail]
    omega

-- A spender that folds its incoming streams in first has all of them to spend.
theorem toNat_settled_settleIncoming (l : Ledger) (a : Address) (now : U64) :
    (((l.settleIncoming a now).account a).settle now).settledBalance.toNat =
      l.spendable a now := by
  rw [Account.toNat_settle_settledBalance, settleIncoming, ← settleAll, spendable,
    worth_settleAll (l.nodup_incoming a)]

-- Where the index lists only streams that pay the account, that is its balance.
theorem Indexed.spendable_eq (h : l.Indexed) (a : Address) (now : U64) :
    l.spendable a now = (l.balance a now).toNat := by
  have hall : (l.streamsTo a).filter (fun s => s.to_ = a) = l.streamsTo a := by
    refine List.filter_eq_self.mpr fun s hs => ?_
    obtain ⟨id, hid, hget⟩ := List.mem_filterMap.mp hs
    exact decide_eq_true (h.pays a id hid s hget)
  have hinflow : l.inflow a now (l.incoming a) = l.owedTo a now := by
    rw [inflow, owedTo, ← streamsTo, hall]
  rw [spendable, toNat_balance, worth, hinflow]

end Ledger

end Ubi2.Runtime
