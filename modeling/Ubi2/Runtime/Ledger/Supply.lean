import Ubi2.Lib.Sum
import Ubi2.Runtime.Ledger.Booked

namespace Ubi2.Runtime

open Lib

namespace Ledger

variable {now : U64} {w : Authority} {l l' : Ledger}

variable (l)

-- The accounts that can have a balance: those with a record, and those that a stream pays.
def holders : List Address :=
  (l.accounts.rows.map Account.address ++ l.incomingIdx.rows.map fun e => e.1).dedup

-- The balances of all accounts, and what the open streams have left to accrue.
def supply (now : U64) : Nat :=
  (l.holders.map fun a => (l.balance a now).toNat).sum +
    l.streams.sum fun s => s.remainder now

-- The accounts as `f` weighs them, and `c` times what the open streams hold.
def total (f : Account → Nat) (c : Nat) : Nat :=
  l.accounts.sum f + c * l.streams.sum Stream.locked

theorem account_of_not_holder {a : Address} (h : a ∉ l.holders) :
    l.account a = { address := a } := by
  rw [holders, List.mem_dedup, List.mem_append, not_or] at h
  have hnone : l.accounts.get a = none := by
    rw [Table.get_eq_none_iff]
    exact fun x hx heq => h.1 (List.mem_map.mpr ⟨x, hx, heq⟩)
  rw [account, get, hnone]
  rfl

theorem incoming_of_not_holder {a : Address} (h : a ∉ l.holders) : l.incoming a = [] := by
  rw [holders, List.mem_dedup, List.mem_append, not_or] at h
  rw [List.eq_nil_iff_forall_not_mem]
  intro id hid
  exact h.2 (List.mem_map.mpr ⟨(a, id), mem_indexed.mp hid, rfl⟩)

theorem worth_absent (a : Address) (now : U64) : ({ address := a } : Account).worth now = 0 := by
  rw [Account.worth, Account.pendingEmission_of_unverified _ now rfl]
  rfl

theorem worth_of_not_holder {a : Address} (h : a ∉ l.holders) (now : U64) : l.worth a now = 0 := by
  rw [worth, owedTo, streamsTo, l.account_of_not_holder h, l.incoming_of_not_holder h, worth_absent]
  rfl

variable {l}

-- What the accounts have still to receive is what the streams owe.
theorem Booked.sum_owedTo (h : l.Booked) (now : U64) :
    (l.holders.map fun a => l.owedTo a now).sum = l.streams.sum fun s => (s.owed now).toNat := by
  have hone (a : Address) : l.owedTo a now =
      ((l.streams.rows.filter (fun s => s.to_ = a)).map fun s => (s.owed now).toNat).sum :=
    ((h.streamsTo_perm a).map _).sum_eq
  simp only [hone]
  refine sum_groups (List.nodup_dedup _) _ fun s hs => ?_
  have hlisted := mem_indexed.mp (h.recorded s.id s (Table.get_of_mem hs))
  exact List.mem_dedup.mpr (List.mem_append_right _ (List.mem_map.mpr ⟨_, hlisted, rfl⟩))

theorem sum_account {f : Account → Nat} (hf : ∀ a, f { address := a } = 0) :
    (l.holders.map fun a => f (l.account a)).sum = l.accounts.sum f := by
  have hone (a : Address) : f (l.account a) = ((l.accounts.get a).map f).getD 0 := by
    rw [account, get]
    cases l.accounts.get a with
    | none => exact hf a
    | some x => rfl
  simp only [hone]
  refine Table.sum_get (List.nodup_dedup _) f fun x hx => ?_
  exact List.mem_dedup.mpr (List.mem_append_left _ (List.mem_map_of_mem hx))

-- The supply as it would be if no balance could saturate.
theorem Booked.total_worth (h : l.Booked) (now : U64) :
    (l.holders.map fun a => l.worth a now).sum + l.streams.sum (fun s => s.remainder now) =
      l.total (fun x => x.worth now) 1 := by
  have haccounts := @sum_account l (fun x => x.worth now) fun a => worth_absent a now
  have hlocked : l.streams.sum Stream.locked =
      l.streams.sum (fun s => (s.owed now).toNat) + l.streams.sum (fun s => s.remainder now) := by
    rw [← Table.sum_add]
    refine Table.sum_congr fun s hs => ?_
    exact ((h.sound s.id s (Table.get_of_mem hs)).owed_add_remainder now).symm
  simp only [worth]
  rw [List.sum_map_add, haccounts, h.sum_owedTo, total, hlocked]
  omega

theorem Booked.supply_le (h : l.Booked) (now : U64) :
    l.supply now ≤ l.total (fun x => x.worth now) 1 := by
  rw [← h.total_worth now, supply]
  refine Nat.add_le_add_right (List.sum_le_sum fun a _ => ?_) _
  rw [toNat_balance]
  exact min_le_left _ _

-- Where no balance saturates, that is the supply.
theorem Booked.supply_eq (h : l.Booked) {now : U64} (hmax : ∀ a, l.worth a now < 2 ^ 128) :
    l.supply now = l.total (fun x => x.worth now) 1 := by
  rw [← h.total_worth now, supply]
  congr 2
  refine List.map_congr_left fun a _ => ?_
  have hone := hmax a
  rw [toNat_balance]
  omega

-- A total that a word can hold saturates no balance.
theorem Booked.worth_le_total (h : l.Booked) (a : Address) (now : U64) :
    l.worth a now ≤ l.total (fun x => x.worth now) 1 := by
  have htotal := h.total_worth now
  by_cases ha : a ∈ l.holders
  · have hone : l.worth a now ≤ (l.holders.map fun a => l.worth a now).sum :=
      List.single_le_sum (fun _ _ => Nat.zero_le _) _ (List.mem_map_of_mem ha)
    omega
  · rw [l.worth_of_not_holder ha now]
    exact Nat.zero_le _

-- A weight of accounts that no change of an instant raises, but by what is paid in.
structure Weighs (now : U64) (c : Nat) (f : Account → Nat) : Prop where
  absent : ∀ a, f { address := a } = 0
  settle : ∀ x, f (x.settle now) ≤ f x
  credit : ∀ x v, f (x.credit v) ≤ f x + c * v.toNat
  debit : ∀ x v, v ≤ x.settledBalance → f (x.debit v) + c * v.toNat ≤ f x
  renonce : ∀ (x : Account) n, f { x with nonce := n } ≤ f x

section Weighs

variable {f : Account → Nat} {c : Nat}

theorem total_put (hf : ∀ a, f { address := a } = 0) (x : Account) :
    (l.put x).total f c + f (l.account x.address) = l.total f c + f x := by
  have hput := l.accounts.sum_put x f
  have hold : ((l.accounts.get x.address).map f).getD 0 = f (l.account x.address) := by
    rw [account, get]
    cases l.accounts.get x.address with
    | none => exact (hf _).symm
    | some y => rfl
  rw [hold] at hput
  have hrows : (l.put x).total f c = (l.accounts.put x).sum f + c * l.streams.sum Stream.locked :=
    rfl
  rw [hrows, total]
  omega

theorem total_putStream (s : Stream) :
    (l.putStream s).total f c + c * ((l.getStream s.id).map Stream.locked).getD 0 =
      l.total f c + c * s.locked := by
  have hput := congrArg (c * ·) (l.streams.sum_put s Stream.locked)
  simp only [Nat.mul_add] at hput
  rw [total, total, putStream_accounts, putStream_streams, getStream]
  omega

theorem total_put_le (hf : ∀ a, f { address := a } = 0) {x : Account} {a : Address}
    (ha : x.address = a) (hx : f x ≤ f (l.account a)) : (l.put x).total f c ≤ l.total f c := by
  have hput := @total_put l f c hf x
  rw [ha] at hput
  omega

-- No move raises the total, where the treasury does not spend and no gate raises the weight
-- of its account.
theorem total_move (hf : Weighs now c f) (hspends : ¬ w.spends TREASURY)
    (hgates : ∀ (x : Account) v t, w.gates x v t →
      f { x with verified := v, verifiedAt := t } ≤ f x)
    (hl : l.Booked) (h : Move now w l l') : l'.total f c ≤ l.total f c := by
  cases h with
  | settle a =>
    exact total_put_le hf.absent (l.account_address a) (hf.settle (l.account a))
  | pay a b v ha hne hv =>
    have hdebit := @total_put l f c hf.absent ((l.account a).debit v)
    have hcredit := @total_put (l.put ((l.account a).debit v)) f c hf.absent
      ((l.account b).credit v)
    rw [Account.credit_address, account_address, account_put_ne l (by simpa using hne)] at hcredit
    rw [Account.debit_address, account_address] at hdebit
    have hpaid := hf.debit (l.account a) v hv
    have hreceived := hf.credit (l.account b) v
    omega
  | mint v ha => exact absurd ha hspends
  | renonce a n ha =>
    exact total_put_le hf.absent (l.account_address a) (hf.renonce (l.account a) n)
  | lock a b rate deposit ha hne hv =>
    have hdebit := @total_put { l with nextId := l.nextId + 1 } f c hf.absent
      ((l.account a).debit deposit)
    have hopen := @total_putStream
      ({ l with nextId := l.nextId + 1 }.put ((l.account a).debit deposit)) f c
      (Stream.opened l.nextId a b rate deposit now)
    have hnew : (({ l with nextId := l.nextId + 1 } : Ledger).put
        ((l.account a).debit deposit)).getStream
          (Stream.opened l.nextId a b rate deposit now).id = none := hl.getStream_nextId
    rw [hnew, Stream.locked_opened, Option.map_none, Option.getD_none] at hopen
    rw [Account.debit_address, account_address] at hdebit
    have hpaid := hf.debit (l.account a) deposit hv
    change _ + f (l.account a) = l.total f c + _ at hdebit
    omega
  | draw s hs =>
    have hcredit := @total_put l f c hf.absent ((l.account s.to_).credit (s.owed now))
    have hdraw := @total_putStream (l.put ((l.account s.to_).credit (s.owed now))) f c
      (s.drawTo now)
    rw [Stream.drawTo_id, getStream_put, hs, Option.map_some, Option.getD_some] at hdraw
    rw [Account.credit_address, account_address] at hcredit
    have hreceived := hf.credit (l.account s.to_) (s.owed now)
    have hlocked := congrArg (c * ·) ((hl.sound _ s hs).locked_drawTo now)
    simp only [Nat.mul_add] at hlocked
    omega
  | close s hs ha hdone hopen =>
    have hcredit := @total_put l f c hf.absent
      ((l.account s.from_).credit (Word.satSub s.deposit s.drawn))
    have hclose := @total_putStream
      (l.put ((l.account s.from_).credit (Word.satSub s.deposit s.drawn))) f c
      { s with status := .Stopped now }
    have hlocked : s.locked = (Word.satSub s.deposit s.drawn).toNat :=
      Stream.locked_of_open hopen
    have hstopped : ({ s with status := .Stopped now } : Stream).locked = 0 := rfl
    rw [getStream_put, hs, Option.map_some, Option.getD_some, hlocked, hstopped] at hclose
    rw [Account.credit_address, account_address] at hcredit
    have hreceived := hf.credit (l.account s.from_) (Word.satSub s.deposit s.drawn)
    omega
  | gate a v t ha =>
    exact total_put_le hf.absent (l.account_address a) (hgates (l.account a) v t ha)

theorem total_moves (hf : Weighs now c f) (hspends : ¬ w.spends TREASURY)
    (hgates : ∀ (x : Account) v t, w.gates x v t →
      f { x with verified := v, verifiedAt := t } ≤ f x)
    (hl : l.Booked) (h : Moves now w l l') : l'.total f c ≤ l.total f c :=
  Run.antitone (fun _ _ hmove h => h.move hmove)
    (fun _ _ hmove h => total_move hf hspends hgates h hmove) h hl

end Weighs

end Ledger

namespace Account

variable {x : Account} {now : U64}

theorem pendingEmission_credit (v : U128) :
    (x.credit v).pendingEmission now = x.pendingEmission now := rfl

theorem pendingEmission_debit (v : U128) :
    (x.debit v).pendingEmission now = x.pendingEmission now := rfl

theorem toNat_credit_le (v : U128) :
    (x.credit v).settledBalance.toNat ≤ x.settledBalance.toNat + v.toNat := by
  rw [credit, Word.toNat_satAdd]
  omega

theorem toNat_debit {v : U128} (hv : v ≤ x.settledBalance) :
    (x.debit v).settledBalance.toNat + v.toNat = x.settledBalance.toNat := by
  have hle := BitVec.le_def.mp hv
  rw [debit, BitVec.toNat_sub_of_le hv]
  omega

theorem weighs_worth (now : U64) : Ledger.Weighs now 1 (fun x => x.worth now) where
  absent a := Ledger.worth_absent a now
  settle x := by
    rw [worth_settle]
    exact min_le_left _ _
  credit x v := by
    have hle := @toNat_credit_le x v
    simp only [worth, pendingEmission_credit]
    omega
  debit x v hv := by
    have heq := toNat_debit hv
    simp only [worth, pendingEmission_debit]
    omega
  renonce x n := le_rfl

-- The emission of an account that is not settled, before it is rounded to base units.
def unsettled (x : Account) (now : U64) : Nat :=
  if x.verified then UBI.toNat * (now.toNat - (max x.lastSettledAt x.verifiedAt).toNat) else 0

-- What an account is worth before its emission is rounded.
def ripe (x : Account) (now : U64) : Nat :=
  EMISSION_PERIOD_SECS.toNat * x.settledBalance.toNat + x.unsettled now

theorem toNat_pendingEmission_eq (x : Account) (now : U64) :
    (x.pendingEmission now).toNat = x.unsettled now / EMISSION_PERIOD_SECS.toNat := by
  rw [toNat_pendingEmission, unsettled]
  split_ifs
  · rfl
  · simp

theorem period_mul_worth_le (x : Account) (now : U64) :
    EMISSION_PERIOD_SECS.toNat * x.worth now ≤ x.ripe now := by
  rw [worth, ripe, Nat.mul_add, toNat_pendingEmission_eq]
  exact Nat.add_le_add_left (Nat.mul_div_le _ _) _

theorem unsettled_of_le (h : x.verified = true → now ≤ max x.lastSettledAt x.verifiedAt) :
    x.unsettled now = 0 := by
  unfold unsettled
  split_ifs with hv
  · rw [Nat.sub_eq_zero_of_le (BitVec.le_def.mp (h hv)), Nat.mul_zero]
  · rfl

theorem unsettled_settle (x : Account) (now : U64) : (x.settle now).unsettled now = 0 := by
  refine unsettled_of_le fun _ => ?_
  rw [settle_lastSettledAt]
  exact le_max_of_le_left (le_max_right _ _)

theorem weighs_ripe (now : U64) :
    Ledger.Weighs now EMISSION_PERIOD_SECS.toNat (fun x => x.ripe now) where
  absent a := rfl
  settle x := by
    have hworth := x.period_mul_worth_le now
    have hsettled : EMISSION_PERIOD_SECS.toNat * (x.settle now).settledBalance.toNat ≤
        EMISSION_PERIOD_SECS.toNat * x.worth now := by
      rw [toNat_settle_settledBalance]
      exact Nat.mul_le_mul_left _ (min_le_left _ _)
    simp only [ripe, unsettled_settle] at hworth ⊢
    omega
  credit x v := by
    have hle := Nat.mul_le_mul_left EMISSION_PERIOD_SECS.toNat (@toNat_credit_le x v)
    have hsame : (x.credit v).unsettled now = x.unsettled now := rfl
    simp only [ripe, hsame, Nat.mul_add] at hle ⊢
    omega
  debit x v hv := by
    have heq := congrArg (EMISSION_PERIOD_SECS.toNat * ·) (toNat_debit hv)
    have hsame : (x.debit v).unsettled now = x.unsettled now := rfl
    simp only [ripe, hsame, Nat.mul_add] at heq ⊢
    omega
  renonce x n := le_rfl

-- Time adds its emission to the accounts that are verified.
theorem ripe_later {later : U64} (h : now ≤ later) :
    x.ripe later ≤
      x.ripe now + UBI.toNat * (later.toNat - now.toNat) * (if x.verified then 1 else 0) := by
  have hle := BitVec.le_def.mp h
  unfold ripe unsettled
  split_ifs
  · have helapsed : later.toNat - (max x.lastSettledAt x.verifiedAt).toNat ≤
        (now.toNat - (max x.lastSettledAt x.verifiedAt).toNat) + (later.toNat - now.toNat) := by
      omega
    have hmul := Nat.mul_le_mul_left UBI.toNat helapsed
    rw [Nat.mul_add] at hmul
    omega
  · omega

-- A gate that is closed, set to start at the present, or left as it is.
def Regated (now : U64) (x : Account) (v : Bool) (t : U64) : Prop :=
  v = false ∨ t = now ∨ x.verified = v ∧ x.verifiedAt = t

theorem unsettled_regated {v : Bool} {t : U64} (h : x.Regated now v t) :
    ({ x with verified := v, verifiedAt := t } : Account).unsettled now ≤ x.unsettled now := by
  rcases h with rfl | rfl | ⟨rfl, rfl⟩
  · exact Nat.zero_le _
  · rw [unsettled_of_le fun _ => le_max_right _ _]
    exact Nat.zero_le _
  · exact le_rfl

theorem ripe_regated {v : Bool} {t : U64} (h : x.Regated now v t) :
    ({ x with verified := v, verifiedAt := t } : Account).ripe now ≤ x.ripe now :=
  Nat.add_le_add_left (unsettled_regated h) _

theorem worth_regated {v : Bool} {t : U64} (h : x.Regated now v t) :
    ({ x with verified := v, verifiedAt := t } : Account).worth now ≤ x.worth now := by
  rw [worth, worth, toNat_pendingEmission_eq, toNat_pendingEmission_eq]
  exact Nat.add_le_add_left (Nat.div_le_div_right (unsettled_regated h)) _

end Account

end Ubi2.Runtime
