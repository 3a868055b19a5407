import Ubi2.Lib.Sum
import Ubi2.Runtime.Ledger.Booked

namespace Ubi2.Runtime.Ledger

open Lib

variable {now : U64} {l l' : Ledger} {e : Address}

-- What the streams still have to pay to an account.
def paying (l : Ledger) (e : Address) (now : U64) : Nat :=
  l.streams.sum fun s => if s.to_ = e then (s.owed now).toNat else 0

-- What the streams that an account opened still hold.
def deposits (l : Ledger) (e : Address) : Nat :=
  l.streams.sum fun s => if s.from_ = e then s.locked else 0

-- What an account is worth, by the streams that pay it rather than by the index.
def holding (l : Ledger) (e : Address) (now : U64) : Nat :=
  (l.account e).worth now + l.paying e now

theorem Booked.worth_eq (h : l.Booked) (e : Address) (now : U64) :
    l.worth e now = l.holding e now := by
  have hperm := ((h.streamsTo_perm e).map fun s => (s.owed now).toNat).sum_eq
  rw [Table.sum_filter] at hperm
  rw [worth, owedTo, hperm, holding, paying]
  simp

theorem Booked.toNat_balance_eq (h : l.Booked) (hmax : l.holding e now < 2 ^ 128) :
    (l.balance e now).toNat = l.holding e now := by
  rw [toNat_balance, h.worth_eq]
  omega

-- A balance below the largest word has not been cut off.
theorem Booked.holding_eq (h : l.Booked) (e : Address) (now : U64)
    (hmax : (l.balance e now).toNat < 2 ^ 128 - 1) :
    l.holding e now = (l.balance e now).toNat := by
  have hbalance := @toNat_balance l e now
  rw [h.worth_eq] at hbalance
  omega

theorem holding_put (x : Account) : (l.put x).holding e now =
    if x.address = e then x.worth now + l.paying e now else l.holding e now := by
  have hpaying : (l.put x).paying e now = l.paying e now := rfl
  rw [holding, account_put, hpaying]
  split_ifs <;> rfl

theorem holding_put_ne {x : Account} (h : x.address ≠ e) :
    (l.put x).holding e now = l.holding e now := by
  rw [holding_put, if_neg h]

theorem deposits_put (x : Account) : (l.put x).deposits e = l.deposits e := rfl

theorem paying_putStream (s : Stream) : (l.putStream s).paying e now +
    ((l.getStream s.id).map fun t => if t.to_ = e then (t.owed now).toNat else 0).getD 0 =
      l.paying e now + if s.to_ = e then (s.owed now).toNat else 0 := by
  have hput := l.streams.sum_put s fun t => if t.to_ = e then (t.owed now).toNat else 0
  rwa [paying, putStream_streams]

theorem deposits_putStream (s : Stream) : (l.putStream s).deposits e +
    ((l.getStream s.id).map fun t => if t.from_ = e then t.locked else 0).getD 0 =
      l.deposits e + if s.from_ = e then s.locked else 0 := by
  have hput := l.streams.sum_put s fun t => if t.from_ = e then t.locked else 0
  rwa [deposits, putStream_streams]

-- A ledger in which an account holds what it held, and its streams no more.
structure Keeps (now : U64) (e : Address) (l l' : Ledger) : Prop where
  booked : l'.Booked
  holding : l'.holding e now = l.holding e now
  deposits : l'.deposits e ≤ l.deposits e

theorem Keeps.refl (h : l.Booked) : Keeps now e l l := ⟨h, rfl, le_rfl⟩

theorem Keeps.trans {l'' : Ledger} (h : Keeps now e l l') (h' : Keeps now e l' l'') :
    Keeps now e l l'' :=
  ⟨h'.booked, h'.holding.trans h.holding, h'.deposits.trans h.deposits⟩

theorem Keeps.put_ne (h : Keeps now e l l') {x : Account} (hx : x.address ≠ e) :
    Keeps now e l (l'.put x) :=
  ⟨h.booked.put x, (holding_put_ne hx).trans h.holding, h.deposits⟩

-- An account that is settled, where nothing is cut off.
theorem keeps_settle (h : l.Booked) (hmax : l.holding e now < 2 ^ 128) (a : Address) :
    Keeps now e l (l.put ((l.account a).settle now)) := by
  refine ⟨h.put _, ?_, le_rfl⟩
  rw [holding_put]
  split_ifs with ha
  · have ha : a = e := by simpa using ha
    rw [ha, Account.worth_settle, holding]
    rw [holding] at hmax
    omega
  · rfl

theorem owed_drawTo (s : Stream) (now : U64) : ((s.drawTo now).owed now).toNat = 0 := by
  have hle := BitVec.le_def.mp (s.accrued_le_drawTo_drawn now)
  rw [Stream.toNat_owed, Stream.accrued_drawTo]
  omega

-- What a settlement pays to an account, the stream owed to it before.
theorem keeps_settleStream (h : l.Booked) (hmax : l.holding e now < 2 ^ 128) (id : StreamId) :
    Keeps now e l (l.settleStream id now).2 := by
  cases hs : l.getStream id with
  | none =>
    rw [settleStream_of_none l hs]
    exact .refl h
  | some s =>
    have hid := getStream_id l hs
    have hbooked : (l.settleStream id now).2.Booked :=
      h.moves (moves_settleStream (w := signer e) l id)
    rw [settleStream_of_some l hs] at hbooked ⊢
    dsimp only at hbooked ⊢
    refine ⟨hbooked, ?_, ?_⟩
    · have hpaying := @paying_putStream now
        (l.put (((l.account s.to_).settle now).credit (s.owed now))) e (s.drawTo now)
      rw [Stream.drawTo_id, hid, getStream_put, hs, Option.map_some, Option.getD_some,
        Stream.drawTo_to, owed_drawTo] at hpaying
      have hsame : (l.put (((l.account s.to_).settle now).credit (s.owed now))).paying e now =
          l.paying e now := rfl
      rw [hsame] at hpaying
      rw [holding] at hmax ⊢
      rw [holding, account_putStream, account_put]
      simp only [Account.credit_address, Account.settle_address, account_address]
      split_ifs at hpaying ⊢ with hto
      · rw [hto] at hpaying
        rw [hto, Account.worth_credit_settle]
        omega
      · omega
    · have hdeposits := @deposits_putStream
        (l.put (((l.account s.to_).settle now).credit (s.owed now))) e (s.drawTo now)
      have hlocked := (h.sound id s hs).locked_drawTo now
      rw [Stream.drawTo_id, hid, getStream_put, hs, Option.map_some, Option.getD_some,
        Stream.drawTo_from, deposits_put] at hdeposits
      split_ifs at hdeposits <;> omega

theorem keeps_settleIncoming (h : l.Booked) (hmax : l.holding e now < 2 ^ 128) (a : Address) :
    Keeps now e l (l.settleIncoming a now) := by
  refine Run.foldl_invariant (P := fun l' : Ledger => Keeps now e l l') (fun l' id hkeeps => ?_)
    (l.incoming a) (.refl h)
  exact hkeeps.trans (keeps_settleStream hkeeps.booked (by rw [hkeeps.holding]; exact hmax) id)

-- A fee changes nothing for an account that neither pays nor receives it.
theorem keeps_chargeFee (h : l.Booked) (hmax : l.holding e now < 2 ^ 128) {a : Address} (gas : U64)
    (hne : a ≠ e) (htreasury : TREASURY ≠ e) : Keeps now e l (l.chargeFee a gas now).2 := by
  have hkeeps := keeps_settleIncoming h hmax a
  simp only [chargeFee]
  split_ifs
  · exact hkeeps
  · exact hkeeps.put_ne (by simpa using hne)
  · exact (hkeeps.put_ne (by simpa using hne)).put_ne (by simpa using htreasury)

-- What a transfer that succeeds leaves, once the sender's streams are folded in.
theorem applyTransfer_eq {a b : Address} {v : U128} {nonce : U64}
    (happly : l.applyTransfer a b v nonce now = (.ok (), l')) :
    ∃ l₁, l₁ = l.settleIncoming a now ∧ v ≤ ((l₁.account a).settle now).settledBalance ∧
      l' = if a = b then l₁.put { (l₁.account a).settle now with nonce := nonce + 1#64 }
        else (l₁.put { ((l₁.account a).settle now).debit v with nonce := nonce + 1#64 }).put
          (((l₁.account b).settle now).credit v) := by
  refine ⟨_, rfl, ?_⟩
  simp only [applyTransfer] at happly
  generalize l.settleIncoming a now = l₁ at happly ⊢
  by_cases hnonce : nonce = ((l₁.account a).settle now).nonce
  swap
  · rw [if_pos hnonce] at happly
    cases happly
  rw [if_neg (not_not.mpr hnonce)] at happly
  by_cases hfunds : ((l₁.account a).settle now).settledBalance < v
  · rw [if_pos hfunds] at happly
    cases happly
  rw [if_neg hfunds] at happly
  refine ⟨not_lt.mp hfunds, ?_⟩
  rw [hnonce]
  split_ifs at happly ⊢
  · exact (Prod.mk.inj happly).2.symm
  · exact (Prod.mk.inj happly).2.symm

theorem worth_debit_settle {x : Account} {v : U128} (hv : v ≤ (x.settle now).settledBalance) :
    ((x.settle now).debit v).worth now + v.toNat = (x.settle now).worth now := by
  have hle := BitVec.le_def.mp hv
  have hsame : ((x.settle now).debit v).pendingEmission now = (x.settle now).pendingEmission now :=
    rfl
  rw [Account.worth, Account.worth, hsame, Account.debit, BitVec.toNat_sub_of_le hv]
  omega

-- A payment lowers what its sender holds by its value.
theorem holding_applyTransfer_from (h : l.Booked) (hmax : l.holding e now < 2 ^ 128) {b : Address}
    {v : U128} {nonce : U64} (hne : e ≠ b)
    (happly : l.applyTransfer e b v nonce now = (.ok (), l')) :
    l'.Booked ∧ l'.holding e now + v.toNat = l.holding e now ∧ l'.deposits e ≤ l.deposits e := by
  obtain ⟨l₁, hl₁, hfunds, rfl⟩ := applyTransfer_eq happly
  have hkeeps := keeps_settleIncoming h hmax e
  rw [← hl₁] at hkeeps
  rw [if_neg hne]
  refine ⟨(hkeeps.booked.put _).put _, ?_, hkeeps.deposits⟩
  have hdebit := worth_debit_settle hfunds
  have hworth : ({ ((l₁.account e).settle now).debit v with nonce := nonce + 1#64 } : Account).worth
      now = (((l₁.account e).settle now).debit v).worth now := rfl
  have hmax₁ := hkeeps.holding ▸ hmax
  rw [holding] at hmax₁
  rw [holding_put_ne (by simpa using hne.symm), holding_put, if_pos (by simp), hworth,
    ← hkeeps.holding, holding]
  rw [Account.worth_settle] at hdebit
  omega

-- A payment to another account raises what that holds.
theorem holding_applyTransfer_to (h : l.Booked) {a : Address} {v : U128} {nonce : U64}
    (hmax : l.holding e now + v.toNat < 2 ^ 128) (hne : a ≠ e)
    (happly : l.applyTransfer a e v nonce now = (.ok (), l')) :
    l'.Booked ∧ l'.holding e now = l.holding e now + v.toNat ∧ l'.deposits e ≤ l.deposits e := by
  obtain ⟨l₁, hl₁, hfunds, rfl⟩ := applyTransfer_eq happly
  have hkeeps := keeps_settleIncoming h (by omega : l.holding e now < 2 ^ 128) a
  rw [← hl₁] at hkeeps
  rw [if_neg hne]
  refine ⟨(hkeeps.booked.put _).put _, ?_, hkeeps.deposits⟩
  have hmax₁ := hkeeps.holding ▸ hmax
  rw [holding] at hmax₁
  rw [holding_put, if_pos (by simp), Account.worth_credit_settle, ← hkeeps.holding, holding]
  change _ + l₁.paying e now = _
  omega

theorem keeps_applyTransfer_self (h : l.Booked) (hmax : l.holding e now < 2 ^ 128) {v : U128}
    {nonce : U64} (happly : l.applyTransfer e e v nonce now = (.ok (), l')) :
    Keeps now e l l' := by
  obtain ⟨l₁, hl₁, -, rfl⟩ := applyTransfer_eq happly
  have hkeeps := keeps_settleIncoming h hmax e
  rw [← hl₁] at hkeeps
  rw [if_pos rfl]
  refine ⟨hkeeps.booked.put _, ?_, hkeeps.deposits⟩
  have hsettle := keeps_settle hkeeps.booked (by rw [hkeeps.holding]; exact hmax) e
  have hworth : ({ (l₁.account e).settle now with nonce := nonce + 1#64 } : Account).worth now =
      ((l₁.account e).settle now).worth now := rfl
  have hheld := hsettle.holding.trans hkeeps.holding
  rw [holding_put, if_pos (by simp)] at hheld ⊢
  rw [hworth]
  exact hheld

theorem openStream_eq {a b : Address} {rate deposit : U128} {id : StreamId}
    (hopen : l.openStream a b rate deposit now = (.ok id, l')) :
    a ≠ b ∧ deposit ≤ ((l.account a).settle now).settledBalance ∧
      l' = ({ l with nextId := l.nextId + 1 }.put
        (((l.account a).settle now).debit deposit)).putStream
          (Stream.opened l.nextId a b rate deposit now) := by
  simp only [openStream] at hopen
  split_ifs at hopen with hself hrate hdeposit hrange hfunds
  all_goals cases hopen
  exact ⟨hself, not_lt.mp hfunds, rfl⟩

-- A stream takes its deposit out of what its sender holds.
theorem holding_openStream (h : l.Booked) (hmax : l.holding e now < 2 ^ 128) {b : Address}
    {rate deposit : U128} {id : StreamId}
    (hopen : l.openStream e b rate deposit now = (.ok id, l')) :
    l'.Booked ∧ l'.holding e now + deposit.toNat = l.holding e now ∧
      l'.deposits e = l.deposits e + deposit.toNat := by
  have hbooked : l'.Booked := by
    have hmoves : Moves now (signer e) l _ := moves_openStream (b := b) l rate deposit rfl
    rw [hopen] at hmoves
    exact h.moves hmoves
  obtain ⟨hne, hfunds, rfl⟩ := openStream_eq hopen
  have hnew : (({ l with nextId := l.nextId + 1 } : Ledger).put
      (((l.account e).settle now).debit deposit)).getStream
        (Stream.opened l.nextId e b rate deposit now).id = none := h.getStream_nextId
  refine ⟨hbooked, ?_, ?_⟩
  · have hpaying := @paying_putStream now (({ l with nextId := l.nextId + 1 } : Ledger).put
      (((l.account e).settle now).debit deposit)) e (Stream.opened l.nextId e b rate deposit now)
    have hto : (Stream.opened l.nextId e b rate deposit now).to_ ≠ e := hne.symm
    rw [hnew, if_neg hto] at hpaying
    have hdebit := worth_debit_settle hfunds
    rw [Account.worth_settle] at hdebit
    rw [holding] at hmax ⊢
    rw [account_putStream, account_put_of_address _ (by simp), holding]
    change _ + 0 = l.paying e now + 0 at hpaying
    omega
  · have hdeposits := @deposits_putStream (({ l with nextId := l.nextId + 1 } : Ledger).put
      (((l.account e).settle now).debit deposit)) e (Stream.opened l.nextId e b rate deposit now)
    have hfrom : (Stream.opened l.nextId e b rate deposit now).from_ = e := rfl
    rw [hnew, if_pos hfrom, Stream.locked_opened] at hdeposits
    exact hdeposits

theorem stopStream_ok {id : StreamId} {refund : U128}
    (hstop : l.stopStream id e now = some (.ok refund, l')) :
    ∃ s, l.getStream id = some s ∧ s.from_ = e ∧ s.status = .Active ∧
      refund = Word.satSub s.deposit (s.drawTo now).drawn ∧ l' = l.stopped s now := by
  rw [stopStream_eq] at hstop
  cases hs : l.getStream id with
  | none => simp [hs] at hstop
  | some s =>
    simp only [hs, Option.some.injEq] at hstop
    split_ifs at hstop with hfrom hactive
    · cases hstop
    · cases hstop
    · obtain ⟨hrefund, hl'⟩ := Prod.mk.inj hstop
      exact ⟨s, rfl, not_not.mp hfrom, not_not.mp hactive, (Except.ok.inj hrefund).symm, hl'.symm⟩

-- A stop gives back what the stream still held.
theorem holding_stopStream (h : l.Booked) (hmax : l.holding e now + l.deposits e < 2 ^ 128)
    {id : StreamId} {refund : U128} (hstop : l.stopStream id e now = some (.ok refund, l')) :
    l'.Booked ∧ l'.holding e now = l.holding e now + refund.toNat ∧
      l'.deposits e + refund.toNat ≤ l.deposits e := by
  have hbooked : l'.Booked := h.moves (moves_stopStream (w := signer e) l rfl hstop)
  obtain ⟨s, hs, hfrom, hactive, hrefund, rfl⟩ := stopStream_ok hstop
  have hkeeps := keeps_settleStream h (by omega : l.holding e now < 2 ^ 128) s.id
  have hopened : l.getStream s.id = some s := by rw [getStream_id l hs]; exact hs
  have hget : (l.settleStream s.id now).2.getStream s.id = some (s.drawTo now) :=
    getStream_settleStream l hopened
  refine ⟨hbooked, ?_⟩
  simp only [stopped]
  generalize (l.settleStream s.id now).2 = l₁ at hkeeps hget ⊢
  have hopen : (s.drawTo now).status = .Active ∨
      (s.drawTo now).status = .Completed ∧ (s.drawTo now).deposit ≤ (s.drawTo now).drawn := by
    rw [Stream.drawTo_status, Stream.drawTo_deposit, Stream.drawTo_drawn]
    split_ifs with hfull
    · exact Or.inr ⟨rfl, hfull.1⟩
    · exact Or.inl hactive
  have hlocked := Stream.locked_of_open hopen
  rw [Stream.drawTo_deposit, ← hrefund] at hlocked
  obtain ⟨t, ht⟩ : ∃ t : Stream, t = { s.drawTo now with status := .Stopped now } := ⟨_, rfl⟩
  rw [← ht, hfrom, ← hrefund]
  have hid : t.id = (s.drawTo now).id := by rw [ht]
  have hopener : t.from_ = e := by rw [ht, ← hfrom, Stream.drawTo_from]
  have hpays : t.to_ ≠ e := by
    rw [ht, Stream.drawTo_to, ← hfrom]
    exact (h.distinct id s hs).symm
  have hempty : t.locked = 0 := by
    rw [ht]
    rfl
  have hold : (l₁.put (((l₁.account e).settle now).credit refund)).getStream t.id =
      some (s.drawTo now) := by
    simpa [hid] using hget
  have hdeposits := @deposits_putStream (l₁.put (((l₁.account e).settle now).credit refund)) e t
  have hpaying := @paying_putStream now (l₁.put (((l₁.account e).settle now).credit refund)) e t
  rw [hold, Option.map_some, Option.getD_some, Stream.drawTo_from, if_pos hfrom, hlocked,
    if_pos hopener, hempty, deposits_put] at hdeposits
  rw [hold, Option.map_some, Option.getD_some, Stream.drawTo_to, if_neg hpays,
    if_neg (by rw [← hfrom]; exact (h.distinct id s hs).symm)] at hpaying
  have hleft := hkeeps.deposits
  have hheld := hkeeps.holding
  refine ⟨?_, by omega⟩
  rw [holding] at hheld
  rw [holding, account_putStream, account_put_of_address _ (by simp), Account.worth_credit_settle]
  change _ + 0 = l₁.paying e now + 0 at hpaying
  omega

end Ubi2.Runtime.Ledger
