import Ubi2.Runtime.Ledger.Inflow

namespace Ubi2.Runtime

open Lib

namespace Stream

variable {s : Stream} {now t : U64}

-- What holds of a stream from its opening on. Once it has ended it has paid out all that
-- it will ever have accrued.
structure Sound (s : Stream) : Prop where
  drawn_le : s.drawn ≤ s.deposit
  ended : s.status ≠ .Active → ∀ t, s.accrued t ≤ s.drawn
  completed : s.status = .Completed → s.drawn = s.deposit

theorem sound_opened (id : StreamId) (a b : Address) (rate deposit : U128) (now : U64) :
    (opened id a b rate deposit now).Sound := by
  refine ⟨?_, fun h => absurd rfl h, by rintro ⟨⟩⟩
  simp [BitVec.le_def, opened]

theorem Sound.drawTo (h : s.Sound) (now : U64) : (s.drawTo now).Sound := by
  have hdrawn := BitVec.le_def.mp h.drawn_le
  have haccrued := BitVec.le_def.mp (s.accrued_le_deposit now)
  have hmax := s.toNat_drawTo_drawn now
  have hstatus := s.drawTo_status now
  rw [← drawTo_drawn] at hstatus
  have hle : (s.drawTo now).drawn ≤ s.deposit := by
    rw [BitVec.le_def]
    omega
  refine ⟨by rwa [drawTo_deposit], ?_, ?_⟩
  · intro hended t
    rw [accrued_drawTo]
    split_ifs at hstatus with hfull
    · exact (s.accrued_le_deposit t).trans hfull.1
    · rw [hstatus] at hended
      have hold := BitVec.le_def.mp (h.ended hended t)
      rw [BitVec.le_def]
      omega
  · intro hcompleted
    rw [drawTo_deposit]
    split_ifs at hstatus with hfull
    · exact le_antisymm hle hfull.1
    · rw [hstatus] at hcompleted
      have hold := congrArg BitVec.toNat (h.completed hcompleted)
      apply BitVec.eq_of_toNat_eq
      omega

-- A stop freezes what has accrued, wherever in time it is asked later.
theorem accrued_stopped_le (hactive : s.status = .Active) :
    ({ s with status := .Stopped now } : Stream).accrued t ≤ s.accrued now := by
  have hend : min t (min now s.tEnd) ≤ min now s.tEnd := min_le_right _ _
  have hnow : s.endOrStop = s.tEnd := by simp [endOrStop, hactive]
  have hstop : ({ s with status := .Stopped now } : Stream).endOrStop = min now s.tEnd := rfl
  have helapsed : ((Word.satSub (min t (min now s.tEnd)) s.startedAt).setWidth 128).toNat ≤
      ((Word.satSub (min now s.tEnd) s.startedAt).setWidth 128).toNat := by
    have hlt := (min t (min now s.tEnd)).isLt
    have hlt' := (min now s.tEnd).isLt
    rw [BitVec.le_def] at hend
    simp only [BitVec.toNat_setWidth, Word.toNat_satSub]
    rw [Nat.mod_eq_of_lt (by omega), Nat.mod_eq_of_lt (by omega)]
    omega
  simp only [accrued, hstop, hnow]
  refine min_le_min_right _ ?_
  have hmul := Nat.mul_le_mul_left s.rate.toNat helapsed
  rw [BitVec.le_def]
  simp only [Word.toNat_satMul]
  omega

theorem Sound.stopped (h : s.Sound) (hactive : s.status = .Active) :
    ({ s.drawTo now with status := .Stopped now } : Stream).Sound := by
  have hdrawn := h.drawTo now
  refine ⟨hdrawn.drawn_le, fun _ t => ?_, by rintro ⟨⟩⟩
  have hfrozen : ({ s.drawTo now with status := .Stopped now } : Stream).accrued t =
      ({ s with status := .Stopped now } : Stream).accrued t := by
    simp only [Stream.drawTo]
    split_ifs <;> rfl
  rw [hfrozen]
  exact (accrued_stopped_le hactive).trans (s.accrued_le_drawTo_drawn now)

-- A stream that has ended owes nothing more and stays as it is.
theorem Sound.owed_of_ended (h : s.Sound) (hended : s.status ≠ .Active) (t : U64) :
    s.owed t = 0#128 :=
  (Word.satSub_eq_zero_iff _ _).mpr (h.ended hended t)

theorem Sound.drawTo_of_ended (h : s.Sound) (hended : s.status ≠ .Active) (t : U64) :
    s.drawTo t = s := by
  rw [Stream.drawTo, h.owed_of_ended hended t, Word.satAdd_zero]
  exact if_neg fun hfull => hended hfull.2

end Stream

-- A call on a stream.
inductive StreamCall where
  | settle (id : StreamId) (now : U64)
  | stop (id : StreamId) (caller : Address) (now : U64)

namespace StreamCall

def id : StreamCall → StreamId
  | .settle id _ | .stop id _ _ => id

def now : StreamCall → U64
  | .settle _ now | .stop _ _ now => now

end StreamCall

namespace Ledger

variable {l l' : Ledger} {id : StreamId} {s : Stream} {now : U64}

-- What a call returns, and the ledger after it.
def call (l : Ledger) : StreamCall → Option (Except StreamError U128 × Ledger)
  | .settle id now => some (.ok (l.settleStream id now).1, (l.settleStream id now).2)
  | .stop id caller now => l.stopStream id caller now

def calls (l : Ledger) : List StreamCall → Option Ledger
  | [] => some l
  | c :: cs => (l.call c).bind fun r => r.2.calls cs

-- What the recipient of a stream gains in a call on it, over its own emission.
def credited (id : StreamId) (l l' : Ledger) (c : StreamCall) : Nat :=
  match l.getStream id with
  | none => 0
  | some s =>
    if c.id = id then
      (l'.account s.to_).settledBalance.toNat -
        ((l.account s.to_).settle c.now).settledBalance.toNat
    else 0

-- What it gains in a run of calls.
def credits (id : StreamId) (l : Ledger) : List StreamCall → Nat
  | [] => 0
  | c :: cs =>
    match l.call c with
    | none => 0
    | some r => credited id l r.2 c + credits id r.2 cs

-- No call of a run leaves an account at the largest balance there is.
def Unsaturated (a : Address) (l : Ledger) : List StreamCall → Prop
  | [] => True
  | c :: cs => ∀ r, l.call c = some r →
    (r.2.account a).settledBalance.toNat < 2 ^ 128 - 1 ∧ Unsaturated a r.2 cs

-- What one call does with a stream: `s` before it and `s'` after it.
structure Pays (id : StreamId) (l : Ledger) (c : StreamCall) (r : Except StreamError U128 × Ledger)
    (s s' : Stream) : Prop where
  stream : r.2.getStream id = some s'
  rises : s.drawn ≤ s'.drawn
  -- the recipient gains what is drawn, as far as its balance can hold it
  credit : credited id l r.2 c ≤ s'.drawn.toNat - s.drawn.toNat
  exact : (r.2.account s.to_).settledBalance.toNat < 2 ^ 128 - 1 →
    credited id l r.2 c = s'.drawn.toNat - s.drawn.toNat
  -- a stop gives the sender the rest of the deposit
  refund : ∀ caller t v, c = .stop id caller t → r.1 = .ok v →
    s'.drawn.toNat + v.toNat = s.deposit.toNat ∧ s'.status = .Stopped t ∧
      r.2.account s.from_ = ((l.account s.from_).settle t).credit v
  -- after the end nothing moves
  ended : s.status ≠ .Active → s' = s ∧ credited id l r.2 c = 0 ∧
    ∀ caller t v, c = .stop id caller t → r.1 ≠ .ok v

theorem getStream_stopped_ne (h : s.id ≠ id) :
    (l.stopped s now).getStream id = l.getStream id := by
  simp only [stopped]
  rw [getStream_putStream, if_neg (by simpa using h), getStream_put, getStream_settleStream_ne h]

-- A call on another stream leaves a stream as it is.
theorem pays_other {c : StreamCall} (hs : l.getStream id = some s) (hc : c.id ≠ id) :
    ∃ r, l.call c = some r ∧ Pays id l c r s s := by
  have hcredited (l' : Ledger) : credited id l l' c = 0 := by
    rw [credited, hs]
    exact if_neg hc
  have hpays (r : Except StreamError U128 × Ledger) (hget : r.2.getStream id = l.getStream id) :
      Pays id l c r s s := by
    refine ⟨hget.trans hs, le_rfl, by simp [hcredited], fun _ => by simp [hcredited], ?_, ?_⟩
    · rintro caller t v rfl
      exact absurd rfl hc
    · refine fun _ => ⟨rfl, hcredited _, ?_⟩
      rintro caller t v rfl
      exact absurd rfl hc
  cases c with
  | settle id' now => exact ⟨_, rfl, hpays _ (getStream_settleStream_ne hc)⟩
  | stop id' caller now =>
    rw [call, stopStream_eq]
    refine ⟨_, rfl, hpays _ ?_⟩
    cases hs' : l.getStream id' with
    | none => rfl
    | some s' =>
      have hid := getStream_id l hs'
      dsimp only
      split_ifs
      · rfl
      · rfl
      · exact getStream_stopped_ne (by rw [hid]; exact hc)

-- A call that changes nothing, such as a stop that is refused.
theorem credited_self (c : StreamCall) : credited id l l c = 0 := by
  unfold credited
  cases l.getStream id with
  | none => rfl
  | some s =>
    dsimp only
    split_ifs
    · exact Nat.sub_eq_zero_of_le
        (BitVec.le_def.mp ((l.account s.to_).settledBalance_le_settle c.now))
    · rfl

theorem pays_refused {c : StreamCall} {e : StreamError} (hs : l.getStream id = some s) :
    Pays id l c (.error e, l) s s := by
  refine ⟨hs, le_rfl, by simp [credited_self], fun _ => by simp [credited_self], ?_, ?_⟩
  · rintro caller t v rfl hv
    cases hv
  · refine fun _ => ⟨rfl, credited_self _, ?_⟩
    rintro caller t v rfl hv
    cases hv

-- What a recipient that is credited in a settlement gains.
theorem gain_le (x v : U128) : (Word.satAdd x v).toNat - x.toNat ≤ v.toNat := by
  rw [Word.toNat_satAdd]
  omega

theorem gain_eq {x v : U128} (h : (Word.satAdd x v).toNat < 2 ^ 128 - 1) :
    (Word.satAdd x v).toNat - x.toNat = v.toNat := by
  rw [Word.toNat_satAdd] at h ⊢
  omega

theorem toNat_drawTo_sub (s : Stream) (now : U64) :
    (s.drawTo now).drawn.toNat - s.drawn.toNat = (s.owed now).toNat := by
  rw [Stream.toNat_drawTo_drawn, Stream.toNat_owed]
  omega

-- The account of the recipient after a settlement.
theorem account_settleStream_to (hs : l.getStream id = some s) :
    (l.settleStream id now).2.account s.to_ =
      ((l.account s.to_).settle now).credit (s.owed now) := by
  rw [settleStream_of_some l hs, account_putStream, account_put_of_address _ (by simp)]

theorem account_settleStream_ne {a : Address} (hs : l.getStream id = some s) (h : s.to_ ≠ a) :
    (l.settleStream id now).2.account a = l.account a := by
  rw [settleStream_of_some l hs, account_putStream, account_put_ne _ (by simpa using h)]

-- A settlement pays what is owed.
theorem pays_settle (hs : l.getStream id = some s) (hsound : s.Sound) :
    ∃ r, l.call (.settle id now) = some r ∧
      Pays id l (.settle id now) r s (s.drawTo now) := by
  have hid := getStream_id l hs
  have hcredited : credited id l (l.settleStream id now).2 (.settle id now) =
      (Word.satAdd ((l.account s.to_).settle now).settledBalance (s.owed now)).toNat -
        ((l.account s.to_).settle now).settledBalance.toNat := by
    rw [credited, hs]
    simp only [StreamCall.id, StreamCall.now, if_true, account_settleStream_to hs, Account.credit]
  refine ⟨_, rfl, ?_, ?_, ?_, ?_, by rintro caller t v ⟨⟩, ?_⟩
  · have hget : (l.settleStream s.id now).2.getStream s.id = some (s.drawTo now) :=
      getStream_settleStream l (by rw [hid]; exact hs)
    rwa [hid] at hget
  · rw [BitVec.le_def, Stream.toNat_drawTo_drawn]
    omega
  · rw [hcredited, toNat_drawTo_sub]
    exact gain_le _ _
  · intro hmax
    dsimp only at hmax
    rw [account_settleStream_to hs] at hmax
    rw [hcredited, toNat_drawTo_sub]
    exact gain_eq hmax
  · intro hended
    refine ⟨hsound.drawTo_of_ended hended now, ?_, by rintro caller t v ⟨⟩⟩
    rw [hcredited, hsound.owed_of_ended hended now, Word.satAdd_zero]
    omega

-- A stop by the sender pays what is owed, and gives the rest back.
theorem pays_stop (hs : l.getStream id = some s) (hsound : s.Sound) (hne : s.from_ ≠ s.to_)
    (hactive : s.status = .Active) :
    ∃ r, l.call (.stop id s.from_ now) = some r ∧
      Pays id l (.stop id s.from_ now) r s { s.drawTo now with status := .Stopped now } := by
  have hid := getStream_id l hs
  have hcall : l.call (.stop id s.from_ now) =
      some (.ok (Word.satSub s.deposit (s.drawTo now).drawn), l.stopped s now) := by
    rw [call, stopStream_eq, hs]
    simp [hactive]
  have hto : (l.stopped s now).account s.to_ =
      ((l.account s.to_).settle now).credit (s.owed now) := by
    simp only [stopped, account_putStream]
    rw [account_put_ne _ (by simpa using hne), hid, account_settleStream_to hs]
  have hfrom : (l.stopped s now).account s.from_ = ((l.account s.from_).settle now).credit
      (Word.satSub s.deposit (s.drawTo now).drawn) := by
    simp only [stopped, account_putStream]
    rw [account_put_of_address _ (by simp), hid, account_settleStream_ne hs hne.symm]
  have hcredited : credited id l (l.stopped s now) (.stop id s.from_ now) =
      (Word.satAdd ((l.account s.to_).settle now).settledBalance (s.owed now)).toNat -
        ((l.account s.to_).settle now).settledBalance.toNat := by
    rw [credited, hs]
    simp only [StreamCall.id, StreamCall.now, if_true, hto, Account.credit]
  refine ⟨_, hcall, ?_, ?_, ?_, ?_, ?_, fun hended => absurd hactive hended⟩
  · simp only [stopped]
    rw [getStream_putStream]
    exact if_pos (by simpa using hid)
  · change s.drawn ≤ (s.drawTo now).drawn
    rw [BitVec.le_def, Stream.toNat_drawTo_drawn]
    omega
  · rw [hcredited]
    exact (gain_le _ _).trans (toNat_drawTo_sub s now).ge
  · intro hmax
    dsimp only at hmax
    rw [hto] at hmax
    rw [hcredited]
    exact (gain_eq hmax).trans (toNat_drawTo_sub s now).symm
  · rintro caller t v heq hv
    cases heq
    cases hv
    refine ⟨?_, rfl, hfrom⟩
    have hle := BitVec.le_def.mp (hsound.drawTo now).drawn_le
    rw [Stream.drawTo_deposit] at hle
    rw [Word.toNat_satSub]
    change (s.drawTo now).drawn.toNat + _ = _
    omega

-- One call, from a stream that is sound.
theorem pays_call (hs : l.getStream id = some s) (hsound : s.Sound) (hne : s.from_ ≠ s.to_)
    (c : StreamCall) : ∃ r s', l.call c = some r ∧ Pays id l c r s s' ∧ s'.Sound ∧
      s'.from_ = s.from_ ∧ s'.to_ = s.to_ ∧ s'.deposit = s.deposit := by
  by_cases hc : c.id = id
  swap
  · obtain ⟨r, hcall, hpays⟩ := pays_other hs hc
    exact ⟨r, s, hcall, hpays, hsound, rfl, rfl, rfl⟩
  cases c with
  | settle id' now =>
    obtain rfl : id' = id := hc
    obtain ⟨r, hcall, hpays⟩ := @pays_settle l id' s now hs hsound
    exact ⟨r, _, hcall, hpays, hsound.drawTo now, s.drawTo_from now, s.drawTo_to now,
      s.drawTo_deposit now⟩
  | stop id' caller now =>
    obtain rfl : id' = id := hc
    by_cases hcaller : s.from_ = caller
    · subst hcaller
      by_cases hactive : s.status = .Active
      · obtain ⟨r, hcall, hpays⟩ := @pays_stop l id' s now hs hsound hne hactive
        exact ⟨r, _, hcall, hpays, hsound.stopped hactive, s.drawTo_from now, s.drawTo_to now,
          s.drawTo_deposit now⟩
      · refine ⟨(.error .NotActive, l), s, ?_, pays_refused hs, hsound, rfl, rfl, rfl⟩
        rw [call, stopStream_eq, hs]
        simp [hactive]
    · refine ⟨(.error .NotSender, l), s, ?_, pays_refused hs, hsound, rfl, rfl, rfl⟩
      rw [call, stopStream_eq, hs]
      simp [hcaller]

-- A run of calls, from a stream that is sound.
theorem pays_calls (hs : l.getStream id = some s) (hsound : s.Sound) (hne : s.from_ ≠ s.to_)
    (cs : List StreamCall) : ∃ l₂ s₂, l.calls cs = some l₂ ∧ l₂.getStream id = some s₂ ∧
      s₂.Sound ∧ s₂.from_ = s.from_ ∧ s₂.to_ = s.to_ ∧ s₂.deposit = s.deposit ∧
      s.drawn.toNat + credits id l cs ≤ s₂.drawn.toNat ∧
      (Unsaturated s.to_ l cs → s.drawn.toNat + credits id l cs = s₂.drawn.toNat) := by
  induction cs generalizing l s with
  | nil => exact ⟨l, s, rfl, hs, hsound, rfl, rfl, rfl, le_rfl, fun _ => rfl⟩
  | cons c cs ih =>
    obtain ⟨r, s', hcall, hpays, hsound', hfrom, hto, hdeposit⟩ := pays_call hs hsound hne c
    obtain ⟨l₂, s₂, hcalls, hs₂, hsound₂, hfrom₂, hto₂, hdeposit₂, hle, heq⟩ :=
      ih hpays.stream hsound' (by rwa [hfrom, hto])
    have hrises := BitVec.le_def.mp hpays.rises
    have hcredit := hpays.credit
    have hcredits : credits id l (c :: cs) = credited id l r.2 c + credits id r.2 cs := by
      simp only [credits, hcall]
    refine ⟨l₂, s₂, ?_, hs₂, hsound₂, hfrom₂.trans hfrom, hto₂.trans hto,
      hdeposit₂.trans hdeposit, ?_, ?_⟩
    · rw [calls, hcall]
      exact hcalls
    · rw [hcredits]
      omega
    · intro hunsaturated
      obtain ⟨hbelow, hrest⟩ := hunsaturated r hcall
      have hexact := hpays.exact hbelow
      have htail := heq (by rwa [hto])
      rw [hcredits]
      omega

theorem openStream_ok {a b : Address} {rate deposit : U128}
    (h : l.openStream a b rate deposit now = (.ok id, l')) :
    a ≠ b ∧ l'.getStream id = some (Stream.opened id a b rate deposit now) := by
  simp only [openStream] at h
  split_ifs at h with hself hrate hdeposit hmax hfunds
  all_goals cases h
  refine ⟨hself, ?_⟩
  rw [getStream_putStream]
  exact if_pos rfl

-- From its opening on, whatever calls are made on it at whatever times, a stream draws no
-- more than its deposit, pays its recipient what it draws, and gives the rest back when it
-- is stopped.
theorem stream_solvent {from_ to_ : Address} {rate deposit : U128}
    (hopen : l.openStream from_ to_ rate deposit now = (.ok id, l')) (cs : List StreamCall) :
    ∃ l₂ s, l'.calls cs = some l₂ ∧ l₂.getStream id = some s ∧
      s.from_ = from_ ∧ s.to_ = to_ ∧ s.deposit = deposit ∧ s.drawn ≤ s.deposit ∧
      credits id l' cs ≤ s.drawn.toNat ∧
      (Unsaturated to_ l' cs → credits id l' cs = s.drawn.toNat) ∧
      (s.status = .Completed → s.drawn = s.deposit) ∧
      ∀ c, ∃ r s', l₂.call c = some r ∧ Pays id l₂ c r s s' := by
  obtain ⟨hne, hopened⟩ := openStream_ok hopen
  obtain ⟨l₂, s, hcalls, hs, hsound, hfrom, hto, hdeposit, hle, heq⟩ :=
    pays_calls hopened (Stream.sound_opened id from_ to_ rate deposit now) hne cs
  have hzero : (Stream.opened id from_ to_ rate deposit now).drawn.toNat = 0 := rfl
  rw [hzero, Nat.zero_add] at hle heq
  refine ⟨l₂, s, hcalls, hs, hfrom, hto, hdeposit, hsound.drawn_le, hle, heq,
    hsound.completed, fun c => ?_⟩
  obtain ⟨r, s', hcall, hpays, -⟩ := pays_call hs hsound (by rwa [hfrom, hto]) c
  exact ⟨r, s', hcall, hpays⟩

-- A stream of ten base units to an account with the given balance.
def streamTo (balance : U128) : Ledger :=
  (({} : Ledger).put { address := 1#160, settledBalance := 10#128 }).put
    { address := 2#160, settledBalance := balance }

-- A recipient at the largest balance gains nothing from what is drawn.
theorem saturated_credit_lost :
    let opened := (streamTo Word.max).openStream 1#160 2#160 1#128 10#128 0#64
    opened.1 = .ok 0 ∧ credits 0 opened.2 [.settle 0 10#64] = 0 ∧
      ((opened.2.calls [.settle 0 10#64]).bind fun l => l.getStream 0).map Stream.drawn =
        some 10#128 := by
  decide +kernel

-- A stream that is drawn from and then stopped.
theorem stream_solvent_stopped :
    let opened := (streamTo 0#128).openStream 1#160 2#160 1#128 10#128 0#64
    ∃ l₂ s, opened.2.calls [.settle 0 3#64, .stop 0 1#160 7#64] = some l₂ ∧
      l₂.getStream 0 = some s ∧ s.from_ = 1#160 ∧ s.to_ = 2#160 ∧ s.deposit = 10#128 ∧
      s.drawn ≤ s.deposit ∧
      credits 0 opened.2 [.settle 0 3#64, .stop 0 1#160 7#64] ≤ s.drawn.toNat ∧
      (Unsaturated 2#160 opened.2 [.settle 0 3#64, .stop 0 1#160 7#64] →
        credits 0 opened.2 [.settle 0 3#64, .stop 0 1#160 7#64] = s.drawn.toNat) ∧
      (s.status = .Completed → s.drawn = s.deposit) ∧
      ∀ c, ∃ r s', l₂.call c = some r ∧ Pays 0 l₂ c r s s' := by
  intro opened
  have hopen : (streamTo 0#128).openStream 1#160 2#160 1#128 10#128 0#64 = (.ok 0, opened.2) :=
    Prod.ext (by decide +kernel) rfl
  exact stream_solvent hopen _

end Ledger

end Ubi2.Runtime
