import Mathlib.Algebra.BigOperators.Group.List.Basic
import Ubi2.Runtime.Ledger.Moves

namespace Ubi2.Runtime

open Lib

namespace Account

variable (a : Account) (now : U64)

-- No number of seconds that a word holds brings the product near the largest word.
theorem toNat_pendingEmission :
    (a.pendingEmission now).toNat =
      if a.verified then
        UBI.toNat * (now.toNat - (max a.lastSettledAt a.verifiedAt).toNat) /
          EMISSION_PERIOD_SECS.toNat
      else 0 := by
  have hnow := now.isLt
  have hUBI : UBI.toNat = 1000000000000000000 := rfl
  have hperiod : (EMISSION_PERIOD_SECS.setWidth 128).toNat = EMISSION_PERIOD_SECS.toNat := rfl
  cases hv : a.verified with
  | false => simp [pendingEmission, hv]
  | true =>
    have helapsed : ((Word.satSub now (max a.lastSettledAt a.verifiedAt)).setWidth 128).toNat =
        now.toNat - (max a.lastSettledAt a.verifiedAt).toNat := by
      rw [BitVec.toNat_setWidth, Word.toNat_satSub]
      exact Nat.mod_eq_of_lt (by omega)
    have hproduct : UBI.toNat * (now.toNat - (max a.lastSettledAt a.verifiedAt).toNat) <
        2 ^ 128 := by
      rw [hUBI]
      omega
    simp only [pendingEmission, hv, Bool.not_true, Bool.false_eq_true, if_false, if_true]
    rw [BitVec.toNat_udiv, Word.toNat_satMul, helapsed, hperiod, Nat.min_eq_left (by omega)]

-- A clock that starts at the present has accrued nothing.
theorem pendingEmission_of_le (h : now ≤ max a.lastSettledAt a.verifiedAt) :
    a.pendingEmission now = 0#128 := by
  apply BitVec.eq_of_toNat_eq
  rw [BitVec.le_def] at h
  rw [toNat_pendingEmission, Nat.sub_eq_zero_of_le h]
  simp

theorem pendingEmission_of_unverified (h : a.verified = false) :
    a.pendingEmission now = 0#128 := by
  simp [pendingEmission, h]

-- The balance as it would be if it could not saturate.
def worth : Nat := a.settledBalance.toNat + (a.pendingEmission now).toNat

theorem toNat_balance : (a.balance now).toNat = min (a.worth now) (2 ^ 128 - 1) :=
  Word.toNat_satAdd _ _

theorem pendingEmission_settle : (a.settle now).pendingEmission now = 0#128 := by
  apply pendingEmission_of_le
  rw [settle_lastSettledAt]
  exact le_max_of_le_left (le_max_right _ _)

theorem toNat_settle_settledBalance :
    (a.settle now).settledBalance.toNat = min (a.worth now) (2 ^ 128 - 1) :=
  Word.toNat_satAdd _ _

theorem worth_settle : (a.settle now).worth now = min (a.worth now) (2 ^ 128 - 1) := by
  rw [worth, pendingEmission_settle, toNat_settle_settledBalance]
  simp

end Account

namespace Ledger

variable (l : Ledger) (a : Address) (now : U64)

def streamsTo : List Stream := (l.incoming a).filterMap l.getStream

-- What the incoming streams of an account have still to pay out.
def owedTo : Nat := ((l.streamsTo a).map (fun s => (s.owed now).toNat)).sum

-- The balance of an account as it would be if it could not saturate.
def worth : Nat := (l.account a).worth now + l.owedTo a now

private theorem toNat_foldl_satAdd (xs : List U128) (x : U128) :
    (xs.foldl Word.satAdd x).toNat = min (x.toNat + (xs.map BitVec.toNat).sum) (2 ^ 128 - 1) := by
  induction xs generalizing x with
  | nil =>
    have hx := x.isLt
    simp only [List.foldl_nil, List.map_nil, List.sum_nil]
    omega
  | cons y ys ih =>
    rw [List.foldl_cons, ih, Word.toNat_satAdd, List.map_cons, List.sum_cons]
    omega

theorem toNat_balance : (l.balance a now).toNat = min (l.worth a now) (2 ^ 128 - 1) := by
  have hbase : ((l.get a).map (fun x => x.balance now)).getD 0#128 =
      (l.account a).balance now := by
    unfold account
    cases l.get a with
    | some x => rfl
    | none =>
      have hzero : ({ address := a } : Account).pendingEmission now = 0#128 :=
        Account.pendingEmission_of_unverified _ now rfl
      simp [Account.balance, hzero]
  have hinflow : (((l.streamsTo a).map (fun s => s.owed now)).foldl Word.satAdd 0#128).toNat =
      min (l.owedTo a now) (2 ^ 128 - 1) := by
    rw [toNat_foldl_satAdd, List.map_map]
    simp [owedTo, Function.comp_def]
  have hsplit : l.balance a now = Word.satAdd ((l.account a).balance now)
      (((l.streamsTo a).map (fun s => s.owed now)).foldl Word.satAdd 0#128) := by
    rw [← hbase]
    rfl
  rw [hsplit, Word.toNat_satAdd, hinflow, Account.toNat_balance, worth]
  omega

theorem balance_eq_iff {l' : Ledger} {a' : Address} {now' : U64} :
    l'.balance a' now' = l.balance a now ↔
      min (l'.worth a' now') (2 ^ 128 - 1) = min (l.worth a now) (2 ^ 128 - 1) := by
  rw [BitVec.toNat_eq, toNat_balance, toNat_balance]

@[simp] theorem streamsTo_put (x : Account) : (l.put x).streamsTo = l.streamsTo := rfl

@[simp] theorem owedTo_put (x : Account) : (l.put x).owedTo = l.owedTo := rfl

theorem worth_put (x : Account) : (l.put x).worth a now =
    if x.address = a then x.worth now + l.owedTo a now else l.worth a now := by
  simp only [worth, owedTo_put, account_put]
  split_ifs <;> rfl

end Ledger

namespace Account

variable (a : Account) {s t : U64}

-- After a settlement the clock runs on from it.
theorem since_settle : (max (a.settle s).lastSettledAt (a.settle s).verifiedAt).toNat =
    max (max a.lastSettledAt a.verifiedAt).toNat s.toNat := by
  simp only [settle_lastSettledAt, settle_verifiedAt, Word.toNat_sup]
  omega

-- Emission that is paid out in two parts loses at most one base unit to the truncation.
theorem pendingEmission_split (h : s ≤ t) :
    (a.pendingEmission s).toNat + ((a.settle s).pendingEmission t).toNat ≤
        (a.pendingEmission t).toNat ∧
      (a.pendingEmission t).toNat ≤
        (a.pendingEmission s).toNat + ((a.settle s).pendingEmission t).toNat + 1 := by
  have hst := BitVec.le_def.mp h
  simp only [toNat_pendingEmission, since_settle, settle_verified]
  cases a.verified with
  | false => simp
  | true =>
    simp only [if_true]
    generalize (max a.lastSettledAt a.verifiedAt).toNat = since
    -- the two parts make up the whole time
    have hparts : (s.toNat - since) + (t.toNat - max since s.toNat) = t.toNat - since := by omega
    rw [← hparts, Nat.mul_add]
    have hpos : 0 < EMISSION_PERIOD_SECS.toNat := by decide
    rw [Nat.add_div hpos]
    split_ifs <;> omega

-- A settlement that is followed by a reading costs at most one base unit.
theorem balance_settle_bounds (h : s ≤ t) :
    (a.settle s).balance t ≤ a.balance t ∧
      (a.balance t).toNat ≤ ((a.settle s).balance t).toNat + 1 := by
  obtain ⟨hle, hloss⟩ := a.pendingEmission_split h
  rw [BitVec.le_def]
  simp only [toNat_balance, worth, toNat_settle_settledBalance] at hle hloss ⊢
  omega

theorem settle_settle : (a.settle s).settle s = a.settle s := by
  have hpending : (a.settle s).pendingEmission s = 0#128 := a.pendingEmission_settle s
  have hlast : ¬ (a.settle s).lastSettledAt < s := by
    rw [settle_lastSettledAt]
    exact not_lt.mpr (le_max_right _ _)
  rw [settle, hpending, Word.satAdd_zero, if_neg hlast]

-- Each settlement on the way to a reading costs at most one base unit of it.
theorem balance_foldl_settle (times : List U64) (h : ∀ s ∈ times, s ≤ t) :
    (times.foldl settle a).balance t ≤ a.balance t ∧
      (a.balance t).toNat ≤ ((times.foldl settle a).balance t).toNat + times.length := by
  induction times generalizing a with
  | nil => exact ⟨le_rfl, le_rfl⟩
  | cons s times ih =>
    obtain ⟨hle, hloss⟩ := a.balance_settle_bounds (h s (by simp))
    obtain ⟨hrest, hrestLoss⟩ := ih (a.settle s) (fun r hr => h r (by simp [hr]))
    refine ⟨hrest.trans hle, ?_⟩
    rw [List.length_cons, List.foldl_cons]
    omega

-- Settlements in order change the balance that is read after them by less than their
-- number, and never raise it. A settlement made twice is made once.
theorem settlement_transparent (times : List U64) (t : U64)
    (h : (times ++ [t]).Pairwise (· ≤ ·)) :
    (times.foldl settle a).balance t ≤ a.balance t ∧
      (a.balance t).toNat ≤ ((times.foldl settle a).balance t).toNat + times.length ∧
      ∀ s, (a.settle s).settle s = a.settle s := by
  have hbefore : ∀ s ∈ times, s ≤ t := fun s hs =>
    (List.pairwise_append.mp h).2.2 s hs t (List.mem_singleton_self t)
  obtain ⟨hle, hloss⟩ := a.balance_foldl_settle times hbefore
  exact ⟨hle, hloss, fun s => a.settle_settle⟩

-- Two settlements off the hour.
theorem settlement_transparent_offHour :
    let a : Account := { address := 1#160, verified := true, verifiedAt := 1#64 }
    ([8#64, 15#64].foldl settle a).balance 22#64 ≤ a.balance 22#64 ∧
      (a.balance 22#64).toNat ≤ (([8#64, 15#64].foldl settle a).balance 22#64).toNat + 2 ∧
      ∀ s, (a.settle s).settle s = a.settle s :=
  settlement_transparent _ [8#64, 15#64] 22#64 (by decide)

end Account

end Ubi2.Runtime
