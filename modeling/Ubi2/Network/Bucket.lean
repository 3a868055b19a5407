import Ubi2.Network.Swarm
import Mathlib.Tactic.Linarith

namespace Ubi2.Network

open Ubi2.Runtime Ubi2.Lib Ubi2.Rpc

-- The two buckets a peer has.
inductive Lane where
  | gossip
  | sync
deriving DecidableEq

namespace Lane

def capacity : Lane → Nat
  | .gossip => RATE_BUCKET_CAPACITY
  | .sync => SYNC_RATE_BUCKET_CAPACITY

def refillPerSec : Lane → Nat
  | .gossip => RATE_REFILL_PER_SEC
  | .sync => SYNC_RATE_REFILL_PER_SEC

def bucket : Lane → PeerBucket → TokenBucket
  | .gossip => PeerBucket.gossip
  | .sync => PeerBucket.sync

def fresh (lane : Lane) (now : Nat) : TokenBucket := .new now lane.capacity lane.refillPerSec

theorem bucket_new (lane : Lane) (now : Nat) : lane.bucket (.new now) = lane.fresh now := by
  cases lane <;> rfl

end Lane

namespace TokenBucket

-- A bucket that holds no more than it can, last refilled no later than an instant.
structure Sane (lane : Lane) (time : Nat) (t : TokenBucket) : Prop where
  capacity : t.capacity = lane.capacity
  refillPerSec : t.refillPerSec = lane.refillPerSec
  tokens : t.tokensMilli ≤ t.capacity * 1000
  lastRefill : t.lastRefill ≤ time

-- What is left of a bucket out of which `admitted` messages were let in since `start`: it was
-- given no more than its capacity and the refill of some whole milliseconds, none of which had
-- ended at the start.
def Spent (start admitted : Nat) (t : TokenBucket) : Prop :=
  admitted = 0 ∨ ∃ whole base, base + millis whole ≤ t.lastRefill ∧ start < base + millis 1 ∧
    admitted * 1000 + t.tokensMilli ≤ t.capacity * 1000 + whole * t.refillPerSec

variable {lane : Lane} {t : TokenBucket} {time now start admitted : Nat}

theorem sane_fresh (lane : Lane) (now : Nat) : Sane lane now (lane.fresh now) :=
  ⟨rfl, rfl, le_refl _, le_refl _⟩

theorem Sane.mono (h : Sane lane time t) (htime : time ≤ now) : Sane lane now t :=
  ⟨h.capacity, h.refillPerSec, h.tokens, h.lastRefill.trans htime⟩

theorem sane_refill (h : Sane lane time t) (htime : time ≤ now) : Sane lane now (t.refill now) := by
  unfold refill
  dsimp only
  split_ifs
  · exact h.mono htime
  · exact ⟨h.capacity, h.refillPerSec, min_le_right _ _, le_refl _⟩

theorem sane_take (h : Sane lane time t) (htime : time ≤ now) : Sane lane now (t.take now).2 := by
  have hrefill := sane_refill h htime
  unfold take
  dsimp only
  split_ifs
  · exact ⟨hrefill.capacity, hrefill.refillPerSec, (Nat.sub_le _ _).trans hrefill.tokens,
      hrefill.lastRefill⟩
  · exact hrefill

-- A refill leaves a bucket that counts from a base of its own.
theorem spent_refill (h : Sane lane time t) (hstart : start ≤ now) (hspent : Spent start admitted t) :
    ∃ whole base, base + millis whole ≤ (t.refill now).lastRefill ∧ start < base + millis 1 ∧
      admitted * 1000 + (t.refill now).tokensMilli ≤
        (t.refill now).capacity * 1000 + whole * (t.refill now).refillPerSec := by
  have htokens := h.tokens
  unfold refill asMillis
  dsimp only
  split_ifs with helapsed
  · -- less than a millisecond has passed
    rcases hspent with rfl | hspent
    · refine ⟨0, t.lastRefill, by simp [millis], ?_, by omega⟩
      rw [millis]
      omega
    · exact hspent
  · rcases hspent with rfl | ⟨whole, base, hbase, hlate, hbound⟩
    · refine ⟨0, now, by simp [millis], ?_, ?_⟩
      · rw [millis]
        omega
      · dsimp only
        have hcap := min_le_right (t.tokensMilli + (now - t.lastRefill) / 1000000 * t.refillPerSec)
          (t.capacity * 1000)
        omega
    · refine ⟨whole + (now - t.lastRefill) / 1000000, base, ?_, hlate, ?_⟩
      · have hwhole : (now - t.lastRefill) / 1000000 * 1000000 ≤ now - t.lastRefill :=
          Nat.div_mul_le_self _ _
        dsimp only
        rw [millis] at hbase ⊢
        have hpassed : t.lastRefill + (now - t.lastRefill) = now := by omega
        linarith only [hbase, hwhole, hpassed]
      · dsimp only
        have hadd := min_le_left (t.tokensMilli + (now - t.lastRefill) / 1000000 * t.refillPerSec)
          (t.capacity * 1000)
        rw [Nat.add_mul]
        omega

theorem spent_take (h : Sane lane time t) (hstart : start ≤ now) (hspent : Spent start admitted t) :
    Spent start (admitted + (t.take now).1.toNat) (t.take now).2 := by
  obtain ⟨whole, base, hbase, hlate, hbound⟩ := spent_refill h hstart hspent
  refine Or.inr ⟨whole, base, ?_⟩
  unfold take
  dsimp only
  generalize t.refill now = t' at hbase hbound ⊢
  split_ifs with htoken
  · refine ⟨hbase, hlate, ?_⟩
    have hleft : t'.tokensMilli - 1000 + 1000 = t'.tokensMilli := Nat.sub_add_cancel htoken
    dsimp only [Bool.toNat_true]
    linarith only [hbound, hleft]
  · exact ⟨hbase, hlate, hbound⟩

-- Over a window of so many milliseconds.
theorem admitted_le (h : Sane lane time t) (hspent : Spent start admitted t) {ms : Nat}
    (htime : time ≤ start + millis ms) :
    admitted ≤ lane.capacity + ms * lane.refillPerSec / 1000 := by
  rcases hspent with rfl | ⟨whole, base, hbase, hlate, hbound⟩
  · exact Nat.zero_le _
  · have hlast := h.lastRefill
    have hwhole : whole ≤ ms := by
      simp only [millis] at hbase hlate htime
      omega
    have hrefill : whole * t.refillPerSec ≤ ms * t.refillPerSec := Nat.mul_le_mul_right _ hwhole
    rw [← h.capacity, ← h.refillPerSec]
    omega

end TokenBucket

namespace RateLimiter

-- What the limiter keeps of a peer.
def entry (r : RateLimiter) (peer : PeerId) : Option PeerBucket := (r.get peer).map Prod.snd

-- The pulls of a peer that are being served, as far as the limiter knows.
def inflight (r : RateLimiter) (peer : PeerId) : Nat :=
  ((entry r peer).map PeerBucket.syncInflight).getD 0

def invalidCount (r : RateLimiter) (peer : PeerId) : U32 :=
  ((entry r peer).map PeerBucket.invalidCount).getD 0#32

def laneOf (lane : Lane) (r : RateLimiter) (peer : PeerId) : Option TokenBucket :=
  (entry r peer).map lane.bucket

variable {r : RateLimiter} {peer other : PeerId} {now : Nat}

theorem entry_put (r : RateLimiter) (other peer : PeerId) (b : PeerBucket) :
    entry (r.put (other, b)) peer = if other = peer then some b else entry r peer := by
  rw [entry, Table.get_put]
  split_ifs <;> rfl

theorem entry_forget (r : RateLimiter) (other peer : PeerId) :
    entry (forget r other) peer = if peer = other then none else entry r peer := by
  rw [entry, forget, Table.get_erase]
  split_ifs <;> rfl

theorem bucket_eq (r : RateLimiter) (peer : PeerId) (now : Nat) :
    bucket r peer now = (entry r peer).getD (.new now) := rfl

-- What a step makes of one bucket of a peer, and whether it let a message in by it.
inductive LaneStep (lane : Lane) (now : Nat) :
    Option TokenBucket → Bool → Option TokenBucket → Prop where
  | keep (t : Option TokenBucket) : LaneStep lane now t false t
  | create : LaneStep lane now none false (some (lane.fresh now))
  | take (t : Option TokenBucket) :
    LaneStep lane now t ((t.getD (lane.fresh now)).take now).1
      (some ((t.getD (lane.fresh now)).take now).2)

-- What a step that forgets nothing makes of the state of a peer: the buckets, one of which may
-- have let a message in, the pulls that were taken on and answered, and the penalties.
structure Charges (now : Nat) (peer : PeerId) (admitted : Lane → Bool) (taken answered : Nat)
    (r r' : RateLimiter) : Prop where
  lanes : ∀ lane, LaneStep lane now (laneOf lane r peer) (admitted lane) (laneOf lane r' peer)
  pulls : inflight r' peer = inflight r peer + taken - answered
  capped : inflight r peer ≤ SYNC_MAX_INFLIGHT_PER_PEER →
    inflight r' peer ≤ SYNC_MAX_INFLIGHT_PER_PEER
  penalties : invalidCount r peer ≤ invalidCount r' peer

variable {r' : RateLimiter} {b' : PeerBucket}

@[simp] theorem bucket_put (r : RateLimiter) (peer : PeerId) (b : PeerBucket) (now : Nat) :
    bucket (r.put (peer, b)) peer now = b := by
  rw [bucket_eq, entry_put, if_pos rfl]
  rfl

theorem inflight_eq (r : RateLimiter) (peer : PeerId) (now : Nat) :
    inflight r peer = (bucket r peer now).syncInflight := by
  rw [inflight, bucket_eq]
  cases entry r peer <;> rfl

theorem invalidCount_eq (r : RateLimiter) (peer : PeerId) (now : Nat) :
    invalidCount r peer = (bucket r peer now).invalidCount := by
  rw [invalidCount, bucket_eq]
  cases entry r peer <;> rfl

theorem getD_laneOf (lane : Lane) (r : RateLimiter) (peer : PeerId) (now : Nat) :
    (laneOf lane r peer).getD (lane.fresh now) = lane.bucket (bucket r peer now) := by
  rw [laneOf, bucket_eq]
  cases entry r peer with
  | none => exact (lane.bucket_new now).symm
  | some b => rfl

-- A bucket that is written back as it was read.
theorem laneStep_same {lane : Lane} (h : laneOf lane r' peer = some (lane.bucket (bucket r peer now))) :
    LaneStep lane now (laneOf lane r peer) false (laneOf lane r' peer) := by
  rw [h, ← getD_laneOf]
  cases laneOf lane r peer with
  | none => exact .create
  | some t => exact .keep _

theorem charges_refl (h : entry r' peer = entry r peer) :
    Charges now peer (fun _ => false) 0 0 r r' := by
  have hlane : ∀ lane, laneOf lane r' peer = laneOf lane r peer := by
    intro lane
    rw [laneOf, h]
    rfl
  have hinflight : inflight r' peer = inflight r peer := by
    rw [inflight, h]
    rfl
  have hinvalid : invalidCount r' peer = invalidCount r peer := by
    rw [invalidCount, h]
    rfl
  refine ⟨?_, ?_, ?_, ?_⟩
  · intro lane
    rw [hlane]
    exact .keep _
  · rw [hinflight]
    rfl
  · rw [hinflight]
    exact id
  · rw [hinvalid]

-- What is written for a peer says what it was charged.
theorem charges_of_entry {admitted : Lane → Bool} {taken answered : Nat}
    (hentry : entry r' peer = some b')
    (hlanes : ∀ lane, admitted lane = false ∧ lane.bucket b' = lane.bucket (bucket r peer now) ∨
      (lane.bucket (bucket r peer now)).take now = (admitted lane, lane.bucket b'))
    (hpulls : b'.syncInflight = (bucket r peer now).syncInflight + taken - answered)
    (hcapped : (bucket r peer now).syncInflight ≤ SYNC_MAX_INFLIGHT_PER_PEER →
      b'.syncInflight ≤ SYNC_MAX_INFLIGHT_PER_PEER)
    (hpenalties : (bucket r peer now).invalidCount ≤ b'.invalidCount) :
    Charges now peer admitted taken answered r r' := by
  have hlane : ∀ lane, laneOf lane r' peer = some (lane.bucket b') := by
    intro lane
    rw [laneOf, hentry]
    rfl
  have hinflight : inflight r' peer = b'.syncInflight := by
    rw [inflight, hentry]
    rfl
  have hinvalid : invalidCount r' peer = b'.invalidCount := by
    rw [invalidCount, hentry]
    rfl
  refine ⟨?_, ?_, ?_, ?_⟩
  · intro lane
    rcases hlanes lane with ⟨hno, hsame⟩ | htake
    · rw [hno]
      exact laneStep_same (by rw [hlane, hsame])
    · have hstep : LaneStep lane now (laneOf lane r peer)
          (((laneOf lane r peer).getD (lane.fresh now)).take now).1
          (some (((laneOf lane r peer).getD (lane.fresh now)).take now).2) := .take _
      rw [getD_laneOf, htake] at hstep
      rw [hlane]
      exact hstep
  · rw [hinflight, hpulls, inflight_eq r peer now]
  · rw [hinflight, inflight_eq r peer now]
    exact hcapped
  · rw [hinvalid, invalidCount_eq r peer now]
    exact hpenalties

-- What follows leaves the buckets and the pulls as they are.
theorem Charges.follow {r'' : RateLimiter} {admitted : Lane → Bool} {taken answered : Nat}
    (h : Charges now peer admitted taken answered r r')
    (hlanes : ∀ lane, laneOf lane r'' peer = laneOf lane r' peer)
    (hinflight : inflight r'' peer = inflight r' peer)
    (hpenalties : invalidCount r' peer ≤ invalidCount r'' peer) :
    Charges now peer admitted taken answered r r'' := by
  refine ⟨?_, ?_, ?_, ?_⟩
  · intro lane
    rw [hlanes]
    exact h.lanes lane
  · rw [hinflight]
    exact h.pulls
  · rw [hinflight]
    exact h.capped
  · exact h.penalties.trans hpenalties

theorem le_satAdd (x y : U32) : x ≤ Word.satAdd x y := by
  have hx := x.isLt
  rw [BitVec.le_def, Word.toNat_satAdd]
  omega

theorem entry_penalize (r : RateLimiter) (other peer : PeerId) (now : Nat) :
    entry (penalize r other now).2 peer =
      if other = peer then
        some { bucket r other now with
          invalidCount := Word.satAdd (bucket r other now).invalidCount 1#32 }
      else entry r peer :=
  entry_put _ _ _ _

-- A penalty for whom nothing else happened to.
theorem charges_penalize (r : RateLimiter) (other peer : PeerId) (now : Nat) :
    Charges now peer (fun _ => false) 0 0 r (penalize r other now).2 := by
  have hentry := entry_penalize r other peer now
  split_ifs at hentry with hpeer
  · subst hpeer
    exact charges_of_entry hentry (fun lane => Or.inl ⟨rfl, by cases lane <;> rfl⟩) rfl id
      (le_satAdd _ _)
  · exact charges_refl hentry

-- A penalty on top of what a peer was charged already.
theorem Charges.penalize {admitted : Lane → Bool} {taken answered : Nat}
    (h : Charges now peer admitted taken answered r r') (other : PeerId)
    (hknown : other = peer → entry r' other ≠ none) :
    Charges now peer admitted taken answered r (penalize r' other now).2 := by
  have hentry := entry_penalize r' other peer now
  split_ifs at hentry with hpeer
  · subst hpeer
    obtain ⟨b, hb⟩ := Option.ne_none_iff_exists'.mp (hknown rfl)
    rw [bucket_eq, hb] at hentry
    refine h.follow ?_ ?_ ?_
    · intro lane
      rw [laneOf, laneOf, hentry, hb]
      cases lane <;> rfl
    · rw [inflight, inflight, hentry, hb]
      rfl
    · rw [invalidCount, invalidCount, hentry, hb]
      exact le_satAdd _ _
  · refine h.follow ?_ ?_ ?_
    · intro lane
      rw [laneOf, laneOf, hentry]
    · rw [inflight, inflight, hentry]
    · rw [invalidCount, invalidCount, hentry]

theorem charges_allow (r : RateLimiter) (other peer : PeerId) (now : Nat) :
    Charges now peer
      (fun lane => decide (lane = .gossip) && (other = peer && (allow r other now).1)) 0 0 r
      (allow r other now).2 := by
  have hentry := entry_put r other peer
    { bucket r other now with gossip := ((bucket r other now).gossip.take now).2 }
  split_ifs at hentry with hpeer
  · subst hpeer
    refine charges_of_entry hentry ?_ rfl id (le_refl _)
    intro lane
    cases lane with
    | gossip => exact Or.inr (by simp [allow, Lane.bucket])
    | sync => exact Or.inl ⟨rfl, rfl⟩
  · have hnone : (fun lane : Lane =>
        decide (lane = .gossip) && (decide (other = peer) && (allow r other now).1)) =
        fun _ => false := by
      funext lane
      rw [decide_eq_false hpeer, Bool.false_and, Bool.and_false]
    rw [hnone]
    exact charges_refl hentry

theorem charges_allowSync (r : RateLimiter) (other peer : PeerId) (now : Nat) :
    Charges now peer
      (fun lane => decide (lane = .sync) && (other = peer && (allowSync r other now).1)) 0 0 r
      (allowSync r other now).2 := by
  have hentry := entry_put r other peer
    { bucket r other now with sync := ((bucket r other now).sync.take now).2 }
  split_ifs at hentry with hpeer
  · subst hpeer
    refine charges_of_entry hentry ?_ rfl id (le_refl _)
    intro lane
    cases lane with
    | gossip => exact Or.inl ⟨rfl, rfl⟩
    | sync => exact Or.inr (by simp [allowSync, Lane.bucket])
  · have hnone : (fun lane : Lane =>
        decide (lane = .sync) && (decide (other = peer) && (allowSync r other now).1)) =
        fun _ => false := by
      funext lane
      rw [decide_eq_false hpeer, Bool.false_and, Bool.and_false]
    rw [hnone]
    exact charges_refl hentry

-- A pull is taken on, on top of what its sender was charged, while there are few.
theorem Charges.acquire {admitted : Lane → Bool}
    (h : Charges now peer admitted 0 0 r r') (other : PeerId)
    (hknown : other = peer → entry r' other ≠ none) :
    Charges now peer admitted
      (if (tryAcquireSyncInflight r' other now).1 ∧ other = peer then 1 else 0) 0 r
      (tryAcquireSyncInflight r' other now).2 := by
  unfold tryAcquireSyncInflight
  dsimp only
  by_cases hpeer : other = peer
  · subst hpeer
    obtain ⟨b, hb⟩ := Option.ne_none_iff_exists'.mp (hknown rfl)
    have hbucket : bucket r' other now = b := by rw [bucket_eq, hb]; rfl
    rw [hbucket]
    split_ifs with hfull htaken htaken
    · exact absurd htaken.1 (by decide)
    · have hentry : entry (r'.put (other, b)) other = entry r' other := by
        rw [entry_put, if_pos rfl, hb]
      exact h.follow (fun lane => by rw [laneOf, laneOf, hentry])
        (by rw [inflight, inflight, hentry]) (by rw [invalidCount, invalidCount, hentry])
    · have hentry : entry (r'.put (other, { b with syncInflight := b.syncInflight + 1 })) other =
          some { b with syncInflight := b.syncInflight + 1 } := by rw [entry_put, if_pos rfl]
      have hpulls := h.pulls
      have hinflight : inflight r' other = b.syncInflight := by
        rw [inflight, hb]
        rfl
      have hafter : inflight (r'.put (other, { b with syncInflight := b.syncInflight + 1 })) other =
          b.syncInflight + 1 := by
        rw [inflight, hentry]
        rfl
      refine ⟨?_, ?_, ?_, ?_⟩
      · intro lane
        have hlane : laneOf lane (r'.put (other, { b with syncInflight := b.syncInflight + 1 }))
            other = laneOf lane r' other := by
          rw [laneOf, laneOf, hentry, hb]
          cases lane <;> rfl
        rw [hlane]
        exact h.lanes lane
      · rw [hafter]
        omega
      · intro _
        rw [hafter]
        omega
      · have hinvalid : invalidCount
            (r'.put (other, { b with syncInflight := b.syncInflight + 1 })) other =
            invalidCount r' other := by
          rw [invalidCount, invalidCount, hentry, hb]
          rfl
        rw [hinvalid]
        exact h.penalties
    · exact absurd ⟨rfl, rfl⟩ htaken
  · rw [if_neg fun htaken => hpeer htaken.2]
    have hentry : ∀ b : PeerBucket, entry (r'.put (other, b)) peer = entry r' peer := fun b => by
      rw [entry_put, if_neg hpeer]
    split_ifs
    · exact h.follow (fun lane => by rw [laneOf, laneOf, hentry])
        (by rw [inflight, inflight, hentry]) (by rw [invalidCount, invalidCount, hentry])
    · exact h.follow (fun lane => by rw [laneOf, laneOf, hentry])
        (by rw [inflight, inflight, hentry]) (by rw [invalidCount, invalidCount, hentry])

theorem entry_acquire_ne_none (r : RateLimiter) (other : PeerId) (now : Nat) :
    entry (tryAcquireSyncInflight r other now).2 other ≠ none := by
  unfold tryAcquireSyncInflight
  dsimp only
  split_ifs
  · rw [entry_put, if_pos rfl]
    exact Option.some_ne_none _
  · rw [entry_put, if_pos rfl]
    exact Option.some_ne_none _

theorem charges_release (r : RateLimiter) (other peer : PeerId) (now : Nat) :
    Charges now peer (fun _ => false) 0 (if other = peer then 1 else 0) r
      (releaseSyncInflight r other) := by
  unfold releaseSyncInflight
  cases hget : r.get other with
  | none =>
    have hentry : entry r other = none := by rw [entry, hget]; rfl
    refine ⟨fun lane => .keep _, ?_, id, le_refl _⟩
    by_cases hpeer : other = peer
    · subst hpeer
      rw [inflight, hentry, if_pos rfl]
      rfl
    · rw [if_neg hpeer]
      rfl
  | some e =>
    have hput := entry_put r other peer { e.2 with syncInflight := e.2.syncInflight - 1 }
    dsimp only
    by_cases hpeer : other = peer
    · subst hpeer
      have hentry : entry r other = some e.2 := by rw [entry, hget]; rfl
      have hbucket : bucket r other now = e.2 := by rw [bucket_eq, hentry]; rfl
      rw [if_pos rfl] at hput ⊢
      refine charges_of_entry hput ?_ ?_ ?_ ?_
      · intro lane
        rw [hbucket]
        exact Or.inl ⟨rfl, by cases lane <;> rfl⟩
      · rw [hbucket]
        rfl
      · rw [hbucket]
        intro hcap
        dsimp only
        omega
      · rw [hbucket]
    · rw [if_neg hpeer] at hput ⊢
      exact charges_refl hput

end RateLimiter

end Ubi2.Network
