import Ubi2.Exec.Nonce

namespace Ubi2.Exec

open Ubi2.Runtime Ubi2.Runtime.Ledger Ubi2.Runtime.MemState Ubi2.Lib

-- The sender and the nonce of a transaction that takes effect: its fee was charged.
def landedKey (e : Event) (o : Option OpOutcome) : List (Address × U64) :=
  match e.action, o with
  | .tx tx, some _ => [(tx.from_, tx.nonce)]
  | _, _ => []

-- The senders and nonces of all transactions of a run that take effect.
def landed (host : Host) : MemState → List Event → List (Address × U64)
  | _, [] => []
  | s, e :: es =>
    match step host s e with
    | none => []
    | some (o, s') => landedKey e o ++ landed host s' es

-- No step of the run lowers a nonce.
def NoncesRise (host : Host) : MemState → List Event → Prop :=
  EveryStep host fun s e => ∀ o s', step host s e = some (o, s') →
    ∀ a, nonceOf s a ≤ nonceOf s' a

def NonceSafeEvent (host : Host) (s : MemState) (e : Event) : Prop :=
  ∀ tx, e.action = .tx tx → NonceSafe host e.ctx tx s

section Run

variable {host : Host} {s s' : MemState} {e : Event} {o : Option OpOutcome}

-- A safe step lowers no nonce, and the key that it lands lies between the nonces of its
-- sender before and after.
theorem nonce_step (hsafe : NonceSafeEvent host s e) (h : step host s e = some (o, s')) :
    (∀ a, nonceOf s a ≤ nonceOf s' a) ∧
      ∀ key ∈ landedKey e o, nonceOf s key.1 ≤ key.2 ∧ key.2 < nonceOf s' key.1 := by
  unfold step at h
  cases haction : e.action with
  | tx tx =>
    rw [haction] at h
    obtain ⟨hle, hkey⟩ := nonce_applyTx (hsafe tx haction) h
    refine ⟨hle, ?_⟩
    intro key hmem
    cases o with
    | none => simp [landedKey, haction] at hmem
    | some outcome =>
      simp only [landedKey, haction, List.mem_singleton] at hmem
      rw [hmem]
      exact hkey rfl
  | sweeps =>
    rw [haction] at h
    cases h
    have hframe : Frame e.ctx.timestamp { signer 0#160 with gates := fun _ _ _ => True } s _ :=
      frame_runSweeps host s e.ctx (fun _ => trivial)
    exact ⟨fun a => (nonce_of_moves hframe.moves (by simp [signer])).ge,
      fun key hmem => by simp [landedKey, haction] at hmem⟩
  | refresh =>
    rw [haction] at h
    cases h
    exact ⟨fun a => le_refl _, fun key hmem => by simp [landedKey, haction] at hmem⟩

variable {es : List Event}

theorem noncesRise_of_safe (hsafe : EveryStep host (NonceSafeEvent host) s es) :
    NoncesRise host s es :=
  hsafe.imp fun _ _ he _ _ hstep => (nonce_step he hstep).1

-- What a run lands has no nonce below those of the state it starts from.
theorem nonceOf_le_landed (hsafe : EveryStep host (NonceSafeEvent host) s es)
    {key : Address × U64} (hkey : key ∈ landed host s es) : nonceOf s key.1 ≤ key.2 := by
  induction es generalizing s with
  | nil => cases hkey
  | cons e es ih =>
    rw [landed] at hkey
    cases he : step host s e with
    | none => simp [he] at hkey
    | some p =>
      obtain ⟨o, s'⟩ := p
      rw [he] at hkey
      obtain ⟨hrise, hlands⟩ := nonce_step hsafe.1 he
      rcases List.mem_append.mp hkey with hhere | hlater
      · exact (hlands key hhere).1
      · exact (hrise key.1).trans (ih (hsafe.2 o s' he) hlater)

theorem nodup_landed (hsafe : EveryStep host (NonceSafeEvent host) s es) :
    (landed host s es).Nodup := by
  induction es generalizing s with
  | nil => exact List.nodup_nil
  | cons e es ih =>
    rw [landed]
    cases he : step host s e with
    | none => exact List.nodup_nil
    | some p =>
      obtain ⟨o, s'⟩ := p
      have hlater := hsafe.2 o s' he
      refine List.nodup_append.mpr ⟨?_, ih hlater, ?_⟩
      · unfold landedKey
        split
        · exact List.nodup_singleton _
        · exact List.nodup_nil
      · intro key hhere key' hthere heq
        have hbelow := ((nonce_step hsafe.1 he).2 key hhere).2
        have habove := nonceOf_le_landed hlater hthere
        rw [← heq] at habove
        exact absurd hbelow (not_lt.mpr habove)

end Run

-- A run of transactions that carry no nonce of the past lowers no nonce, and lands each
-- pair of a sender and a nonce at most once.
theorem no_replay (host : Host) (s : MemState) (es : List Event)
    (hsafe : EveryStep host (NonceSafeEvent host) s es) :
    NoncesRise host s es ∧ (landed host s es).Nodup :=
  ⟨noncesRise_of_safe hsafe, nodup_landed hsafe⟩

-- A payment of one base unit between two fixed accounts.
def payment (nonce : U64) : KernelTx :=
  { from_ := 1#160, nonce := nonce, txHash := 0#256, value := 0#128
    kind := .Transfer 2#160 1#128 }

def payments (nonces : List U64) : List Event :=
  nonces.map fun nonce =>
    { ctx := { timestamp := 0#64, number := 1#64, blockHash := 0#256 }
      action := .tx (payment nonce) }

def payer (nonce : U64) : MemState :=
  ({} : MemState).put { address := 1#160, settledBalance := UBI, nonce := nonce }

private theorem nonceSafe_payment {ctx : BlockCtx} {nonce : U64} {s : MemState}
    (hcurrent : nonceOf s 1#160 ≤ nonce) (hroom : nonce.toNat + 1 < 2 ^ 64) :
    NonceSafe mockHost ctx (payment nonce) s where
  current := fun _ => hcurrent
  room := fun _ => hroom
  escrowRoom := fun _ _ _ _ h => h.elim

-- A payment, and one that carries a nonce of the future and fails.
theorem no_replay_payments :
    NoncesRise mockHost (payer 0#64) (payments [0#64, 7#64]) ∧
      (landed mockHost (payer 0#64) (payments [0#64, 7#64])).Nodup := by
  refine no_replay mockHost (payer 0#64) (payments [0#64, 7#64]) ⟨?_, ?_⟩
  · rintro tx ⟨⟩
    exact nonceSafe_payment (by decide) (by decide)
  · intro o s' hstep
    refine ⟨?_, fun _ _ _ => trivial⟩
    rintro tx ⟨⟩
    have hnonce : ((step mockHost (payer 0#64) (payments [0#64])[0]).map
        fun p => nonceOf p.2 1#160) = some 1#64 := by
      decide +kernel
    rw [show step mockHost (payer 0#64) (payments [0#64])[0] = some (o, s') from hstep] at hnonce
    have hafter : nonceOf s' 1#160 = 1#64 := Option.some.inj hnonce
    exact nonceSafe_payment (by rw [hafter]; decide) (by decide)

-- A payment that carries a nonce of the past fails and rewinds its sender's nonce, so
-- that the payments after it can be made a second time.
theorem replay_after_stale_payment :
    ¬ NoncesRise mockHost (payer 5#64) (payments [0#64, 1#64, 0#64, 1#64]) ∧
      ¬ (landed mockHost (payer 5#64) (payments [0#64, 1#64, 0#64, 1#64])).Nodup ∧
      (run mockHost (payer 5#64) (payments [0#64, 1#64, 0#64, 1#64])).map
        (fun s => (s.account 2#160).settledBalance) = some 2#128 := by
  refine ⟨fun h => ?_, by decide +kernel, by decide +kernel⟩
  have hnonce : ((step mockHost (payer 5#64) (payments [0#64])[0]).map
      fun p => nonceOf p.2 1#160) = some 1#64 := by
    decide +kernel
  obtain ⟨p, hstep, hafter⟩ := Option.map_eq_some_iff.mp hnonce
  have hrise := h.1 p.1 p.2 hstep 1#160
  rw [hafter] at hrise
  exact absurd hrise (by decide +kernel)

end Ubi2.Exec
