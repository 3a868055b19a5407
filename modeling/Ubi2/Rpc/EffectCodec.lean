import Ubi2.Exec.EffectCursor

namespace Ubi2.Rpc

open Ubi2.Runtime Ubi2.Exec

inductive CalldataError where
  | TooShort
  | UnknownSelector (selector : BitVec 32)
  | BadArgs (reason : String)
  | Overflow (which : String)
  | BadEffect (which : String)
  | TextTooLarge (len max : Nat)
  | TooManyParties (count max : Nat)
deriving DecidableEq

-- The server's own copy of the decoder. It fails with the same reasons, as errors of calldata.
def decodeEffect (blob : Bytes) : Option (Except CalldataError CanonicalEffect) :=
  decodeEffectWith .BadEffect blob

theorem decodeEffect_eq (blob : Bytes) :
    decodeEffect blob = (decodeEffectBytes blob).map fun r => r.mapError .BadEffect := by
  rw [decodeEffect, decodeEffectWith_eq, decodeEffectBytes_eq]
  rfl

theorem decodeEffect_ok_iff {blob : Bytes} {e : CanonicalEffect} :
    decodeEffect blob = some (.ok e) ↔ decodeEffectBytes blob = some (.ok e) := by
  rw [decodeEffect_eq, decodeEffectBytes_eq]
  cases Exec.decodeEffect blob with
  | error reason => simp [Except.mapError]
  | ok e' => simp [Except.mapError]

-- The decoder gives back every canonical effect whose operations a four-byte count can count,
-- accepts nothing but the encodings of these, and never panics. The server's copy accepts the
-- same bytes as the same effects. No two canonical effects have one encoding.
theorem effect_codec :
    (∀ e, Canonical e → e.ops.length < 2 ^ 32 →
      decodeEffectBytes (encodeEffect e) = some (.ok e)) ∧
    (∀ blob e, decodeEffectBytes blob = some (.ok e) → Canonical e ∧ encodeEffect e = blob) ∧
    (∀ blob, decodeEffectBytes blob ≠ none ∧ decodeEffect blob ≠ none) ∧
    (∀ blob e, decodeEffect blob = some (.ok e) ↔ decodeEffectBytes blob = some (.ok e)) ∧
    ∀ e e', Canonical e → Canonical e' → encodeEffect e = encodeEffect e' → e = e' := by
  refine ⟨?_, ?_, ?_, ?_, ?_⟩
  · intro e he hlen
    exact decodeEffectBytes_ok_iff.mpr ⟨he, hlen, rfl⟩
  · intro blob e h
    obtain ⟨he, -, hblob⟩ := decodeEffectBytes_ok_iff.mp h
    exact ⟨he, hblob.symm⟩
  · intro blob
    rw [decodeEffect_eq, decodeEffectBytes_eq]
    exact ⟨Option.some_ne_none _, Option.some_ne_none _⟩
  · intro blob e
    exact decodeEffect_ok_iff
  · intro e e' he he' heq
    exact encodeEffect_injective he he' heq

def stopSeven : CanonicalEffect := .new [.StopStream 7, .Transfer 5#160 9#128]

theorem canonical_stopSeven : Canonical stopSeven := by
  apply canonical_new
  intro op hop
  rcases List.mem_cons.mp hop with rfl | hop
  · exact (by decide : 7 < 256 ^ 8)
  · rw [List.mem_singleton.mp hop]
    trivial

theorem effect_codec_stopSeven :
    decodeEffectBytes (encodeEffect stopSeven) = some (.ok stopSeven) ∧
      decodeEffect (encodeEffect stopSeven) = some (.ok stopSeven) ∧
      ∀ e, Canonical e → encodeEffect e = encodeEffect stopSeven → e = stopSeven := by
  have hdecode := effect_codec.1 stopSeven canonical_stopSeven (by decide)
  refine ⟨hdecode, (effect_codec.2.2.2.1 _ _).mpr hdecode, fun e he heq => ?_⟩
  exact effect_codec.2.2.2.2 e stopSeven he canonical_stopSeven heq

-- An effect of so many operations.
def stops (n : Nat) : CanonicalEffect := .new (List.replicate n (.StopStream 0))

theorem canonical_stops (n : Nat) : Canonical (stops n) := by
  apply canonical_new
  intro op hop
  rw [List.eq_of_mem_replicate hop]
  exact (by decide : 0 < 256 ^ 8)

-- The count of 2 ^ 32 operations does not fit four bytes: the effect is encoded as one that
-- has none, with bytes left over.
theorem long_effect_refused :
    ¬ ∀ e, Canonical e → decodeEffectBytes (encodeEffect e) = some (.ok e) := by
  intro h
  have hlen := (decodeEffectBytes_ok_iff.mp (h (stops (2 ^ 32)) (canonical_stops _))).2.1
  rw [stops, CanonicalEffect.new, List.length_replicate] at hlen
  exact Nat.lt_irrefl _ hlen

end Ubi2.Rpc
