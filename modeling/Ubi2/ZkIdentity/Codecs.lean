import Ubi2.ZkIdentity.PublicSignals

namespace Ubi2.ZkIdentity

open Ubi2.Runtime Ubi2.Lib Ubi2.Lib.Except Ubi2.StatusSnapshot Ubi2.StatusSnapshot.Sdk
  Contracts.ZkIdentityEncoding ZK_PUBLIC_SIGNAL_INDEX

-- The words of a contract, as the SDK has them.
def signalsOf (words : List (BitVec 256)) : List Int := words.map fun word => (word.toNat : Int)

-- What the contract decodes, in the texts and the numbers of the SDK.
def ofSolidity (viem : Viem) (p : PublicSignals) : ZkIdentityPublicSignalValues where
  circuitId := bytesToHex p.circuitId
  issuerKeyId := bytesToHex p.issuerKeyId
  activeRoot := bytesToHex p.activeRoot
  policyHash := bytesToHex p.policyHash
  presentationBindingHash := bytesToHex p.presentationBindingHash
  nullifierScopeHash := bytesToHex p.nullifierScopeHash
  scopedNullifier := p.scopedNullifier.toNat
  subject := viem.getAddress (bytesToHex p.subject)
  result := p.result
  credentialEpoch := .integer p.credentialEpoch.toNat
  statusEpoch := .integer p.statusEpoch.toNat

-- What the contract makes of words that it accepts.
def decodedWords (words : List (BitVec 256)) : PublicSignals :=
  let word (index : Nat) : BitVec 256 := words.getD index 0
  { circuitId := word 1 <<< 128 ||| word 2
    issuerKeyId := word 3 <<< 128 ||| word 4
    activeRoot := word 5 <<< 128 ||| word 6
    policyHash := word 7 <<< 128 ||| word 8
    presentationBindingHash := word 9 <<< 128 ||| word 10
    nullifierScopeHash := word 11 <<< 128 ||| word 12
    scopedNullifier := word 13
    subject := (word 14).setWidth 160
    result := decide (word 15 = 1)
    credentialEpoch := (word 16).setWidth 32
    statusEpoch := (word 17).setWidth 32 }

section
variable {words : List (BitVec 256)}

theorem signalAt_signalsOf (words : List (BitVec 256)) (index : Nat) :
    signalAt (signalsOf words) index = ((words.getD index 0).toNat : Int) := by
  rw [signalAt, signalsOf, List.getD_eq_getElem?_getD, List.getD_eq_getElem?_getD,
    List.getElem?_map]
  cases words[index]? with
  | none => rfl
  | some word => rfl

theorem checkFields_eq_ok {i : Nat} {u : Unit} :
    checkFields i words = .ok u ↔
      ∀ signal ∈ signalsOf words, 0 ≤ signal ∧ signal < Sdk.BN254_SCALAR_FIELD := by
  induction words generalizing i with
  | nil => simp [checkFields, signalsOf, pure_eq_ok]
  | cons word words ih =>
    have hword : ¬ Contracts.ZkIdentityEncoding.BN254_SCALAR_FIELD ≤ word ↔
        0 ≤ (word.toNat : Int) ∧ (word.toNat : Int) < Sdk.BN254_SCALAR_FIELD := by
      rw [BitVec.not_le, BitVec.lt_def]
      have hfield : Contracts.ZkIdentityEncoding.BN254_SCALAR_FIELD.toNat =
          Sdk.BN254_SCALAR_FIELD := rfl
      omega
    simp only [checkFields, bind_eq_ok, revertIf_eq_ok, exists_const, ih, hword, signalsOf,
      List.map_cons, List.forall_mem_cons]

-- A word is zero, or above a bound, as its number is.
theorem word_bound (words : List (BitVec 256)) (index : Nat) (bound : BitVec 256) :
    bound < words.getD index 0 ↔ (bound.toNat : Int) < signalAt (signalsOf words) index := by
  rw [signalAt_signalsOf, BitVec.lt_def]
  omega

theorem word_eq (words : List (BitVec 256)) (index : Nat) (x : BitVec 256) :
    words.getD index 0 = x ↔ signalAt (signalsOf words) index = x.toNat := by
  rw [signalAt_signalsOf, ← BitVec.toNat_inj]
  omega

theorem joinIdentifier_eq_ok {high : Nat} {x : BitVec 256} :
    joinIdentifier words high = .ok x ↔
      (signalAt (signalsOf words) high ≤ UINT128_MAX ∧
        signalAt (signalsOf words) (high + 1) ≤ UINT128_MAX ∧
          ¬ (signalAt (signalsOf words) high = 0 ∧ signalAt (signalsOf words) (high + 1) = 0)) ∧
        x = words.getD high 0 <<< 128 ||| words.getD (high + 1) 0 := by
  have hlimb : MAX_LIMB.toNat = UINT128_MAX := rfl
  have hzero : ((0 : BitVec 256).toNat : Int) = 0 := rfl
  simp only [joinIdentifier, bind_eq_ok, revertIf_eq_ok, exists_const, pure_eq_ok, word_bound,
    word_eq, hlimb, hzero, not_or, not_lt, and_assoc, eq_comm (a := x)]

theorem decodePublicSignals_eq_ok {p : PublicSignals} :
    decodePublicSignals words = .ok p ↔ Canonical (signalsOf words) ∧ p = decodedWords words := by
  have hversion : ((PUBLIC_SIGNALS_VERSION.setWidth 256).toNat : Int) =
      ZK_PUBLIC_SIGNALS_VERSION := rfl
  have hzero : ((0 : BitVec 256).toNat : Int) = 0 := rfl
  have hone : ((1#256).toNat : Int) = 1 := rfl
  have hepoch : ((0xFFFFFFFF#256).toNat : Int) = 0xffffffff := rfl
  have hsubject : (0xFFFFFFFFFFFFFFFFFFFFFFFFFFFFFFFFFFFFFFFF#256).toNat = UINT160_MAX := rfl
  have hlength : (signalsOf words).length = words.length := List.length_map _
  have hdecoded : decodedWords words =
      { decodedWords words with
        result := decide
          (signalAt (signalsOf words) IDX_RESULT = (BitVec.toNat (1 : BitVec 256))) } := by
    simp only [← word_eq]
    rfl
  simp only [decodePublicSignals, bind_eq_ok, revertIf_eq_ok, exists_const, checkFields_eq_ok,
    joinIdentifier_eq_ok, pure_eq_ok, word_bound, word_eq, hversion, hzero, hone, hepoch, hsubject,
    not_not, not_or, not_lt]
  constructor
  · rintro ⟨hcount, hfield, hlayout, _, ⟨h₁, rfl⟩, _, ⟨h₃, rfl⟩, _, ⟨h₅, rfl⟩, _, ⟨h₇, rfl⟩, _,
      ⟨h₉, rfl⟩, _, ⟨h₁₁, rfl⟩, hnullifier, hsubject, hresult, hcredential, hstatus, rfl⟩
    refine ⟨⟨hlength.trans hcount, hfield, hlayout, ?_, hnullifier, hsubject.symm, hresult,
      hcredential, hstatus⟩, ?_⟩
    · simp only [List.forall_mem_cons]
      exact ⟨h₁, h₃, h₅, h₇, h₉, h₁₁, List.forall_mem_nil _⟩
    · exact hdecoded.symm
  · rintro ⟨h, rfl⟩
    have hlimbs := h.limbs
    simp only [List.forall_mem_cons] at hlimbs
    obtain ⟨h₁, h₃, h₅, h₇, h₉, h₁₁, -⟩ := hlimbs
    exact ⟨hlength.symm.trans h.length, h.field, h.version, _, ⟨h₁, rfl⟩, _, ⟨h₃, rfl⟩, _,
      ⟨h₅, rfl⟩, _, ⟨h₇, rfl⟩, _, ⟨h₉, rfl⟩, _, ⟨h₁₁, rfl⟩, h.nullifier, h.subject.symm, h.result,
      h.credentialEpoch, h.statusEpoch, hdecoded.symm⟩

-- The limbs of a word make the word.
theorem identifierAt_signalsOf (words : List (BitVec 256)) (high : Nat) :
    identifierAt (signalsOf words) high =
      words.getD high 0 <<< 128 ||| words.getD (high + 1) 0 := by
  rw [identifierAt, signalAt_signalsOf, signalAt_signalsOf, Int.toNat_natCast, Int.toNat_natCast]
  apply BitVec.eq_of_toNat_eq
  rw [BitVec.toNat_ofNat, BitVec.toNat_or, BitVec.toNat_shiftLeft, Nat.or_mod_two_pow,
    Nat.mod_eq_of_lt (words.getD (high + 1) 0).isLt]

theorem toNat_epoch {word : BitVec 256} (h : (word.toNat : Int) ≤ 0xffffffff) :
    (word.setWidth 32).toNat = word.toNat := by
  rw [BitVec.toNat_setWidth]
  exact Nat.mod_eq_of_lt (by omega)

-- Of the same words both sides make the same values.
theorem valuesOf_signalsOf {viem : Viem} (h : Canonical (signalsOf words)) :
    valuesOf viem (signalsOf words) = ofSolidity viem (decodedWords words) := by
  have hcredential := h.credentialEpoch
  have hstatus := h.statusEpoch
  rw [signalAt_signalsOf] at hcredential hstatus
  have hresult : decide (signalAt (signalsOf words) result = 1) =
      decide (words.getD 15 0 = (1 : BitVec 256)) :=
    decide_eq_decide.mpr (word_eq words 15 1).symm
  simp only [valuesOf, ofSolidity, decodedWords, identifierAt_signalsOf, hresult,
    ZkIdentityPublicSignalValues.mk.injEq, true_and, JsNumber.integer.injEq]
  refine ⟨signalAt_signalsOf _ _, ?_, ?_, ?_⟩
  · rw [signalAt_signalsOf, Int.toNat_natCast, BitVec.ofNat_toNat]
    rfl
  · rw [signalAt_signalsOf]
    exact congrArg Nat.cast (toNat_epoch hcredential).symm
  · rw [signalAt_signalsOf]
    exact congrArg Nat.cast (toNat_epoch hstatus).symm

-- Signals of the field are those of words.
theorem exists_words {signals : List Int}
    (h : ∀ signal ∈ signals, 0 ≤ signal ∧ signal < Sdk.BN254_SCALAR_FIELD) :
    ∃ words, signals = signalsOf words := by
  refine ⟨signals.map fun signal => BitVec.ofNat 256 signal.toNat, ?_⟩
  rw [signalsOf, List.map_map]
  conv_lhs => rw [← List.map_id signals]
  refine List.map_congr_left fun signal hsignal => ?_
  obtain ⟨hnonneg, hlt⟩ := h signal hsignal
  have hfield : Sdk.BN254_SCALAR_FIELD < 2 ^ 256 := by decide
  rw [Function.comp_apply, BitVec.toNat_ofNat, Nat.mod_eq_of_lt (by omega), id]
  omega

-- The SDK decodes what the contract decodes, and to its values.
theorem decode_iff_solidity {viem : Viem} {signals : List Int} {v : ZkIdentityPublicSignalValues} :
    decodeZkIdentityPublicSignals viem signals = .ok v ↔
      ∃ words p, signals = signalsOf words ∧ decodePublicSignals words = .ok p ∧
        v = ofSolidity viem p := by
  rw [decodeZkIdentityPublicSignals_eq_ok]
  constructor
  · rintro ⟨h, rfl⟩
    obtain ⟨words, rfl⟩ := exists_words h.field
    exact ⟨words, _, rfl, decodePublicSignals_eq_ok.mpr ⟨h, rfl⟩, valuesOf_signalsOf h⟩
  · rintro ⟨words, p, rfl, hdecode, rfl⟩
    obtain ⟨h, rfl⟩ := decodePublicSignals_eq_ok.mp hdecode
    exact ⟨h, (valuesOf_signalsOf h).symm⟩

end

end Ubi2.ZkIdentity
