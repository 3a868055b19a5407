import Ubi2.ZkIdentity.Encoding

namespace Ubi2.ZkIdentity

open Ubi2.Runtime Ubi2.Lib Ubi2.Lib.Except Ubi2.StatusSnapshot Ubi2.StatusSnapshot.Sdk

def ZK_PUBLIC_SIGNALS_VERSION : Int := 1
def ZK_PUBLIC_SIGNAL_COUNT : Nat := 18

-- The signals that are no limbs, by their places.
namespace ZK_PUBLIC_SIGNAL_INDEX

def layoutVersion : Nat := 0
def scopedNullifier : Nat := 13
def subject : Nat := 14
def result : Nat := 15
def credentialEpoch : Nat := 16
def statusEpoch : Nat := 17

end ZK_PUBLIC_SIGNAL_INDEX

open ZK_PUBLIC_SIGNAL_INDEX

structure ZkIdentityPublicSignalValues where
  circuitId : String
  issuerKeyId : String
  activeRoot : String
  policyHash : String
  presentationBindingHash : String
  nullifierScopeHash : String
  scopedNullifier : Int
  subject : String
  result : Bool
  credentialEpoch : JsNumber
  statusEpoch : JsNumber

def encodeZkIdentityPublicSignals (viem : Viem) (input : ZkIdentityPublicSignalValues) :
    Except String (List Int) := do
  let circuit ← splitBytes32 viem (← nonZeroBytes32 viem input.circuitId "circuit id")
  let issuer ← splitBytes32 viem (← nonZeroBytes32 viem input.issuerKeyId "issuer key id")
  let root ← splitBytes32 viem (← nonZeroBytes32 viem input.activeRoot "active credential root")
  let policy ← splitBytes32 viem (← nonZeroBytes32 viem input.policyHash "policy hash")
  let binding ← splitBytes32 viem
    (← nonZeroBytes32 viem input.presentationBindingHash "presentation binding hash")
  let scope ← splitBytes32 viem
    (← nonZeroBytes32 viem input.nullifierScopeHash "nullifier scope hash")
  let subject ← normalizeAddress viem input.subject "subject"
  let credentialEpoch ← assertInteger input.credentialEpoch "credential epoch" 0 0xffffffff
  let statusEpoch ← assertInteger input.statusEpoch "status epoch" 0 0xffffffff
  let scopedNullifier ← fieldElement input.scopedNullifier "scoped nullifier" false
  pure [ZK_PUBLIC_SIGNALS_VERSION, circuit.1, circuit.2, issuer.1, issuer.2, root.1, root.2,
    policy.1, policy.2, binding.1, binding.2, scope.1, scope.2, scopedNullifier,
    bigIntOfHex subject, if input.result then 1 else 0, credentialEpoch, statusEpoch]

def signalAt (signals : List Int) (index : Nat) : Int := signals.getD index 0

def fieldElements : Nat → List Int → Except String Unit
  | _, [] => pure ()
  | index, signal :: signals => do
    let _ ← fieldElement signal s!"public signal {index}" true
    fieldElements (index + 1) signals

-- The identifiers, by the places of their high limbs.
def identifiers : List (Nat × String) :=
  [(1, "circuit id"), (3, "issuer key id"), (5, "active credential root"), (7, "policy hash"),
    (9, "presentation binding hash"), (11, "nullifier scope hash")]

def checkIdentifiers (signals : List Int) : List (Nat × String) → Except String Unit
  | [] => pure ()
  | (high, label) :: rest => do
    revertIf (signalAt signals high > UINT128_MAX ∨ signalAt signals (high + 1) > UINT128_MAX)
      s!"{label} limbs must be unsigned 128-bit integers"
    revertIf (signalAt signals high = 0 ∧ signalAt signals (high + 1) = 0)
      s!"{label} must not be zero"
    checkIdentifiers signals rest

def decodeZkIdentityPublicSignals (viem : Viem) (signals : List Int) :
    Except String ZkIdentityPublicSignalValues := do
  revertIf (signals.length ≠ ZK_PUBLIC_SIGNAL_COUNT)
    s!"expected {ZK_PUBLIC_SIGNAL_COUNT} ZK identity public signals"
  fieldElements 0 signals
  revertIf (signalAt signals layoutVersion ≠ ZK_PUBLIC_SIGNALS_VERSION)
    "unsupported ZK identity public-signal layout"
  revertIf (signalAt signals subject > UINT160_MAX) "public subject exceeds 160 bits"
  revertIf (signalAt signals subject = 0) "public subject must not be the zero address"
  revertIf (signalAt signals result > 1) "public result must be zero or one"
  revertIf (signalAt signals credentialEpoch > 0xffffffff ∨
    signalAt signals statusEpoch > 0xffffffff) "public epoch exceeds uint32"
  checkIdentifiers signals identifiers
  let circuitId ← joinBytes32 viem (signalAt signals 1) (signalAt signals 2)
  let issuerKeyId ← joinBytes32 viem (signalAt signals 3) (signalAt signals 4)
  let activeRoot ← joinBytes32 viem (signalAt signals 5) (signalAt signals 6)
  let policyHash ← joinBytes32 viem (signalAt signals 7) (signalAt signals 8)
  let presentationBindingHash ← joinBytes32 viem (signalAt signals 9) (signalAt signals 10)
  let nullifierScopeHash ← joinBytes32 viem (signalAt signals 11) (signalAt signals 12)
  let scopedNullifier ← fieldElement (signalAt signals scopedNullifier) "scoped nullifier" false
  let subject ← viem.toHex (signalAt signals subject) 20
  pure
    { circuitId
      issuerKeyId
      activeRoot
      policyHash
      presentationBindingHash
      nullifierScopeHash
      scopedNullifier
      subject := viem.getAddress subject
      result := decide (signalAt signals result = 1)
      credentialEpoch := .integer (signalAt signals credentialEpoch)
      statusEpoch := .integer (signalAt signals statusEpoch) }

-- The signals that name a value each: all the decoders check.
structure Canonical (signals : List Int) : Prop where
  length : signals.length = ZK_PUBLIC_SIGNAL_COUNT
  field : ∀ signal ∈ signals, 0 ≤ signal ∧ signal < BN254_SCALAR_FIELD
  version : signalAt signals layoutVersion = ZK_PUBLIC_SIGNALS_VERSION
  limbs : ∀ i ∈ [1, 3, 5, 7, 9, 11], signalAt signals i ≤ UINT128_MAX ∧
    signalAt signals (i + 1) ≤ UINT128_MAX ∧
      ¬ (signalAt signals i = 0 ∧ signalAt signals (i + 1) = 0)
  nullifier : signalAt signals scopedNullifier ≠ 0
  subject : signalAt signals subject ≤ UINT160_MAX ∧ signalAt signals subject ≠ 0
  result : signalAt signals result ≤ 1
  credentialEpoch : signalAt signals credentialEpoch ≤ 0xffffffff
  statusEpoch : signalAt signals statusEpoch ≤ 0xffffffff

-- The word that a pair of limbs makes.
def identifierAt (signals : List Int) (high : Nat) : Hash :=
  BitVec.ofNat 256 ((signalAt signals high).toNat <<< 128 ||| (signalAt signals (high + 1)).toNat)

-- What the SDK makes of canonical signals.
def valuesOf (viem : Viem) (signals : List Int) : ZkIdentityPublicSignalValues where
  circuitId := bytesToHex (identifierAt signals 1)
  issuerKeyId := bytesToHex (identifierAt signals 3)
  activeRoot := bytesToHex (identifierAt signals 5)
  policyHash := bytesToHex (identifierAt signals 7)
  presentationBindingHash := bytesToHex (identifierAt signals 9)
  nullifierScopeHash := bytesToHex (identifierAt signals 11)
  scopedNullifier := signalAt signals scopedNullifier
  subject := viem.getAddress (bytesToHex (BitVec.ofNat 160 (signalAt signals subject).toNat))
  result := decide (signalAt signals result = 1)
  credentialEpoch := .integer (signalAt signals credentialEpoch)
  statusEpoch := .integer (signalAt signals statusEpoch)

section
variable {viem : Viem} {signals : List Int} {v : ZkIdentityPublicSignalValues}

theorem fieldElements_eq_ok {index : Nat} {u : Unit} :
    fieldElements index signals = .ok u ↔
      ∀ signal ∈ signals, 0 ≤ signal ∧ signal < BN254_SCALAR_FIELD := by
  induction signals generalizing index with
  | nil => simp [fieldElements, pure_eq_ok]
  | cons signal signals ih =>
    simp only [fieldElements, bind_eq_ok, fieldElement_eq_ok, Bool.true_eq_false, false_implies,
      true_and, ih, List.forall_mem_cons]
    constructor
    · rintro ⟨_, ⟨hsignal, -⟩, hrest⟩
      exact ⟨hsignal, hrest⟩
    · rintro ⟨hsignal, hrest⟩
      exact ⟨signal, ⟨hsignal, rfl⟩, hrest⟩

theorem checkIdentifiers_eq_ok {l : List (Nat × String)} {u : Unit} :
    checkIdentifiers signals l = .ok u ↔
      ∀ e ∈ l, signalAt signals e.1 ≤ UINT128_MAX ∧ signalAt signals (e.1 + 1) ≤ UINT128_MAX ∧
        ¬ (signalAt signals e.1 = 0 ∧ signalAt signals (e.1 + 1) = 0) := by
  induction l with
  | nil => simp [checkIdentifiers, pure_eq_ok]
  | cons e l ih =>
    obtain ⟨high, label⟩ := e
    simp only [checkIdentifiers, bind_eq_ok, revertIf_eq_ok, ih, List.forall_mem_cons,
      exists_const, not_or, not_lt, gt_iff_lt, and_assoc]

-- A signal behind the last one is no signal; the others are elements of the field.
theorem signalAt_field (h : ∀ signal ∈ signals, 0 ≤ signal ∧ signal < BN254_SCALAR_FIELD)
    (index : Nat) : 0 ≤ signalAt signals index ∧ signalAt signals index < BN254_SCALAR_FIELD := by
  rw [signalAt, List.getD_eq_getElem?_getD]
  cases hget : signals[index]? with
  | none => exact ⟨le_refl 0, by decide⟩
  | some signal => exact h signal (List.mem_of_getElem? hget)

theorem forall_identifiers {P : Nat → Prop} :
    (∀ i ∈ [1, 3, 5, 7, 9, 11], P i) ↔ ∀ e ∈ identifiers, P e.1 :=
  @List.forall_mem_map _ _ Prod.fst identifiers P

theorem decodeZkIdentityPublicSignals_eq_ok :
    decodeZkIdentityPublicSignals viem signals = .ok v ↔
      Canonical signals ∧ v = valuesOf viem signals := by
  simp only [decodeZkIdentityPublicSignals, bind_eq_ok, revertIf_eq_ok, exists_const,
    fieldElements_eq_ok, checkIdentifiers_eq_ok, joinBytes32_eq_ok, fieldElement_eq_ok,
    viem.digits _ 20 _ (by decide), pure_eq_ok, not_not, not_or, not_lt, gt_iff_lt]
  constructor
  · rintro ⟨hlength, hfield, hversion, hsubject, hzero, hresult, hepochs, hlimbs, _, ⟨-, rfl⟩, _,
      ⟨-, rfl⟩, _, ⟨-, rfl⟩, _, ⟨-, rfl⟩, _, ⟨-, rfl⟩, _, ⟨-, rfl⟩, _, ⟨-, hnullifier, rfl⟩, _,
      ⟨-, rfl⟩, rfl⟩
    exact ⟨⟨hlength, hfield, hversion, forall_identifiers.mpr hlimbs, hnullifier trivial,
      ⟨hsubject, hzero⟩, hresult, hepochs.1, hepochs.2⟩, rfl⟩
  · rintro ⟨h, rfl⟩
    have hfield := signalAt_field h.field
    have hlimb : ∀ i ∈ [1, 3, 5, 7, 9, 11],
        (0 ≤ signalAt signals i ∧ signalAt signals i ≤ UINT128_MAX) ∧
          0 ≤ signalAt signals (i + 1) ∧ signalAt signals (i + 1) ≤ UINT128_MAX := by
      intro i hi
      have hlimbs := h.limbs i hi
      exact ⟨⟨(hfield i).1, hlimbs.1⟩, (hfield (i + 1)).1, hlimbs.2.1⟩
    have hsubject : signalAt signals subject < 2 ^ (20 * 8) := by
      have hle := h.subject.1
      rw [UINT160_MAX] at hle
      omega
    exact ⟨h.length, h.field, h.version, h.subject.1, h.subject.2, h.result,
      ⟨h.credentialEpoch, h.statusEpoch⟩, forall_identifiers.mp h.limbs,
      _, ⟨hlimb 1 (by simp), rfl⟩, _, ⟨hlimb 3 (by simp), rfl⟩, _, ⟨hlimb 5 (by simp), rfl⟩,
      _, ⟨hlimb 7 (by simp), rfl⟩, _, ⟨hlimb 9 (by simp), rfl⟩, _, ⟨hlimb 11 (by simp), rfl⟩,
      _, ⟨hfield _, fun _ => h.nullifier, rfl⟩, _, ⟨⟨(hfield _).1, hsubject⟩, rfl⟩, rfl⟩

end

end Ubi2.ZkIdentity
