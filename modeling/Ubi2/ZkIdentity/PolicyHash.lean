import Ubi2.ZkIdentity.Policy

namespace Ubi2.ZkIdentity

open Ubi2.Runtime Ubi2.Lib Ubi2.Lib.Abi Ubi2.Lib.Encode Ubi2.Lib.Except Ubi2.StatusSnapshot
  Ubi2.StatusSnapshot.Sdk Contracts.ZkIdentityEncoding

def IsDate (date : String) : Prop := (dateGroups date.toList).isSome = true

theorem digits_of_isDate {date : String} (h : IsDate date) :
    ∃ y₁ y₂ y₃ y₄ m₁ m₂ d₁ d₂, date.toList = [y₁, y₂, y₃, y₄, '-', m₁, m₂, '-', d₁, d₂] ∧
      ∀ c ∈ [y₁, y₂, y₃, y₄, m₁, m₂, d₁, d₂], c.isDigit = true := by
  rw [IsDate, dateGroups.eq_def] at h
  split at h
  · rename_i y₁ y₂ y₃ y₄ s m₁ m₂ t d₁ d₂ htext
    split at h
    · rename_i hshape
      obtain ⟨rfl, rfl, hdigits⟩ := hshape
      exact ⟨y₁, y₂, y₃, y₄, m₁, m₂, d₁, d₂, htext, List.all_eq_true.mp hdigits⟩
    · cases h
  · cases h

-- A date is told by its packed digits.
theorem packedDate_spec {date : String} (h : IsDate date) :
    0 ≤ packedDate date ∧ packedDate date < 10 ^ 8 ∧
      ∀ date', IsDate date' → packedDate date = packedDate date' → date = date' := by
  have hpacked : ∀ {y₁ y₂ y₃ y₄ m₁ m₂ d₁ d₂ : Char},
      (∀ c ∈ [y₁, y₂, y₃, y₄, m₁, m₂, d₁, d₂], c.isDigit = true) →
      [y₁, y₂, y₃, y₄, '-', m₁, m₂, '-', d₁, d₂].filter (· ≠ '-') =
        [y₁, y₂, y₃, y₄, m₁, m₂, d₁, d₂] := by
    intro y₁ y₂ y₃ y₄ m₁ m₂ d₁ d₂ hdigits
    have hne : ∀ c ∈ [y₁, y₂, y₃, y₄, m₁, m₂, d₁, d₂], c ≠ '-' := by
      rintro c hc rfl
      exact absurd (hdigits _ hc) (by decide)
    simp only [List.forall_mem_cons] at hne
    simp [hne]
  obtain ⟨y₁, y₂, y₃, y₄, m₁, m₂, d₁, d₂, htext, hdigits⟩ := digits_of_isDate h
  have hvalue := Decimal.value_lt hdigits
  refine ⟨Int.natCast_nonneg _, ?_, ?_⟩
  · rw [packedDate, htext, hpacked hdigits]
    exact_mod_cast hvalue
  · intro date' h' heq
    obtain ⟨y₁', y₂', y₃', y₄', m₁', m₂', d₁', d₂', htext', hdigits'⟩ := digits_of_isDate h'
    rw [packedDate, packedDate, htext, htext', hpacked hdigits, hpacked hdigits'] at heq
    have hlist := Decimal.eq_of_value hdigits hdigits' rfl (Int.natCast_inj.mp heq)
    simp only [List.cons.injEq, and_true] at hlist
    rw [← String.toList_inj, htext, htext']
    simp only [hlist]

namespace ZkIdentityPolicy

-- What the checks leave of the fields.
def WellFormed : ZkIdentityPolicy → Prop
  | .ageRange minimumInclusive maximumExclusive referenceDate =>
    (0 ≤ minimumInclusive ∧ minimumInclusive ≤ 125) ∧
      (∀ maximum ∈ maximumExclusive, 1 ≤ maximum ∧ maximum ≤ 126) ∧ IsDate referenceDate
  | .countrySet _ _ _ setRoot => IsBytes32 setRoot
  | .documentValidity referenceDate minimumRemainingDays =>
    IsDate referenceDate ∧ 0 ≤ minimumRemainingDays ∧ minimumRemainingDays ≤ 3650
  | .documentAuthenticity _ => True
  | .uniqueHuman _ _ => True
  | .dynamicStatus _ _ _ statusRoot maximumAgeSeconds =>
    IsBytes32 statusRoot ∧ 60 ≤ maximumAgeSeconds ∧ maximumAgeSeconds ≤ 31536000
  | .privateFieldMatch _ expectedCommitment _ => IsBytes32 expectedCommitment

end ZkIdentityPolicy

theorem isDate_of_civilDate {value label date : String} (h : civilDate value label = .ok date) :
    IsDate date := by
  rw [civilDate] at h
  split at h
  · cases h
  · rename_i hgroups
    simp only [check_eq_ok, Except.ok.injEq] at h
    obtain ⟨-, rfl⟩ := h
    rw [IsDate, hgroups]
    rfl

theorem maximumAge_range {minimum : Int} {given : Option JsNumber} {maximum : Option Int}
    (h : maximumAge minimum given = .ok maximum) : ∀ m ∈ maximum, 1 ≤ m ∧ m ≤ 126 := by
  cases given with
  | none =>
    rw [maximumAge, pure_eq_ok] at h
    subst h
    exact nofun
  | some given =>
    simp only [maximumAge, bind_eq_ok, assertInteger_eq_ok, revertIf_eq_ok, exists_const,
      pure_eq_ok] at h
    obtain ⟨n, ⟨-, -, hrange⟩, -, rfl⟩ := h
    rintro m hm
    cases hm
    exact hrange

theorem wellFormed_of_normalizeFields {viem : Viem} {fields : PolicyFields}
    {policy : ZkIdentityPolicy} (h : normalizeFields viem fields = .ok policy) :
    policy.WellFormed := by
  cases fields with
  | ageRange minimumInclusive maximumExclusive referenceDate =>
    simp only [normalizeFields, bind_eq_ok, assertInteger_eq_ok, pure_eq_ok] at h
    obtain ⟨minimum, ⟨-, -, hrange⟩, maximum, hmaximum, date, hdate, rfl⟩ := h
    exact ⟨hrange, maximumAge_range hmaximum, isDate_of_civilDate hdate⟩
  | countrySet attribute_ operator setId setRoot =>
    simp only [normalizeFields, bind_eq_ok, pure_eq_ok] at h
    obtain ⟨_, -, _, -, _, -, root, hroot, rfl⟩ := h
    exact isBytes32_of_bytes32 hroot
  | documentValidity referenceDate minimumRemainingDays =>
    simp only [normalizeFields, bind_eq_ok, assertInteger_eq_ok, pure_eq_ok] at h
    obtain ⟨days, ⟨-, -, hrange⟩, date, hdate, rfl⟩ := h
    exact ⟨isDate_of_civilDate hdate, hrange⟩
  | documentAuthenticity minimumAssurance =>
    simp only [normalizeFields, bind_eq_ok, pure_eq_ok] at h
    obtain ⟨_, -, rfl⟩ := h
    trivial
  | uniqueHuman scope mode =>
    simp only [normalizeFields, bind_eq_ok, pure_eq_ok] at h
    obtain ⟨_, -, _, -, rfl⟩ := h
    trivial
  | dynamicStatus status providerId listVersion statusRoot maximumAgeSeconds =>
    simp only [normalizeFields, bind_eq_ok, assertInteger_eq_ok, nonZeroBytes32, check_eq_ok,
      Except.ok.injEq, pure_eq_ok] at h
    obtain ⟨_, -, age, ⟨-, -, hrange⟩, _, -, _, -, _, ⟨root, hroot, -, rfl⟩, rfl⟩ := h
    exact ⟨isBytes32_of_bytes32 hroot, hrange⟩
  | privateFieldMatch field expectedCommitment consentRequired =>
    simp only [normalizeFields, bind_eq_ok, pure_eq_ok] at h
    obtain ⟨_, -, commitment, hcommitment, rfl⟩ := h
    exact isBytes32_of_bytes32 hcommitment
  | unsupported kind => cases h

theorem wellFormed_of_normalize {viem : Viem} {input : ZkIdentityPolicyInput}
    {policy : ZkIdentityPolicy} (h : normalizeZkIdentityPolicy viem input = .ok policy) :
    policy.WellFormed := by
  simp only [normalizeZkIdentityPolicy, bind_eq_ok, revertIf_eq_ok, exists_const] at h
  exact wellFormed_of_normalizeFields h.2.2

section
variable (keccak256 : Keccak256)

def parameterWords : ZkIdentityPolicy → List (BitVec 256)
  | .ageRange minimumInclusive maximumExclusive referenceDate =>
    [BitVec.ofInt 256 minimumInclusive, BitVec.ofInt 256 (maximumExclusive.getD 0),
      if maximumExclusive.isSome then 1 else 0, BitVec.ofInt 256 (packedDate referenceDate)]
  | .countrySet attribute_ operator setId setRoot =>
    [if attribute_ = .nationality then 1 else 2, if operator = .isIn then 1 else 2,
      keccakText keccak256 setId, padRight setRoot]
  | .documentValidity referenceDate minimumRemainingDays =>
    [BitVec.ofInt 256 (packedDate referenceDate), BitVec.ofInt 256 minimumRemainingDays]
  | .documentAuthenticity minimumAssurance => [if minimumAssurance = .passiveAuth then 1 else 2]
  | .uniqueHuman scope mode =>
    [keccakText keccak256 scope, if mode = .singleUse then 1 else 2]
  | .dynamicStatus status providerId listVersion statusRoot maximumAgeSeconds =>
    [keccakText keccak256 status.text, keccakText keccak256 providerId,
      keccakText keccak256 listVersion, padRight statusRoot, BitVec.ofInt 256 maximumAgeSeconds]
  | .privateFieldMatch field expectedCommitment consentRequired =>
    [keccakText keccak256 field.text, padRight expectedCommitment,
      if consentRequired then 1 else 0]

def kindText (policy : ZkIdentityPolicy) : String :=
  s!"{ZK_IDENTITY_POLICY_SCHEMA}:{policy.kind}"

-- The bytes whose hash is the hash of a policy.
def policyPreimage (policy : ZkIdentityPolicy) : List Byte :=
  encodeWords [POLICY_DOMAIN keccak256, 1, keccakText keccak256 (kindText policy),
    keccak256 (encodeWords (parameterWords keccak256 policy))]

-- The texts of a policy that are hashed.
def identifierTexts : ZkIdentityPolicy → List String
  | .countrySet _ _ setId _ => [setId]
  | .uniqueHuman scope _ => [scope]
  | .dynamicStatus _ providerId listVersion _ _ => [providerId, listVersion]
  | _ => []

-- The byte strings that are hashed for a policy.
def hashed (policy : ZkIdentityPolicy) : List (List Byte) :=
  stringToBytes (kindText policy) :: (identifierTexts policy).map stringToBytes ++
    [encodeWords (parameterWords keccak256 policy), policyPreimage keccak256 policy]

end

section
variable {viem : Viem} {keccak256 : Keccak256} {policy : ZkIdentityPolicy}

-- A code of one of two members.
theorem word_code {p : Prop} [Decidable p] :
    (AbiParameter.uint 8 (if p then 1 else 2)).word viem.getAddress =
      some (if p then 1 else 2) := by
  split
  · rfl
  · rfl

theorem word_text (text : String) :
    (AbiParameter.bytes32 (textHash keccak256 text)).word viem.getAddress =
      some (keccakText keccak256 text) :=
  word_hash _

theorem encode_parameters (h : policy.WellFormed) :
    viem.encodeAbiParameters (policyParameters keccak256 policy) =
      .ok (encodeWords (parameterWords keccak256 policy)) := by
  apply viem.words
  cases policy with
  | ageRange minimumInclusive maximumExclusive referenceDate =>
    obtain ⟨hminimum, hmaximum, hdate⟩ := h
    obtain ⟨hnonneg, hlt, -⟩ := packedDate_spec hdate
    have hrange : 0 ≤ maximumExclusive.getD 0 ∧ maximumExclusive.getD 0 < 2 ^ 8 := by
      cases maximumExclusive with
      | none => decide
      | some maximum =>
        have hm := hmaximum maximum rfl
        rw [Option.getD_some]
        omega
    exact .cons (word_uint (by omega)) <| .cons (word_uint hrange) <|
      .cons rfl <| .cons (word_uint (by omega)) .nil
  | countrySet attribute_ operator setId setRoot =>
    exact .cons word_code <| .cons word_code <| .cons (word_text _) <|
      .cons (word_bytes32 h) .nil
  | documentValidity referenceDate minimumRemainingDays =>
    obtain ⟨hdate, hdays⟩ := h
    obtain ⟨hnonneg, hlt, -⟩ := packedDate_spec hdate
    exact .cons (word_uint (by omega)) <| .cons (word_uint (by omega)) .nil
  | documentAuthenticity minimumAssurance => exact .cons word_code .nil
  | uniqueHuman scope mode => exact .cons (word_text _) <| .cons word_code .nil
  | dynamicStatus status providerId listVersion statusRoot maximumAgeSeconds =>
    obtain ⟨hroot, hage⟩ := h
    exact .cons (word_text _) <| .cons (word_text _) <| .cons (word_text _) <|
      .cons (word_bytes32 hroot) <| .cons (word_uint (by omega)) .nil
  | privateFieldMatch field expectedCommitment consentRequired =>
    exact .cons (word_text _) <| .cons (word_bytes32 h) <| .cons rfl .nil

theorem zkIdentityPolicyHash_eq_ok {input : ZkIdentityPolicyInput} {hash : String} :
    zkIdentityPolicyHash viem keccak256 input = .ok hash ↔
      ∃ policy, normalizeZkIdentityPolicy viem input = .ok policy ∧
        hash = bytesToHex (keccak256 (policyPreimage keccak256 policy)) := by
  have hencode : ∀ policy : ZkIdentityPolicy,
      viem.encodeAbiParameters [.bytes32 (policyDomainHash keccak256),
        .uint 16 ZK_IDENTITY_POLICY_VERSION, .bytes32 (textHash keccak256 (kindText policy)),
        .bytes32 (keccakHex keccak256 (encodeWords (parameterWords keccak256 policy)))] =
          .ok (policyPreimage keccak256 policy) := by
    intro policy
    apply viem.words
    exact .cons (word_text _) <| .cons rfl <| .cons (word_text _) <|
      .cons (word_hash _) .nil
  rw [zkIdentityPolicyHash, bind_eq_ok]
  refine exists_congr fun policy => and_congr_right fun hpolicy => ?_
  have hparameters := @encode_parameters viem keccak256 _ (wellFormed_of_normalize hpolicy)
  have henvelope := hencode policy
  rw [kindText, keccakHex] at henvelope
  simp only [policyParametersHash, bind_eq_ok, pure_eq_ok, hparameters, Except.ok.injEq,
    exists_eq_left', henvelope, keccakHex]
  exact eq_comm

end

end Ubi2.ZkIdentity
