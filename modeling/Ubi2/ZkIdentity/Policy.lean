import Ubi2.Lib.Text
import Ubi2.StatusOperator.Fleet
import Ubi2.ZkIdentity.AbiParameters

namespace Ubi2.ZkIdentity

open Ubi2.Runtime Ubi2.Lib Ubi2.Lib.Encode Ubi2.Lib.Except Ubi2.StatusSnapshot
  Ubi2.StatusSnapshot.Sdk Contracts.ZkIdentityEncoding
open StatusOperator (trim)

def ZK_IDENTITY_POLICY_SCHEMA : String := "org.proofofhumanity.zk-policy"
def ZK_IDENTITY_POLICY_VERSION : Int := 1

inductive CountryAttribute where
  | nationality
  | issuingState
deriving DecidableEq, Repr

inductive CountryOperator where
  | isIn
  | notIn
deriving DecidableEq, Repr

inductive DocumentAssurance where
  | passiveAuth
  | chipAuth
deriving DecidableEq, Repr

inductive NullifierMode where
  | singleUse
  | stablePseudonym
deriving DecidableEq, Repr

inductive DynamicStatus where
  | sanctionsClear
deriving DecidableEq, Repr

inductive PrivateField where
  | name
deriving DecidableEq, Repr

-- A policy as it is given, each kind with its own fields.
inductive PolicyFields where
  | ageRange (minimumInclusive : JsNumber) (maximumExclusive : Option JsNumber)
      (referenceDate : String)
  | countrySet (attribute_ operator setId setRoot : String)
  | documentValidity (referenceDate : String) (minimumRemainingDays : JsNumber)
  | documentAuthenticity (minimumAssurance : String)
  | uniqueHuman (scope nullifierMode : String)
  | dynamicStatus (status providerId listVersion statusRoot : String)
      (maximumAgeSeconds : JsNumber)
  | privateFieldMatch (field expectedCommitment : String) (consentRequired : Bool)
  | unsupported (kind : String)

structure ZkIdentityPolicyInput where
  schema : Option String
  version : Option JsNumber
  policy : PolicyFields

-- A normalized policy. The schema and the version are the same in all of them.
inductive ZkIdentityPolicy where
  | ageRange (minimumInclusive : Int) (maximumExclusive : Option Int) (referenceDate : String)
  | countrySet (attribute_ : CountryAttribute) (operator : CountryOperator)
      (setId setRoot : String)
  | documentValidity (referenceDate : String) (minimumRemainingDays : Int)
  | documentAuthenticity (minimumAssurance : DocumentAssurance)
  | uniqueHuman (scope : String) (nullifierMode : NullifierMode)
  | dynamicStatus (status : DynamicStatus) (providerId listVersion statusRoot : String)
      (maximumAgeSeconds : Int)
  | privateFieldMatch (field : PrivateField) (expectedCommitment : String)
      (consentRequired : Bool)
deriving DecidableEq, Repr

def isIdentifierStart (c : Char) : Bool := ('a' ≤ c ∧ c ≤ 'z') ∨ c.isDigit

-- `^[a-z0-9][a-z0-9._:/-]*$`
def isIdentifier : List Char → Bool
  | [] => false
  | c :: cs => isIdentifierStart c ∧
    cs.all fun d => isIdentifierStart d ∨ d ∈ ['.', '_', ':', '/', '-']

def assertIdentifier (value label : String) (maxLength : Nat) : Except String String :=
  let normalized := trim value.toList
  if ¬ isIdentifier normalized ∨ normalized.length > maxLength then
    .error s!"{label} must be a lowercase public identifier of at most {maxLength} characters"
  else .ok (String.ofList normalized)

-- The groups of `^(\d{4})-(\d{2})-(\d{2})$`
def dateGroups : List Char → Option (List Char × List Char × List Char)
  | [y₁, y₂, y₃, y₄, s, m₁, m₂, t, d₁, d₂] =>
    if s = '-' ∧ t = '-' ∧ [y₁, y₂, y₃, y₄, m₁, m₂, d₁, d₂].all Char.isDigit then
      some ([y₁, y₂, y₃, y₄], [m₁, m₂], [d₁, d₂])
    else none
  | _ => none

-- The day of `Date.UTC`: a month past the year's end is one of the next year, a day past the
-- month's end one of the next month, and a year below 100 one of the twentieth century.
def utcDay (year month day : Nat) : IsoTime.Civil :=
  let fullYear : Int := if year ≤ 99 then 1900 + year else year
  let monthIndex : Int := month - 1
  IsoTime.civil
    (IsoTime.daysOf ⟨fullYear + monthIndex / 12, (monthIndex % 12).toNat + 1, 1⟩ + day - 1)

def civilDate (value label : String) : Except String String :=
  match dateGroups value.toList with
  | none => .error s!"{label} must use YYYY-MM-DD"
  | some (yearDigits, monthDigits, dayDigits) =>
    let year := Decimal.value yearDigits
    let month := Decimal.value monthDigits
    let day := Decimal.value dayDigits
    if year < 1970 ∨ year > 2500 ∨ utcDay year month day ≠ ⟨year, month, day⟩ then
      .error s!"{label} must be a valid civil date from 1970 through 2500"
    else .ok value

def packedDate (value : String) : Int := (Decimal.value (value.toList.filter (· ≠ '-')) : Nat)

def countryAttribute (attribute_ : String) : Except String CountryAttribute :=
  if attribute_ = "nationality" then .ok .nationality
  else if attribute_ = "issuing-state" then .ok .issuingState
  else .error "unsupported private country attribute"

def countryOperator (operator : String) : Except String CountryOperator :=
  if operator = "in" then .ok .isIn
  else if operator = "not-in" then .ok .notIn
  else .error "unsupported country-set operator"

def documentAssurance (minimumAssurance : String) : Except String DocumentAssurance :=
  if minimumAssurance = "passive-auth" then .ok .passiveAuth
  else if minimumAssurance = "chip-auth" then .ok .chipAuth
  else .error "unsupported document assurance"

def nullifierMode (mode : String) : Except String NullifierMode :=
  if mode = "single-use" then .ok .singleUse
  else if mode = "stable-pseudonym" then .ok .stablePseudonym
  else .error "unsupported nullifier mode"

def dynamicStatus (status : String) : Except String DynamicStatus :=
  if status = "sanctions-clear" then .ok .sanctionsClear else .error "unsupported dynamic status"

def privateField (field : String) (consentRequired : Bool) : Except String PrivateField :=
  if field = "name" ∧ consentRequired = true then .ok .name
  else .error "private name matching requires explicit consent"

def maximumAge (minimum : Int) : Option JsNumber → Except String (Option Int)
  | none => pure none
  | some maximumExclusive => do
    let maximum ← assertInteger maximumExclusive "maximum age" 1 126
    revertIf (maximum ≤ minimum) "maximum age must be greater than minimum age"
    pure (some maximum)

def normalizeFields (viem : Viem) : PolicyFields → Except String ZkIdentityPolicy
  | .ageRange minimumInclusive maximumExclusive referenceDate => do
    let minimum ← assertInteger minimumInclusive "minimum age" 0 125
    let maximum ← maximumAge minimum maximumExclusive
    let date ← civilDate referenceDate "age reference date"
    pure (.ageRange minimum maximum date)
  | .countrySet attribute_ operator setId setRoot => do
    let attribute_ ← countryAttribute attribute_
    let operator ← countryOperator operator
    let setId ← assertIdentifier setId "country set id" 96
    let setRoot ← bytes32 viem setRoot "country set root"
    pure (.countrySet attribute_ operator setId setRoot)
  | .documentValidity referenceDate minimumRemainingDays => do
    let days ← assertInteger minimumRemainingDays "minimum remaining days" 0 3650
    let date ← civilDate referenceDate "validity reference date"
    pure (.documentValidity date days)
  | .documentAuthenticity minimumAssurance => do
    let assurance ← documentAssurance minimumAssurance
    pure (.documentAuthenticity assurance)
  | .uniqueHuman scope mode => do
    let mode ← nullifierMode mode
    let scope ← assertIdentifier scope "uniqueness scope" 128
    pure (.uniqueHuman scope mode)
  | .dynamicStatus status providerId listVersion statusRoot maximumAgeSeconds => do
    let status ← dynamicStatus status
    let age ← assertInteger maximumAgeSeconds "maximum status age" 60 31536000
    let providerId ← assertIdentifier providerId "status provider id" 96
    let listVersion ← assertIdentifier listVersion "status list version" 96
    let statusRoot ← nonZeroBytes32 viem statusRoot "status root"
    pure (.dynamicStatus status providerId listVersion statusRoot age)
  | .privateFieldMatch field expectedCommitment consentRequired => do
    let field ← privateField field consentRequired
    let commitment ← bytes32 viem expectedCommitment "expected field commitment"
    pure (.privateFieldMatch field commitment true)
  | .unsupported _ => .error "unsupported ZK identity policy kind"

def normalizeZkIdentityPolicy (viem : Viem) (input : ZkIdentityPolicyInput) :
    Except String ZkIdentityPolicy := do
  revertIf (input.schema.getD ZK_IDENTITY_POLICY_SCHEMA ≠ ZK_IDENTITY_POLICY_SCHEMA)
    "unsupported ZK identity policy schema"
  revertIf (input.version.getD (.integer ZK_IDENTITY_POLICY_VERSION) ≠
    .integer ZK_IDENTITY_POLICY_VERSION) "unsupported ZK identity policy version"
  normalizeFields viem input.policy

def ZkIdentityPolicy.kind : ZkIdentityPolicy → String
  | .ageRange .. => "age-range"
  | .countrySet .. => "country-set"
  | .documentValidity .. => "document-validity"
  | .documentAuthenticity .. => "document-authenticity"
  | .uniqueHuman .. => "unique-human"
  | .dynamicStatus .. => "dynamic-status"
  | .privateFieldMatch .. => "private-field-match"

def DynamicStatus.text : DynamicStatus → String
  | .sanctionsClear => "sanctions-clear"

def PrivateField.text : PrivateField → String
  | .name => "name"

section
variable (viem : Viem) (keccak256 : Keccak256)

def textHash (text : String) : String := keccakHex keccak256 (stringToBytes text)

def policyDomainHash : String := textHash keccak256 ZK_IDENTITY_POLICY_SCHEMA

def policyParameters : ZkIdentityPolicy → List AbiParameter
  | .ageRange minimumInclusive maximumExclusive referenceDate =>
    [.uint 8 minimumInclusive, .uint 8 (maximumExclusive.getD 0), .bool maximumExclusive.isSome,
      .uint 32 (packedDate referenceDate)]
  | .countrySet attribute_ operator setId setRoot =>
    [.uint 8 (if attribute_ = .nationality then 1 else 2),
      .uint 8 (if operator = .isIn then 1 else 2), .bytes32 (textHash keccak256 setId),
      .bytes32 setRoot]
  | .documentValidity referenceDate minimumRemainingDays =>
    [.uint 32 (packedDate referenceDate), .uint 16 minimumRemainingDays]
  | .documentAuthenticity minimumAssurance =>
    [.uint 8 (if minimumAssurance = .passiveAuth then 1 else 2)]
  | .uniqueHuman scope mode =>
    [.bytes32 (textHash keccak256 scope), .uint 8 (if mode = .singleUse then 1 else 2)]
  | .dynamicStatus status providerId listVersion statusRoot maximumAgeSeconds =>
    [.bytes32 (textHash keccak256 status.text), .bytes32 (textHash keccak256 providerId),
      .bytes32 (textHash keccak256 listVersion), .bytes32 statusRoot, .uint 32 maximumAgeSeconds]
  | .privateFieldMatch field expectedCommitment consentRequired =>
    [.bytes32 (textHash keccak256 field.text), .bytes32 expectedCommitment, .bool consentRequired]

def policyParametersHash (policy : ZkIdentityPolicy) : Except String String := do
  let encoded ← viem.encodeAbiParameters (policyParameters keccak256 policy)
  pure (keccakHex keccak256 encoded)

def zkIdentityPolicyHash (input : ZkIdentityPolicyInput) : Except String String := do
  let policy ← normalizeZkIdentityPolicy viem input
  let kindHash := textHash keccak256 s!"{ZK_IDENTITY_POLICY_SCHEMA}:{policy.kind}"
  let parametersHash ← policyParametersHash viem keccak256 policy
  let encoded ← viem.encodeAbiParameters
    [.bytes32 (policyDomainHash keccak256), .uint 16 ZK_IDENTITY_POLICY_VERSION,
      .bytes32 kindHash, .bytes32 parametersHash]
  pure (keccakHex keccak256 encoded)

end

example : civilDate "2024-02-29" "age reference date" = .ok "2024-02-29" := by decide +kernel

example : civilDate "2023-02-29" "age reference date" =
    .error "age reference date must be a valid civil date from 1970 through 2500" := by
  decide +kernel

end Ubi2.ZkIdentity
