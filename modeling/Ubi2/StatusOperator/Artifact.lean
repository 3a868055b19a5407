import Ubi2.Lib.IsoTime
import Ubi2.StatusSnapshot.Attestation

namespace Ubi2.StatusOperator

open Ubi2.Runtime Ubi2.Lib Ubi2.Lib.Except Ubi2.StatusSnapshot Ubi2.StatusSnapshot.Sdk

def ZK_IDENTITY_STATUS_OPERATOR_ARTIFACT_SCHEMA : String :=
  "org.proofofhumanity.v2-packed-status-operator-artifact/1"
def ZK_IDENTITY_STATUS_OPERATOR_HEALTH_SCHEMA : String :=
  "org.proofofhumanity.v2-packed-status-operator-health/1"

structure ZkIdentityStatusOperatorArtifact where
  schema : String
  operatorId : String
  attestation : AttestationWire
deriving DecidableEq, Repr

inductive ZkIdentityStatusOperatorState where
  | healthy
  | degraded
deriving DecidableEq, Repr

structure ZkIdentityStatusOperatorCheckpointSummary where
  sourceBlockNumber : String
  sourceBlockHash : String
  snapshotHash : String
  root : String
  nextStatusId : Nat
deriving DecidableEq, Repr

structure ZkIdentityStatusOperatorHealth where
  schema : String
  operatorId : String
  state : ZkIdentityStatusOperatorState
  observedAt : String
  consecutiveFailures : Nat
  chainId : String
  issuanceRegistry : String
  issuerKeyId : String
  signerAddress : String
  checkpoint : ZkIdentityStatusOperatorCheckpointSummary
  errorCode : Option String
deriving DecidableEq, Repr

def artifactKeys : List String := ["schema", "operatorId", "attestation"]

def healthKeys : List String :=
  ["schema", "operatorId", "state", "observedAt", "consecutiveFailures", "chainId",
    "issuanceRegistry", "issuerKeyId", "signerAddress", "checkpoint", "errorCode"]

def checkpointKeys : List String :=
  ["sourceBlockNumber", "sourceBlockHash", "snapshotHash", "root", "nextStatusId"]

def isLabelChar (c : Char) : Bool := c.isLower ∨ c.isDigit

-- `^[a-z0-9](?:[a-z0-9-]{0,62}[a-z0-9])?$`
def isOperatorId (value : String) : Bool :=
  let cs := value.toList
  cs.length ≤ 64 ∧ cs.head?.any isLabelChar ∧ cs.getLast?.any isLabelChar ∧
    cs.all fun c => isLabelChar c ∨ c = '-'

def canonicalOperatorId (value : JsValue) : Except String String :=
  match value with
  | .str s =>
    if ¬isOperatorId s then .error "status operator id must be a lowercase DNS-style label"
    else .ok s
  | _ => .error "status operator id must be a lowercase DNS-style label"

def canonicalDecimal (value : JsValue) (label : String) (nonZero : Bool) : Except String String :=
  match value with
  | .str s =>
    if s.toList.length > 20 ∨ ¬isDecimal s.toList then
      .error (label ++ " must be a canonical unsigned decimal string")
    else if bigIntOfDecimal s > 0xffffffffffffffff ∨ (nonZero ∧ bigIntOfDecimal s = 0) then
      .error (label ++ " must fit the supported uint64 range")
    else .ok s
  | _ => .error (label ++ " must be a canonical unsigned decimal string")

def canonicalBytes32 (viem : Viem) (value : JsValue) (label : String) : Except String String :=
  Sdk.canonicalBytes32 viem value label false

def canonicalAddress (viem : Viem) (value : JsValue) (label : String) : Except String String :=
  match value with
  | .str s =>
    if ¬viem.isAddress s ∨ bigIntOfHex s = 0 then
      .error (label ++ " must be a non-zero EVM address")
    else .ok (viem.getAddress s)
  | _ => .error (label ++ " must be a non-zero EVM address")

-- `new Date` reads back what `toISOString` writes.
def canonicalTimestamp (value : JsValue) : Except String String :=
  match value with
  | .str s =>
    if (IsoTime.canonical s).isNone then
      .error "status operator timestamp must be canonical ISO-8601 UTC"
    else .ok s
  | _ => .error "status operator timestamp must be a string"

def parseZkIdentityStatusOperatorArtifact (viem : Viem) (eip : Eip712) (value : JsValue) :
    Except String ZkIdentityStatusOperatorArtifact := do
  let candidate ← object value "status operator artifact"
  exactKeys candidate artifactKeys "status operator artifact"
  if ¬isSchema (field candidate "schema") ZK_IDENTITY_STATUS_OPERATOR_ARTIFACT_SCHEMA then
    .error "unsupported status operator artifact schema"
  else do
    let operatorId ← canonicalOperatorId (field candidate "operatorId")
    let attestation ← parseZkIdentityPackedStatusAttestation viem eip
      (field candidate "attestation")
    .ok ⟨ZK_IDENTITY_STATUS_OPERATOR_ARTIFACT_SCHEMA, operatorId, attestation⟩

def ZkIdentityStatusOperatorArtifact.json (w : ZkIdentityStatusOperatorArtifact) : Json :=
  .obj
    [("schema", .str w.schema), ("operatorId", .str w.operatorId),
      ("attestation", w.attestation.json)]

def ZkIdentityStatusOperatorArtifact.document (w : ZkIdentityStatusOperatorArtifact) : JsValue :=
  .obj
    [("schema", .str w.schema), ("operatorId", .str w.operatorId),
      ("attestation", w.attestation.document)]

def serializeZkIdentityStatusOperatorArtifact (viem : Viem) (eip : Eip712) (value : JsValue) :
    Except String String :=
  (parseZkIdentityStatusOperatorArtifact viem eip value).map fun artifact => artifact.json.compact

def operatorState (value : JsValue) : Except String ZkIdentityStatusOperatorState :=
  if isSchema value "healthy" then .ok .healthy
  else if isSchema value "degraded" then .ok .degraded
  else .error "status operator health state is unsupported"

def failureCount (value : JsValue) : Except String Nat :=
  match value.safeInteger with
  | some n =>
    if n < 0 then .error "status operator failure count must be a non-negative safe integer"
    else .ok n.toNat
  | none => .error "status operator failure count must be a non-negative safe integer"

-- `^[A-Z0-9_]{1,64}$`
def isErrorCode (value : String) : Bool :=
  1 ≤ value.toList.length ∧ value.toList.length ≤ 64 ∧
    value.toList.all fun c => c.isUpper ∨ c.isDigit ∨ c = '_'

def healthErrorCode (value : JsValue) : Except String (Option String) :=
  match value with
  | .null => .ok none
  | .str s => if ¬isErrorCode s then .error "status operator error code is invalid" else .ok (some s)
  | _ => .error "status operator error code is invalid"

-- Whether the failures are those of the state.
def agrees (state : ZkIdentityStatusOperatorState) (consecutiveFailures : Nat)
    (errorCode : Option String) : Bool :=
  match state with
  | .healthy => consecutiveFailures = 0 ∧ errorCode.isNone
  | .degraded => consecutiveFailures ≠ 0 ∧ errorCode.isSome

def parseCheckpointSummary (viem : Viem) (checkpoint : Fields) (nextStatusId : Nat) :
    Except String ZkIdentityStatusOperatorCheckpointSummary := do
  let sourceBlockNumber ← canonicalDecimal (field checkpoint "sourceBlockNumber")
    "status operator source block number" false
  let sourceBlockHash ← canonicalBytes32 viem (field checkpoint "sourceBlockHash")
    "status operator source block hash"
  let snapshotHash ← canonicalBytes32 viem (field checkpoint "snapshotHash")
    "status operator snapshot hash"
  let root ← canonicalBytes32 viem (field checkpoint "root") "status operator root"
  .ok ⟨sourceBlockNumber, sourceBlockHash, snapshotHash, root, nextStatusId⟩

def parseZkIdentityStatusOperatorHealth (viem : Viem) (value : JsValue) :
    Except String ZkIdentityStatusOperatorHealth := do
  let candidate ← object value "status operator health"
  exactKeys candidate healthKeys "status operator health"
  if ¬isSchema (field candidate "schema") ZK_IDENTITY_STATUS_OPERATOR_HEALTH_SCHEMA then
    .error "unsupported status operator health schema"
  else do
    let state ← operatorState (field candidate "state")
    let consecutiveFailures ← failureCount (field candidate "consecutiveFailures")
    let errorCode ← healthErrorCode (field candidate "errorCode")
    if ¬agrees state consecutiveFailures errorCode then
      .error "status operator health state and failure metadata do not agree"
    else do
      let checkpoint ← object (field candidate "checkpoint") "status operator checkpoint summary"
      exactKeys checkpoint checkpointKeys "status operator checkpoint summary"
      let nextStatusId ← positiveSafeInteger (field checkpoint "nextStatusId")
        "status operator next status id"
      let operatorId ← canonicalOperatorId (field candidate "operatorId")
      let observedAt ← canonicalTimestamp (field candidate "observedAt")
      let chainId ← canonicalDecimal (field candidate "chainId") "status operator chain id" true
      let issuanceRegistry ← canonicalAddress viem (field candidate "issuanceRegistry")
        "status operator registry"
      let issuerKeyId ← canonicalBytes32 viem (field candidate "issuerKeyId")
        "status operator issuer key id"
      let signerAddress ← canonicalAddress viem (field candidate "signerAddress")
        "status operator signer"
      let summary ← parseCheckpointSummary viem checkpoint nextStatusId
      .ok
        { schema := ZK_IDENTITY_STATUS_OPERATOR_HEALTH_SCHEMA
          operatorId := operatorId
          state := state
          observedAt := observedAt
          consecutiveFailures := consecutiveFailures
          chainId := chainId
          issuanceRegistry := issuanceRegistry
          issuerKeyId := issuerKeyId
          signerAddress := signerAddress
          checkpoint := summary
          errorCode := errorCode }

def ZkIdentityStatusOperatorState.text : ZkIdentityStatusOperatorState → String
  | healthy => "healthy"
  | degraded => "degraded"

def ZkIdentityStatusOperatorCheckpointSummary.json
    (w : ZkIdentityStatusOperatorCheckpointSummary) : Json :=
  .obj
    [("sourceBlockNumber", .str w.sourceBlockNumber), ("sourceBlockHash", .str w.sourceBlockHash),
      ("snapshotHash", .str w.snapshotHash), ("root", .str w.root),
      ("nextStatusId", .num w.nextStatusId)]

def ZkIdentityStatusOperatorHealth.json (w : ZkIdentityStatusOperatorHealth) : Json :=
  .obj
    [("schema", .str w.schema), ("operatorId", .str w.operatorId), ("state", .str w.state.text),
      ("observedAt", .str w.observedAt), ("consecutiveFailures", .num w.consecutiveFailures),
      ("chainId", .str w.chainId), ("issuanceRegistry", .str w.issuanceRegistry),
      ("issuerKeyId", .str w.issuerKeyId), ("signerAddress", .str w.signerAddress),
      ("checkpoint", w.checkpoint.json),
      ("errorCode", w.errorCode.elim .null .str)]

def ZkIdentityStatusOperatorHealth.document (w : ZkIdentityStatusOperatorHealth) : JsValue :=
  .ofJson w.json

def serializeZkIdentityStatusOperatorHealth (viem : Viem) (value : JsValue) :
    Except String String :=
  (parseZkIdentityStatusOperatorHealth viem value).map fun health => health.json.compact

variable {viem : Viem} {eip : Eip712}

-- The artifacts that the parser gives.
structure ArtifactAccepted (eip : Eip712) (w : ZkIdentityStatusOperatorArtifact) : Prop where
  schema : w.schema = ZK_IDENTITY_STATUS_OPERATOR_ARTIFACT_SCHEMA
  operatorId : isOperatorId w.operatorId = true
  attestation : AttestationAccepted eip w.attestation

theorem canonicalOperatorId_ok {v : JsValue} {t : String} :
    canonicalOperatorId v = .ok t ↔ v = .str t ∧ isOperatorId t = true := by
  cases v <;> simp [canonicalOperatorId, check_eq_ok]
  constructor
  · rintro ⟨h, rfl⟩
    exact ⟨rfl, h⟩
  · rintro ⟨rfl, h⟩
    exact ⟨h, rfl⟩

theorem parseArtifact_ok {v : JsValue} {w : ZkIdentityStatusOperatorArtifact}
    (h : parseZkIdentityStatusOperatorArtifact viem eip v = .ok w) : ArtifactAccepted eip w := by
  simp only [parseZkIdentityStatusOperatorArtifact, bind_eq_ok, check_eq_ok] at h
  obtain ⟨fields, -, _, -, -, operatorId, hoperator, attestation, hattestation, hw⟩ := h
  cases hw
  exact ⟨rfl, (canonicalOperatorId_ok.mp hoperator).2, parseAttestation_ok hattestation⟩

theorem parseArtifact_document {w : ZkIdentityStatusOperatorArtifact}
    (h : ArtifactAccepted eip w) :
    parseZkIdentityStatusOperatorArtifact viem eip w.document = .ok w := by
  simp only [parseZkIdentityStatusOperatorArtifact, bind_eq_ok, check_eq_ok]
  refine ⟨_, rfl, (), exactKeys_self _ rfl, ?_, w.operatorId,
    canonicalOperatorId_ok.mpr ⟨rfl, h.operatorId⟩, w.attestation,
    parseAttestation_document h.attestation, ?_⟩
  · rw [not_not, isSchema_iff]
    show JsValue.str w.schema = _
    rw [h.schema]
  · rw [← h.schema]

theorem serializeArtifact_document {w : ZkIdentityStatusOperatorArtifact}
    (h : ArtifactAccepted eip w) :
    serializeZkIdentityStatusOperatorArtifact viem eip w.document = .ok w.json.compact := by
  rw [serializeZkIdentityStatusOperatorArtifact, parseArtifact_document h]
  rfl

theorem ofJson_artifact (w : ZkIdentityStatusOperatorArtifact) : .ofJson w.json = w.document := by
  rw [ZkIdentityStatusOperatorArtifact.document, ← ofJson_attestation]
  rfl

theorem ArtifactAccepted.exact {w : ZkIdentityStatusOperatorArtifact} (h : ArtifactAccepted eip w) :
    exact w.json = true := by
  have hnames : ∀ fields : List (String × Json), fields.map Prod.fst = artifactKeys →
      plainNames (fields.map Prod.fst) = true := by
    intro fields hfields
    rw [hfields]
    decide
  rw [ZkIdentityStatusOperatorArtifact.json, Sdk.exact, hnames _ rfl]
  simp [exactFields, Sdk.exact, h.attestation.exact]

-- What viem says of its checksums: they are addresses, and the case they are made of is no matter.
structure Checksums (viem : Viem) : Prop where
  text : ∀ value, isAddressText value = true → isAddressText (viem.getAddress value) = true
  again : ∀ value, isAddressText value = true →
    viem.getAddress (viem.getAddress value) = viem.getAddress value

theorem isAddressText_of_isAddress {value : String} (h : viem.isAddress value = true) :
    isAddressText value = true := by
  rw [Viem.isAddress, decide_eq_true_iff] at h
  exact h.1

theorem isHex_of_isAddressText {value : String} (h : isAddressText value = true) :
    isHexText value = true := by
  rw [isAddressText, decide_eq_true_iff] at h
  exact h.1

theorem Checksums.isAddress {value : String} (hviem : Checksums viem)
    (h : isAddressText value = true) : viem.isAddress (viem.getAddress value) = true := by
  rw [Viem.isAddress, decide_eq_true_iff]
  exact ⟨hviem.text value h, .inr (hviem.again value h)⟩

-- A checksum is of the number of its address.
theorem Checksums.bigInt {value : String} (hviem : Checksums viem)
    (h : isAddressText value = true) :
    bigIntOfHex (viem.getAddress value) = bigIntOfHex value := by
  have hchecksum := isHex_of_isAddressText (hviem.text value h)
  rw [← bigIntOfHex_toLowerCase hchecksum, viem.lower value h,
    bigIntOfHex_toLowerCase (isHex_of_isAddressText h)]

-- An address that the operator writes.
def IsAddress (viem : Viem) (value : String) : Prop :=
  viem.isAddress value = true ∧ bigIntOfHex value ≠ 0

theorem IsAddress.text {value : String} (h : IsAddress viem value) : isAddressText value = true :=
  isAddressText_of_isAddress h.1

theorem isAddress_getAddress {value : String} (hviem : Checksums viem)
    (htext : isAddressText value = true) (hzero : bigIntOfHex value ≠ 0) :
    IsAddress viem (viem.getAddress value) := by
  refine ⟨hviem.isAddress htext, ?_⟩
  rwa [hviem.bigInt htext]

theorem canonicalAddress_isAddress {value : String} (label : String) (h : IsAddress viem value) :
    canonicalAddress viem (.str value) label = .ok (viem.getAddress value) := by
  rw [canonicalAddress, if_neg]
  rintro (hno | hzero)
  · exact hno h.1
  · exact h.2 hzero

theorem canonicalDecimal_repr {n : Nat} (label : String) (nonZero : Bool) (hn : n ≤ U64_MAX)
    (hzero : nonZero = true → n ≠ 0) :
    canonicalDecimal (.str n.repr) label nonZero = .ok n.repr := by
  have hdecimal : isDecimal n.repr.toList = true := by
    rw [isDecimal_iff, Nat.toList_repr, Nat.ofDigitChars_ten_toDigits]
  have hlength : n.repr.toList.length ≤ 20 := by
    rw [U64_MAX] at hn
    rw [Nat.toList_repr]
    exact (Nat.length_toDigits_le_iff (by decide) (by decide)).mpr (by omega)
  have hbound : ¬n > 0xffffffffffffffff := Nat.not_lt.mpr hn
  rw [canonicalDecimal, if_neg, bigInt_repr, if_neg]
  · rintro (hlarge | ⟨hnon, hvalue⟩)
    · exact hbound hlarge
    · exact hzero hnon hvalue
  · rintro (hlong | hno)
    · omega
    · exact hno hdecimal

theorem failureCount_integer {n : Nat} (h : (n : Int) ≤ MAX_SAFE_INTEGER) :
    failureCount (.integer n) = .ok n := by
  have hsafe : (JsValue.integer n).safeInteger = some (n : Int) := by
    rw [safeInteger_eq_some]
    rw [MAX_SAFE_INTEGER] at h ⊢
    exact ⟨rfl, by omega, by omega⟩
  have hnonneg : ¬(n : Int) < 0 := by omega
  rw [failureCount, hsafe]
  show (if (n : Int) < 0 then _ else Except.ok (n : Int).toNat) = _
  rw [if_neg hnonneg, Int.toNat_natCast]

-- The health records that are written.
structure HealthAccepted (viem : Viem) (w : ZkIdentityStatusOperatorHealth) : Prop where
  schema : w.schema = ZK_IDENTITY_STATUS_OPERATOR_HEALTH_SCHEMA
  operatorId : isOperatorId w.operatorId = true
  observedAt : (IsoTime.canonical w.observedAt).isSome = true
  consecutiveFailures : (w.consecutiveFailures : Int) ≤ MAX_SAFE_INTEGER
  errorCode : ∀ code ∈ w.errorCode, isErrorCode code = true
  agrees : agrees w.state w.consecutiveFailures w.errorCode = true
  chainId : ∃ n, n ≠ 0 ∧ n ≤ U64_MAX ∧ w.chainId = n.repr
  issuanceRegistry : IsAddress viem w.issuanceRegistry
  issuerKeyId : IsBytes32 w.issuerKeyId
  signerAddress : IsAddress viem w.signerAddress
  sourceBlockNumber : ∃ n ≤ U64_MAX, w.checkpoint.sourceBlockNumber = n.repr
  sourceBlockHash : IsBytes32 w.checkpoint.sourceBlockHash
  snapshotHash : IsBytes32 w.checkpoint.snapshotHash
  root : IsBytes32 w.checkpoint.root
  nextPos : 0 < w.checkpoint.nextStatusId
  nextBound : (w.checkpoint.nextStatusId : Int) ≤ MAX_SAFE_INTEGER

-- A health record with its addresses in checksum case.
def ZkIdentityStatusOperatorHealth.checksummed (viem : Viem) (w : ZkIdentityStatusOperatorHealth) :
    ZkIdentityStatusOperatorHealth :=
  { w with
    issuanceRegistry := viem.getAddress w.issuanceRegistry
    signerAddress := viem.getAddress w.signerAddress }

theorem HealthAccepted.checksummed {w : ZkIdentityStatusOperatorHealth} (hviem : Checksums viem)
    (h : HealthAccepted viem w) : HealthAccepted viem (w.checksummed viem) :=
  { h with
    issuanceRegistry := isAddress_getAddress hviem h.issuanceRegistry.text h.issuanceRegistry.2
    signerAddress := isAddress_getAddress hviem h.signerAddress.text h.signerAddress.2 }

theorem parseHealth_document {w : ZkIdentityStatusOperatorHealth} (h : HealthAccepted viem w) :
    parseZkIdentityStatusOperatorHealth viem w.document = .ok (w.checksummed viem) := by
  obtain ⟨chain, hchainZero, hchain, hchainText⟩ := h.chainId
  obtain ⟨number, hnumber, hnumberText⟩ := h.sourceBlockNumber
  have hstate : operatorState (.str w.state.text) = .ok w.state := by
    cases w.state <;> rfl
  have herror : healthErrorCode (JsValue.ofJson (w.errorCode.elim .null .str)) = .ok w.errorCode := by
    cases hcode : w.errorCode with
    | none => rfl
    | some code =>
      have hvalid := h.errorCode code hcode
      show (if ¬isErrorCode code = true then _ else Except.ok (some code)) = _
      rw [if_neg (not_not.mpr hvalid)]
  have htime : canonicalTimestamp (.str w.observedAt) = .ok w.observedAt := by
    rw [canonicalTimestamp, if_neg]
    rw [Option.isNone_iff_eq_none]
    exact Option.isSome_iff_ne_none.mp h.observedAt
  have hchainOk : canonicalDecimal (.str w.chainId) "status operator chain id" true =
      .ok w.chainId := by
    rw [hchainText]
    exact canonicalDecimal_repr _ true hchain fun _ => hchainZero
  have hnumberOk : canonicalDecimal (.str w.checkpoint.sourceBlockNumber)
      "status operator source block number" false = .ok w.checkpoint.sourceBlockNumber := by
    rw [hnumberText]
    exact canonicalDecimal_repr _ false hnumber nofun
  simp only [parseZkIdentityStatusOperatorHealth, bind_eq_ok, check_eq_ok]
  refine ⟨_, rfl, (), exactKeys_self _ rfl, ?_, w.state, hstate, w.consecutiveFailures,
    failureCount_integer h.consecutiveFailures, w.errorCode, herror, not_not.mpr h.agrees, _, rfl,
    (), exactKeys_self _ rfl, w.checkpoint.nextStatusId,
    positiveSafeInteger_ok.mpr ⟨rfl, h.nextPos, h.nextBound⟩, w.operatorId,
    canonicalOperatorId_ok.mpr ⟨rfl, h.operatorId⟩, w.observedAt, htime, w.chainId, hchainOk,
    _, canonicalAddress_isAddress _ h.issuanceRegistry, w.issuerKeyId,
    canonicalBytes32_str h.issuerKeyId nofun, _, canonicalAddress_isAddress _ h.signerAddress,
    w.checkpoint, ?_, ?_⟩
  · rw [not_not, isSchema_iff]
    show JsValue.str w.schema = _
    rw [h.schema]
  · simp only [parseCheckpointSummary, bind_eq_ok]
    exact ⟨_, hnumberOk, _, canonicalBytes32_str h.sourceBlockHash nofun, _,
      canonicalBytes32_str h.snapshotHash nofun, _, canonicalBytes32_str h.root nofun, rfl⟩
  · rw [← h.schema]
    rfl

end Ubi2.StatusOperator
