import Ubi2.StatusSnapshot.Accepted

namespace Ubi2.StatusSnapshot.Sdk

open Ubi2.Runtime Ubi2.Lib Ubi2.Lib.Except

-- A message with its domain, as it is hashed for a signature.
inductive TypedValue where
  | bytes (hex : String)
  | uint (value : Nat)
  | bool (value : Bool)
deriving DecidableEq, Repr

structure TypedData where
  name : String
  version : String
  chainId : Nat
  verifyingContract : String
  primaryType : String
  types : List (String × String)
  message : List (String × TypedValue)
deriving DecidableEq, Repr

-- What viem computes: the hash of a text, that of typed data, and the signer of such.
structure Eip712 where
  keccak256 : String → Hash
  hashTypedData : TypedData → Hash
  recoverTypedDataAddress : TypedData → String → Except String Address

def ZK_IDENTITY_STATUS_ATTESTATION_SCHEMA : String :=
  "org.proofofhumanity.v2-packed-status-attestation"
def ZK_IDENTITY_STATUS_ATTESTATION_VERSION : Nat := 1
def ZK_IDENTITY_STATUS_ATTESTATION_DOMAIN_NAME : String := "ProofOfHumanityPackedStatusSnapshot"
def ZK_IDENTITY_STATUS_ATTESTATION_DOMAIN_VERSION : String := "1"
def ZK_IDENTITY_STATUS_ATTESTATION_PRIMARY_TYPE : String := "PackedStatusSnapshotAttestation"

def attestationKeys : List String := ["schema", "version", "snapshot", "snapshotHash", "signature"]

def zkIdentityPackedStatusAttestationTypes : List (String × String) :=
  [("snapshotHash", "bytes32"), ("issuerKeyId", "bytes32"), ("sourceBlockNumber", "uint64"),
    ("sourceBlockHash", "bytes32"), ("expectedNextStatusId", "uint64"), ("root", "bytes32")]

structure AttestationWire where
  schema : String
  version : Nat
  snapshot : SnapshotWire
  snapshotHash : String
  signature : String
deriving DecidableEq, Repr

def AttestationWire.json (w : AttestationWire) : Json :=
  .obj
    [("schema", .str w.schema), ("version", .num w.version), ("snapshot", w.snapshot.json),
      ("snapshotHash", .str w.snapshotHash), ("signature", .str w.signature)]

def AttestationWire.document (w : AttestationWire) : JsValue :=
  .obj
    [("schema", .str w.schema), ("version", .integer w.version), ("snapshot", w.snapshot.document),
      ("snapshotHash", .str w.snapshotHash), ("signature", .str w.signature)]

-- viem's `getAddress`, which refuses what is no address.
def getAddress (viem : Viem) (value : String) : Except String String :=
  if ¬isAddressText value then .error "Address is invalid" else .ok (viem.getAddress value)

def zkIdentityPackedStatusSnapshotHash (viem : Viem) (eip : Eip712) (value : JsValue) :
    Except String String :=
  (serializeZkIdentityPackedStatusSnapshot viem value).map fun text => bytesToHex (eip.keccak256 text)

def snapshotTypedData (snapshot : SnapshotWire) (snapshotHash : String) : Except String TypedData :=
  let chainId := bigIntOfDecimal snapshot.chainId
  if (chainId : Int) > MAX_SAFE_INTEGER then
    .error "packed-status EIP-712 chain id exceeds the SDK safe range"
  else
    .ok
      { name := ZK_IDENTITY_STATUS_ATTESTATION_DOMAIN_NAME
        version := ZK_IDENTITY_STATUS_ATTESTATION_DOMAIN_VERSION
        chainId := chainId
        verifyingContract := snapshot.issuanceRegistry
        primaryType := ZK_IDENTITY_STATUS_ATTESTATION_PRIMARY_TYPE
        types := zkIdentityPackedStatusAttestationTypes
        message :=
          [("snapshotHash", .bytes snapshotHash), ("issuerKeyId", .bytes snapshot.issuerKeyId),
            ("sourceBlockNumber", .uint (bigIntOfDecimal snapshot.sourceBlockNumber)),
            ("sourceBlockHash", .bytes snapshot.sourceBlockHash),
            ("expectedNextStatusId", .uint snapshot.nextStatusId),
            ("root", .bytes snapshot.root)] }

def zkIdentityPackedStatusAttestationTypedData (viem : Viem) (eip : Eip712)
    (snapshotValue : JsValue) : Except String TypedData := do
  let snapshot ← parseZkIdentityPackedStatusSnapshot viem snapshotValue
  let snapshotHash ← zkIdentityPackedStatusSnapshotHash viem eip snapshot.document
  snapshotTypedData snapshot snapshotHash

def zkIdentityPackedStatusAttestationDigest (viem : Viem) (eip : Eip712)
    (snapshotValue : JsValue) : Except String String :=
  (zkIdentityPackedStatusAttestationTypedData viem eip snapshotValue).map fun typed =>
    bytesToHex (eip.hashTypedData typed)

def createZkIdentityPackedStatusAttestation (viem : Viem) (eip : Eip712) (snapshotValue : JsValue)
    (signature : String) : Except String AttestationWire := do
  let snapshot ← parseZkIdentityPackedStatusSnapshot viem snapshotValue
  if ¬viem.isHex signature ∨ viem.size signature ≠ 65 then
    .error "packed-status attestation signature must be 65 bytes"
  else do
    let snapshotHash ← zkIdentityPackedStatusSnapshotHash viem eip snapshot.document
    .ok
      { schema := ZK_IDENTITY_STATUS_ATTESTATION_SCHEMA
        version := ZK_IDENTITY_STATUS_ATTESTATION_VERSION
        snapshot := snapshot
        snapshotHash := snapshotHash
        signature := toLowerCase signature }

def isSchema (value : JsValue) (schema : String) : Bool :=
  match value with
  | .str s => s = schema
  | _ => false

def isNumber (value : JsValue) (number : Int) : Bool :=
  match value with
  | .integer n => n = number
  | _ => false

def canonicalSignature (viem : Viem) (value : JsValue) : Except String String :=
  match value with
  | .str s =>
    if ¬viem.isHex s ∨ viem.size s ≠ 65 then
      .error "packed-status attestation signature must be 65 bytes"
    else .ok (toLowerCase s)
  | _ => .error "packed-status attestation signature must be 65 bytes"

def parseZkIdentityPackedStatusAttestation (viem : Viem) (eip : Eip712) (value : JsValue) :
    Except String AttestationWire := do
  let candidate ← object value "packed-status attestation"
  exactKeys candidate attestationKeys "packed-status attestation"
  if ¬isSchema (field candidate "schema") ZK_IDENTITY_STATUS_ATTESTATION_SCHEMA ∨
      ¬isNumber (field candidate "version") ZK_IDENTITY_STATUS_ATTESTATION_VERSION then
    .error "unsupported packed-status attestation schema or version"
  else do
    let snapshot ← parseZkIdentityPackedStatusSnapshot viem (field candidate "snapshot")
    let snapshotHash ← canonicalBytes32 viem (field candidate "snapshotHash")
      "packed-status attestation snapshot hash" true
    let expected ← zkIdentityPackedStatusSnapshotHash viem eip snapshot.document
    if snapshotHash ≠ expected then
      .error "packed-status attestation hash does not match its snapshot content"
    else do
      let signature ← canonicalSignature viem (field candidate "signature")
      .ok
        { schema := ZK_IDENTITY_STATUS_ATTESTATION_SCHEMA
          version := ZK_IDENTITY_STATUS_ATTESTATION_VERSION
          snapshot := snapshot
          snapshotHash := snapshotHash
          signature := signature }

def recoverZkIdentityPackedStatusAttestationSigner (viem : Viem) (eip : Eip712) (value : JsValue) :
    Except String String := do
  let attestation ← parseZkIdentityPackedStatusAttestation viem eip value
  let typed ← snapshotTypedData attestation.snapshot attestation.snapshotHash
  let signer ← eip.recoverTypedDataAddress typed attestation.signature
  .ok (viem.getAddress (bytesToHex signer))

end Ubi2.StatusSnapshot.Sdk

namespace Ubi2.StatusSnapshot

open Ubi2.Runtime Ubi2.Lib Ubi2.Lib.Except Sdk

variable {viem : Viem} {eip : Eip712}

-- The hash of a snapshot's text.
def hashOf (eip : Eip712) (w : SnapshotWire) : String := bytesToHex (eip.keccak256 w.json.compact)

theorem serialize_document {w : SnapshotWire} (h : Accepted w) :
    serializeZkIdentityPackedStatusSnapshot viem w.document = .ok w.json.compact := by
  rw [serializeZkIdentityPackedStatusSnapshot, parse_document h]
  rfl

theorem snapshotHash_document {w : SnapshotWire} (h : Accepted w) :
    zkIdentityPackedStatusSnapshotHash viem eip w.document = .ok (hashOf eip w) := by
  rw [zkIdentityPackedStatusSnapshotHash, serialize_document h]
  rfl

-- A text of 65 bytes, which a signature has to be.
def isSignature (signature : String) : Bool := isHexText signature ∧ byteCount signature = 65

theorem notSignature_iff {signature : String} :
    (¬viem.isHex signature = true ∨ viem.size signature ≠ 65) ↔ ¬isSignature signature = true := by
  rw [viem.notBytes_iff, isSignature, decide_eq_true_iff, not_and_or]

-- A signature of 65 bytes in small digits.
def IsSignature (s : String) : Prop := isSignature s = true ∧ toLowerCase s = s

theorem isSignature_toLowerCase {s : String} (h : isSignature s = true) :
    IsSignature (toLowerCase s) := by
  rw [isSignature, decide_eq_true_iff] at h
  have htext := hexText_toLowerCase h.1
  refine ⟨?_, htext.toLowerCase⟩
  rw [isSignature, decide_eq_true_iff]
  refine ⟨htext.isHexText, ?_⟩
  rw [← h.2, byteCount, byteCount, toLowerCase, String.toList_ofList, List.length_map]

-- The attestations that the SDK's parser gives.
structure AttestationAccepted (eip : Eip712) (w : AttestationWire) : Prop where
  schema : w.schema = ZK_IDENTITY_STATUS_ATTESTATION_SCHEMA
  version : w.version = ZK_IDENTITY_STATUS_ATTESTATION_VERSION
  snapshot : Accepted w.snapshot
  snapshotHash : w.snapshotHash = hashOf eip w.snapshot
  nonzero : eip.keccak256 w.snapshot.json.compact ≠ ZERO_HASH
  signature : IsSignature w.signature

theorem isSchema_iff {v : JsValue} {schema : String} : isSchema v schema = true ↔ v = .str schema := by
  cases v <;> simp [isSchema]

theorem isNumber_iff {v : JsValue} {n : Int} : isNumber v n = true ↔ v = .integer n := by
  cases v <;> simp [isNumber]

theorem canonicalSignature_ok {v : JsValue} {t : String} (h : canonicalSignature viem v = .ok t) :
    IsSignature t := by
  rw [canonicalSignature.eq_def] at h
  split at h
  · simp only [notSignature_iff, check_eq_ok, not_not, Except.ok.injEq] at h
    obtain ⟨hsignature, rfl⟩ := h
    exact isSignature_toLowerCase hsignature
  · cases h

theorem canonicalSignature_str {t : String} (h : IsSignature t) :
    canonicalSignature viem (.str t) = .ok t := by
  rw [canonicalSignature, if_neg (fun hno => notSignature_iff.mp hno h.1), h.2]

theorem bytesToHex_ne_zero {x : Hash} : bigIntOfHex (bytesToHex x) ≠ 0 ↔ x ≠ ZERO_HASH := by
  rw [bigInt_bytesToHex (by decide)]
  constructor
  · rintro h rfl
    exact h rfl
  · exact fun h hzero => h (BitVec.eq_of_toNat_eq hzero)

theorem parseAttestation_ok {v : JsValue} {w : AttestationWire}
    (h : parseZkIdentityPackedStatusAttestation viem eip v = .ok w) : AttestationAccepted eip w := by
  simp only [parseZkIdentityPackedStatusAttestation, bind_eq_ok, check_eq_ok] at h
  obtain ⟨fields, -, _, -, -, snapshot, hsnapshot, hash, hhash, expected, hexpected, heq, signature,
    hsignature, hw⟩ := h
  cases hw
  have haccepted := parse_ok hsnapshot
  rw [snapshotHash_document haccepted, Except.ok.injEq] at hexpected
  have hsame : hash = hashOf eip snapshot := (not_not.mp heq).trans hexpected.symm
  refine ⟨rfl, rfl, haccepted, hsame, ?_, canonicalSignature_ok hsignature⟩
  refine bytesToHex_ne_zero.mp ?_
  rw [← hashOf, ← hsame]
  exact (isBytes32_nonzero hhash).2

theorem parseAttestation_document {w : AttestationWire} (h : AttestationAccepted eip w) :
    parseZkIdentityPackedStatusAttestation viem eip w.document = .ok w := by
  have hhash : canonicalBytes32 viem (.str w.snapshotHash)
      "packed-status attestation snapshot hash" true = .ok w.snapshotHash := by
    rw [h.snapshotHash]
    exact canonicalBytes32_str (isBytes32_bytesToHex _) fun _ => bytesToHex_ne_zero.mpr h.nonzero
  simp only [parseZkIdentityPackedStatusAttestation, bind_eq_ok, check_eq_ok]
  refine ⟨_, rfl, (), exactKeys_self _ rfl, ?_, w.snapshot, parse_document h.snapshot,
    w.snapshotHash, hhash, hashOf eip w.snapshot, snapshotHash_document h.snapshot,
    not_not.mpr h.snapshotHash, w.signature, canonicalSignature_str h.signature, ?_⟩
  · rw [not_or, not_not, not_not, isSchema_iff, isNumber_iff]
    refine ⟨?_, ?_⟩
    · show JsValue.str w.schema = _
      rw [h.schema]
    · show JsValue.integer w.version = _
      rw [h.version]
  · rw [← h.schema, ← h.version]

theorem create_document {w : SnapshotWire} {signature : String} (h : Accepted w)
    (hsignature : isSignature signature = true) :
    createZkIdentityPackedStatusAttestation viem eip w.document signature =
      .ok
        { schema := ZK_IDENTITY_STATUS_ATTESTATION_SCHEMA
          version := ZK_IDENTITY_STATUS_ATTESTATION_VERSION
          snapshot := w
          snapshotHash := hashOf eip w
          signature := toLowerCase signature } := by
  simp only [createZkIdentityPackedStatusAttestation, bind_eq_ok, check_eq_ok]
  exact ⟨w, parse_document h, fun hno => notSignature_iff.mp hno hsignature, hashOf eip w,
    snapshotHash_document h, rfl⟩

theorem ofJson_attestation (w : AttestationWire) : JsValue.ofJson w.json = w.document := by
  rw [AttestationWire.document, ← ofJson_snapshot]
  rfl

theorem AttestationAccepted.exact {w : AttestationWire} (h : AttestationAccepted eip w) :
    exact w.json = true := by
  have hnames : plainNames attestationKeys = true := by decide
  have hversion : w.version ≤ 9007199254740991 := by
    rw [h.version]
    decide
  have hfields : ∀ fields : List (String × Json), fields.map Prod.fst = attestationKeys →
      plainNames (fields.map Prod.fst) = true := by
    intro fields hfields
    rw [hfields]
    exact hnames
  rw [AttestationWire.json, Sdk.exact, hfields _ rfl]
  simp [exactFields, Sdk.exact, h.snapshot.exact, hversion]

end Ubi2.StatusSnapshot
