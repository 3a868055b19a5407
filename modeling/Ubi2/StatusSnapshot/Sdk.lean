import Ubi2.Lib.Abi
import Ubi2.Lib.Digits
import Ubi2.StatusSnapshot.Checkpoint

namespace Ubi2.StatusSnapshot.Sdk

open Ubi2.Runtime Ubi2.Lib Ubi2.Lib.Abi Ubi2.Lib.Encode

-- A value of JavaScript, as far as the parser tells values apart. A number that is not whole is
-- only ever refused.
inductive JsValue where
  | undefined
  | null
  | bool (value : Bool)
  | integer (value : Int)
  | fraction
  | str (value : String)
  | arr (items : List JsValue)
  | obj (fields : List (String × JsValue))

def MAX_SAFE_INTEGER : Int := 9007199254740991

-- `Number.isSafeInteger`, with the number.
def JsValue.safeInteger : JsValue → Option Int
  | .integer n => if -MAX_SAFE_INTEGER ≤ n ∧ n ≤ MAX_SAFE_INTEGER then some n else none
  | _ => none

def ZK_IDENTITY_STATUS_SNAPSHOT_SCHEMA : String := "org.proofofhumanity.v2-packed-status-snapshot/1"
def ZK_IDENTITY_MAX_NEXT_STATUS_ID : Nat := 4294967296
def BN254_SCALAR_FIELD : Nat :=
  21888242871839275222246405745257275088548364400416034343698204186575808495617
def FAIL_CLOSED_CHUNK : String := String.ofList ('0' :: 'x' :: List.replicate 64 'f')
def MAX_CHUNK_INDEX : Nat := 0xffffff

def snapshotKeys : List String :=
  ["schema", "chainId", "issuanceRegistry", "issuerKeyId", "sourceBlockNumber", "sourceBlockHash",
    "sourceBlockParentHash", "nextStatusId", "activatedThroughStatusId", "root", "chunks"]

def chunkKeys : List String := ["index", "value"]

abbrev Fields := List (String × JsValue)

-- The value of a field; one that is missing is undefined.
def field (fields : Fields) (key : String) : JsValue := (fields.lookup key).getD .undefined

def sortKeys (keys : List String) : List String := keys.mergeSort fun a b => decide (a ≤ b)

def exactKeys (value : Fields) (expected : List String) (label : String) : Except String Unit :=
  if sortKeys (value.map Prod.fst) ≠ sortKeys expected then
    .error (label ++ " contains missing or unknown fields")
  else .ok ()

def object (value : JsValue) (label : String) : Except String Fields :=
  match value with
  | .obj fields => .ok fields
  | _ => .error (label ++ " must be an object")

-- `^(0|[1-9][0-9]*)$`
def isDecimal : List Char → Bool
  | [] => false
  | ['0'] => true
  | c :: cs => c ≠ '0' ∧ (c :: cs).all Char.isDigit

-- `BigInt` of decimal digits, and of hexadecimal ones behind their prefix.
def bigIntOfDecimal (value : String) : Nat := Nat.ofDigitChars 10 value.toList 0
def bigIntOfHex (value : String) : Nat := Hex.value (value.toList.drop 2)

def canonicalDecimal (value : JsValue) (label : String) : Except String String :=
  match value with
  | .str s =>
    if ¬ isDecimal s.toList then .error (label ++ " must be a canonical unsigned decimal string")
    else if bigIntOfDecimal s > 0xffffffffffffffff then .error (label ++ " exceeds uint64")
    else .ok s
  | _ => .error (label ++ " must be a canonical unsigned decimal string")

-- `^0x[0-9a-fA-F]*$`
def isHexText (value : String) : Bool :=
  value.toList.take 2 = ['0', 'x'] ∧ (value.toList.drop 2).all (· ∈ Hex.allDigits)

-- The bytes of a text, one for the last digit alone.
def byteCount (value : String) : Nat := (value.toList.length - 2 + 1) / 2

def toLowerCase (value : String) : String := String.ofList (value.toList.map Char.toLower)

-- `^0x[a-fA-F0-9]{40}$`
def isAddressText (value : String) : Bool := isHexText value ∧ value.toList.length = 42

-- A static parameter of the encoder: its type, and the value that is given for it.
inductive AbiParameter where
  | bytes32 (value : String)
  | uint (bits : Nat) (value : Int)
  | bool (value : Bool)
  | address (value : String)

-- The word of a text: digits that are missing are zeros on the right.
def padRight (value : String) : Hash :=
  BitVec.ofNat 256 (Hex.value ((value.toList.drop 2).rightpad 64 '0'))

-- The word that stands for a parameter. A text of another size has none, nor has a number past
-- its bits or an address with a checksum that is not its own.
def AbiParameter.word (getAddress : String → String) : AbiParameter → Option (BitVec 256)
  | .bytes32 value =>
    if isHexText value ∧ byteCount value = 32 then some (padRight value) else none
  | .uint bits value =>
    if 0 ≤ value ∧ value < 2 ^ bits then some (BitVec.ofInt 256 value) else none
  | .bool value => some (if value then 1 else 0)
  | .address value =>
    if isAddressText value ∧ (toLowerCase value = value ∨ getAddress value = value) then
      some (BitVec.ofNat 256 (bigIntOfHex (toLowerCase value)))
    else none

-- The functions of viem that are called, and what is relied on of each: `isHex` is the pattern,
-- `size` counts the bytes of a text that fits it, `getAddress` puts a checksum in the capitals of
-- the digits, `toHex` writes a number with the digits of so many bytes and refuses one that does
-- not fit them, and `encodeAbiParameters` writes the words of its parameters one after another.
structure Viem where
  isHex : String → Bool
  size : String → Nat
  getAddress : String → String
  toHex : Int → Nat → Except String String
  encodeAbiParameters : List AbiParameter → Except String (List Byte)
  hex : ∀ value, isHex value = isHexText value
  bytes : ∀ value, isHexText value = true → size value = byteCount value
  lower : ∀ value, isAddressText value = true → toLowerCase (getAddress value) = toLowerCase value
  digits : ∀ value bytes text, 0 < bytes → (toHex value bytes = .ok text ↔
    (0 ≤ value ∧ value < 2 ^ (bytes * 8)) ∧
      text = bytesToHex (BitVec.ofNat (bytes * 8) value.toNat))
  words : ∀ parameters words,
    List.Forall₂ (fun p w => p.word getAddress = some w) parameters words →
      encodeAbiParameters parameters = .ok (encodeWords words)

theorem Viem.isBytes_iff (viem : Viem) {value : String} {n : Nat} :
    (viem.isHex value = true ∧ viem.size value = n) ↔
      (isHexText value = true ∧ byteCount value = n) := by
  rw [viem.hex]
  constructor
  · rintro ⟨hhex, hsize⟩
    exact ⟨hhex, (viem.bytes value hhex).symm.trans hsize⟩
  · rintro ⟨hhex, hsize⟩
    exact ⟨hhex, (viem.bytes value hhex).trans hsize⟩

theorem Viem.notBytes_iff (viem : Viem) {value : String} {n : Nat} :
    (¬ viem.isHex value = true ∨ viem.size value ≠ n) ↔
      (¬ isHexText value = true ∨ byteCount value ≠ n) := by
  rw [← not_and_or, ← not_and_or, viem.isBytes_iff]

-- Such functions, over any checksum.
def viemWith (getAddress : String → String)
    (lower : ∀ value, isAddressText value = true →
      toLowerCase (getAddress value) = toLowerCase value) : Viem where
  isHex := isHexText
  size := byteCount
  getAddress := getAddress
  toHex value bytes :=
    if 0 ≤ value ∧ value < 2 ^ (bytes * 8) then
      .ok (bytesToHex (BitVec.ofNat (bytes * 8) value.toNat))
    else .error "IntegerOutOfRangeError"
  encodeAbiParameters parameters :=
    match parameters.mapM (AbiParameter.word getAddress) with
    | some words => .ok (encodeWords words)
    | none => .error "AbiEncodingError"
  hex _ := rfl
  bytes _ _ := rfl
  lower := lower
  digits value bytes text _ := by
    split_ifs with h
    · simp [h, eq_comm]
    · simp [h]
  words parameters words h := by
    have hwords : parameters.mapM (AbiParameter.word getAddress) = some words := by
      induction h with
      | nil => rfl
      | cons hword _ ih => rw [List.mapM_cons, hword, ih]; rfl
    rw [hwords]

def Viem.isAddress (viem : Viem) (value : String) : Bool :=
  isAddressText value ∧ (toLowerCase value = value ∨ viem.getAddress value = value)

def canonicalAddress (viem : Viem) (value : JsValue) (label : String) : Except String String :=
  match value with
  | .str s =>
    if ¬ viem.isAddress s ∨ bigIntOfHex s = 0 then
      .error (label ++ " must be a non-zero EVM address")
    else .ok (toLowerCase (viem.getAddress s))
  | _ => .error (label ++ " must be a non-zero EVM address")

def canonicalBytes32 (viem : Viem) (value : JsValue) (label : String) (nonZero : Bool) :
    Except String String :=
  match value with
  | .str s =>
    if ¬ viem.isHex s ∨ viem.size s ≠ 32 then .error (label ++ " must be bytes32")
    else if nonZero ∧ bigIntOfHex (toLowerCase s) = 0 then .error (label ++ " must not be zero")
    else .ok (toLowerCase s)
  | _ => .error (label ++ " must be bytes32")

def positiveSafeInteger (value : JsValue) (label : String) : Except String Nat :=
  match value.safeInteger with
  | some n =>
    if n ≤ 0 then .error (label ++ " must be a positive safe integer") else .ok n.toNat
  | none => .error (label ++ " must be a positive safe integer")

-- The bits past the last allocated one.
def requiredFailClosed (lastBit : Nat) : Nat :=
  bigIntOfHex FAIL_CLOSED_CHUNK ^^^ (1 <<< (lastBit + 1) - 1)

def chunkIndex (value : JsValue) (previousIndex : Int) (lastChunk : Nat) : Except String Nat :=
  match value.safeInteger with
  | some index =>
    if index < 0 ∨ index > MAX_CHUNK_INDEX ∨ index ≤ previousIndex ∨ index > lastChunk then
      .error "packed-status chunk indices must be sorted and allocation-bounded"
    else .ok index.toNat
  | none => .error "packed-status chunk indices must be sorted and allocation-bounded"

def parseChunk (viem : Viem) (previousIndex : Int) (lastChunk lastBit : Nat) (untrusted : JsValue) :
    Except String SnapshotChunkWire := do
  let chunk ← object untrusted "packed-status chunk"
  exactKeys chunk chunkKeys "packed-status chunk"
  let index ← chunkIndex (field chunk "index") previousIndex lastChunk
  let value ← canonicalBytes32 viem (field chunk "value") "packed-status chunk value" false
  if value = FAIL_CLOSED_CHUNK then .error "packed-status default chunks must be omitted"
  else if index = 0 ∧ bigIntOfHex value &&& 1 = 0 then
    .error "packed-status slot zero must remain fail closed"
  else if index = lastChunk ∧
      bigIntOfHex value &&& requiredFailClosed lastBit ≠ requiredFailClosed lastBit then
    .error "packed-status unallocated tail must remain fail closed"
  else .ok ⟨index, value⟩

def parseChunks (viem : Viem) (lastChunk lastBit : Nat) : Int → List JsValue →
    Except String (List SnapshotChunkWire)
  | _, [] => .ok []
  | previousIndex, untrusted :: rest => do
    let chunk ← parseChunk viem previousIndex lastChunk lastBit untrusted
    let chunks ← parseChunks viem lastChunk lastBit chunk.index rest
    .ok (chunk :: chunks)

def items (value : JsValue) : Except String (List JsValue) :=
  match value with
  | .arr items => .ok items
  | _ => .error "packed-status chunks must be an array"

def parseZkIdentityPackedStatusSnapshot (viem : Viem) (value : JsValue) :
    Except String SnapshotWire := do
  let candidate ← object value "packed-status snapshot"
  exactKeys candidate snapshotKeys "packed-status snapshot"
  match field candidate "schema" with
  | .str schema =>
    if schema ≠ ZK_IDENTITY_STATUS_SNAPSHOT_SCHEMA then
      .error "unsupported packed-status snapshot schema"
    else do
      let chainId ← canonicalDecimal (field candidate "chainId") "packed-status chain id"
      if bigIntOfDecimal chainId = 0 then .error "packed-status chain id must not be zero"
      else do
        let issuanceRegistry ← canonicalAddress viem (field candidate "issuanceRegistry")
          "packed-status issuance registry"
        let issuerKeyId ← canonicalBytes32 viem (field candidate "issuerKeyId")
          "packed-status issuer key id" true
        let sourceBlockNumber ← canonicalDecimal (field candidate "sourceBlockNumber")
          "packed-status source block number"
        let sourceBlockHash ← canonicalBytes32 viem (field candidate "sourceBlockHash")
          "packed-status source block hash" true
        let sourceBlockParentHash ← canonicalBytes32 viem (field candidate "sourceBlockParentHash")
          "packed-status source parent hash" false
        let nextStatusId ← positiveSafeInteger (field candidate "nextStatusId")
          "packed-status next status id"
        if nextStatusId > ZK_IDENTITY_MAX_NEXT_STATUS_ID then
          .error "packed-status next status id exceeds the uint32 allocation range"
        else if (field candidate "activatedThroughStatusId").safeInteger ≠
            some (nextStatusId - 1 : Nat) then
          .error "packed-status activated watermark does not match next status id"
        else do
          let root ← canonicalBytes32 viem (field candidate "root") "packed-status root" true
          if bigIntOfHex root ≥ BN254_SCALAR_FIELD then
            .error "packed-status root must be a canonical BN254 field element"
          else do
            let untrusted ← items (field candidate "chunks")
            let chunks ← parseChunks viem ((nextStatusId - 1) >>> 8) ((nextStatusId - 1) &&& 0xff)
              (-1) untrusted
            if nextStatusId = 1 ∧ chunks.length ≠ 0 then
              .error "packed-status empty allocation state must omit every chunk"
            else
              .ok
                { schema := ZK_IDENTITY_STATUS_SNAPSHOT_SCHEMA
                  chainId := chainId
                  issuanceRegistry := issuanceRegistry
                  issuerKeyId := issuerKeyId
                  sourceBlockNumber := sourceBlockNumber
                  sourceBlockHash := sourceBlockHash
                  sourceBlockParentHash := sourceBlockParentHash
                  nextStatusId := nextStatusId
                  activatedThroughStatusId := nextStatusId - 1
                  root := root
                  chunks := chunks }
  | _ => .error "unsupported packed-status snapshot schema"

-- `JSON.stringify` of the record, whose fields stand in this order.
def serializeZkIdentityPackedStatusSnapshot (viem : Viem) (value : JsValue) :
    Except String String :=
  (parseZkIdentityPackedStatusSnapshot viem value).map fun wire => wire.json.compact

end Ubi2.StatusSnapshot.Sdk
