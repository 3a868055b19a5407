import Ubi2.Runtime.Humanity

namespace Ubi2.Runtime

open Lib

def SELF_NPUBLIC : Nat := 21

def SELF_IDX_REVEALED_DATA : Fin 21 := 0
def SELF_IDX_NULLIFIER : Fin 21 := 7
def SELF_IDX_ATTESTATION_ID : Fin 21 := 8
def SELF_IDX_MERKLE_ROOT : Fin 21 := 9
def SELF_IDX_CURRENT_DATE : Fin 21 := 10
def SELF_IDX_OFAC_PASSPORTNO : Fin 21 := 16
def SELF_IDX_SCOPE : Fin 21 := 19
def SELF_IDX_USER_IDENTIFIER : Fin 21 := 20

def SCHEME_TAG_PASSPORT : U8 := 0#8
def SELF_ATTESTATION_ID_EPASSPORT : U64 := 1#64
def SELF_ROOT_WINDOW_BLOCKS : U64 := 5000000#64
def SELF_DATE_WINDOW_SECS : U64 := 172800#64

-- The OFAC kinds 0 (passport number), 1 (name and date of birth) and 2 (name and year
-- of birth), as offsets of their signal.
def OFAC_KIND_PASSPORTNO : Fin 3 := 0
def OFAC_KIND_NAMEDOB : Fin 3 := 1
def OFAC_KIND_NAMEYOB : Fin 3 := 2

structure ZkPublicInputs where
  signals : Fin 21 → Hash

-- The three opaque attribute commitments of a human.
abbrev Commitments := Hash × Hash × Hash

namespace ZkPublicInputs

def nullifier (pi : ZkPublicInputs) : Hash := pi.signals SELF_IDX_NULLIFIER

def attributeCommitments (pi : ZkPublicInputs) : Commitments :=
  (pi.signals SELF_IDX_REVEALED_DATA,
    pi.signals (SELF_IDX_REVEALED_DATA + 1),
    pi.signals (SELF_IDX_REVEALED_DATA + 2))

def attestationId (pi : ZkPublicInputs) : Hash := pi.signals SELF_IDX_ATTESTATION_ID

def merkleRoot (pi : ZkPublicInputs) : Hash := pi.signals SELF_IDX_MERKLE_ROOT

def ofacRoot (pi : ZkPublicInputs) (kind : Fin 3) : Hash :=
  pi.signals (SELF_IDX_OFAC_PASSPORTNO + kind.castLE (by decide))

def currentDate (pi : ZkPublicInputs) : List Hash :=
  (List.finRange 6).map
    (fun i => pi.signals (SELF_IDX_CURRENT_DATE + i.castLE (by decide)))

def scope (pi : ZkPublicInputs) : Hash := pi.signals SELF_IDX_SCOPE

def userIdentifier (pi : ZkPublicInputs) : Hash := pi.signals SELF_IDX_USER_IDENTIFIER

end ZkPublicInputs

-- The proof seam: the pairing check of a passport proof.
structure ZkPassportVerifier where
  verifyPassport : Bytes → ZkPublicInputs → Bool

def u64ToHash (v : U64) : Hash := v.setWidth 256

-- A date signal is one decimal digit in its last byte.
def dateDigit (sig : Hash) : Option Int :=
  if 9 < sig.toNat then none else some sig.toNat

-- Days from the epoch of a proleptic Gregorian date, with years counted from March.
def daysFromCivil (year mm dd : Int) : Int :=
  let y := if mm ≤ 2 then year - 1 else year
  let era := (if 0 ≤ y then y else y - 399).tdiv 400
  let yoe := y - era * 400
  let doy := (153 * (if 2 < mm then mm - 3 else mm + 9) + 2).tdiv 5 + dd - 1
  let doe := yoe * 365 + yoe.tdiv 4 - yoe.tdiv 100 + doy
  era * 146097 + doe - 719468

def currentDateToEpoch (date : List Hash) : Option U64 :=
  match date.mapM dateDigit with
  | some [y1, y2, m1, m2, d1, d2] =>
    let yy := y1 * 10 + y2
    let mm := m1 * 10 + m2
    let dd := d1 * 10 + d2
    if ¬ (1 ≤ mm ∧ mm ≤ 12) ∨ ¬ (1 ≤ dd ∧ dd ≤ 31) then none
    else
      let days := daysFromCivil (2000 + yy) mm dd
      if days < 0 then none
      else some (BitVec.ofInt 64 days * 86400#64)
  | _ => none

def BN254_FR_MODULUS_BE : Hash :=
  0x30644e72e131a029b85045b68181585d2833e84879b9709143e1f593f0000001#256

-- The byte-wise comparison of two big-endian strings is the comparison of the words.
def isCanonicalScalar (bytes : Hash) : Bool :=
  bytes < BN254_FR_MODULUS_BE

inductive CscaStatus where
  | Active
  | Revoked
deriving DecidableEq, Repr

def CscaStatus.tag : CscaStatus → U8
  | .Active => 0#8
  | .Revoked => 1#8

structure CscaEntry where
  countryCode : BitVec 24
  keyId : Hash
  pubkey : Bytes
  addedAt : U64
  status : CscaStatus
deriving DecidableEq, Repr

def CscaEntry.active (countryCode : BitVec 24) (keyId : Hash) (pubkey : Bytes)
    (addedAt : U64) : CscaEntry :=
  { countryCode := countryCode, keyId := keyId, pubkey := pubkey
    addedAt := addedAt, status := .Active }

structure SelfIdentityRoot where
  root : Hash
  pinnedAtBlock : U64
deriving DecidableEq, Repr

structure SelfOfacRoot where
  kind : U8
  root : Hash
  pinnedAtBlock : U64
deriving DecidableEq, Repr

def selfIdentityRootAccepted (roots : List SelfIdentityRoot) (root : Hash)
    (nowBlock : U64) : Bool :=
  roots.any (fun e => e.root = root ∧
    Word.satSub nowBlock e.pinnedAtBlock ≤ SELF_ROOT_WINDOW_BLOCKS)

def selfOfacRootAccepted (roots : List SelfOfacRoot) (kind : U8) (root : Hash)
    (nowBlock : U64) : Bool :=
  roots.any (fun e => e.kind = kind ∧ e.root = root ∧
    Word.satSub nowBlock e.pinnedAtBlock ≤ SELF_ROOT_WINDOW_BLOCKS)

end Ubi2.Runtime
