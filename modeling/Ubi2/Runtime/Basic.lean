import Ubi2.Lib.Table
import Ubi2.Lib.Word

namespace Ubi2.Runtime

-- Fixed-width integers are machine words. Byte strings of a fixed length (addresses,
-- hashes) are held big-endian in a word.
abbrev U8 := BitVec 8
abbrev U32 := BitVec 32
abbrev U64 := BitVec 64
abbrev U128 := BitVec 128
abbrev I64 := BitVec 64

abbrev Address := BitVec 160
abbrev Hash := BitVec 256
abbrev Bytes := List U8

-- The equality of these two that decides membership in a list.
instance instLawfulBEqAddress : LawfulBEq Address := inferInstance
instance instLawfulBEqHash : LawfulBEq Hash := inferInstance

-- Sequential identifiers count allocations from zero.
abbrev StreamId := Nat
abbrev CaseId := Nat
abbrev ContractId := Nat
abbrev ExecCaseId := Nat

-- The base units of one UBI, and the seconds in which a verified human accrues one.
def UBI : U128 := 1000000000000000000#128
def EMISSION_PERIOD_SECS : U64 := 3600#64

def GAS_PRICE_WEI : U128 := 1000000000#128
def GAS_TRANSFER : U64 := 21000#64
def GAS_STREAM : U64 := 60000#64
def GAS_HUMANITY : U64 := 80000#64
def GAS_ZKPOH : U64 := 250000#64
def GAS_CSCA_GOV : U64 := 80000#64
def GAS_ONBOARD : U64 := 0#64
def GAS_CONTRACT : U64 := 120000#64
def GAS_PER_TEXT_BYTE : U64 := 16#64

def MAX_CONTRACT_TEXT_BYTES : Nat := 8192
def MAX_CONTRACT_PARTIES : Nat := 16

def gasForDeploy (textLen : Nat) : U64 :=
  Lib.Word.satAdd GAS_CONTRACT
    (Lib.Word.satMul GAS_PER_TEXT_BYTE (BitVec.ofNat 64 textLen))

def TREASURY : Address := 0x5542#160

def feeForGas (gas : U64) : U128 :=
  gas.setWidth 128 * GAS_PRICE_WEI

def EPOCH_BLOCKS : U64 := 100#64
def VIEW_MAX : U32 := 1024#32

def MAX_RATE : U128 :=
  1000#128 * UBI / EMISSION_PERIOD_SECS.setWidth 128

end Ubi2.Runtime
