import Ubi2.Runtime.Contracts
import Ubi2.Runtime.Lifecycle

namespace Ubi2.Exec

open Ubi2.Runtime

def STREAM_HUB : Address := 0x5742#160
def HUMANITY_HUB : Address := 0x5048#160

inductive KernelKind where
  | Transfer (to_ : Address) (value : U128)
  | OpenStream (to_ : Address) (rate deposit : U128)
  | StopStream (id : StreamId)
  | RequestVerification (livenessRef : Hash)
  | Vouch (vouchee : Address)
  | Challenge (subject : Address) (evidenceRef : Hash)
  | SubmitVerdict (caseId : CaseId) (verdict : CanonicalVerdict)
  | SubmitZkPassportProof (submission : ZkProofSubmission)
  | RegisterCsca (countryCode : BitVec 24) (keyId : Hash) (pubkey : Bytes)
  | RevokeCsca (keyId : Hash)
  | PinSelfIdentityRoot (root : Hash)
  | PinSelfOfacRoot (kind : U8) (root : Hash)
  | RetireSelfRoot (root : Hash)
  | DeployContract (text : String) (parties : List Address)
  | FundContract (id : ContractId)
  | InvokeContract (id : ContractId) (triggerRef : Hash)
  | SubmitEffect (caseId : ExecCaseId) (effect : CanonicalEffect)

def KernelKind.gas : KernelKind → U64
  | .Transfer .. => GAS_TRANSFER
  | .OpenStream .. | .StopStream .. => GAS_STREAM
  | .RequestVerification .. => GAS_ONBOARD
  | .Vouch .. | .Challenge .. | .SubmitVerdict .. => GAS_HUMANITY
  | .SubmitZkPassportProof .. => GAS_ZKPOH
  | .RegisterCsca .. | .RevokeCsca .. | .PinSelfIdentityRoot .. | .PinSelfOfacRoot ..
  | .RetireSelfRoot .. => GAS_CSCA_GOV
  | .DeployContract text _ => gasForDeploy text.utf8ByteSize
  | .FundContract .. | .InvokeContract .. | .SubmitEffect .. => GAS_CONTRACT

structure KernelTx where
  txHash : Hash
  from_ : Address
  nonce : U64
  value : U128
  kind : KernelKind

end Ubi2.Exec
