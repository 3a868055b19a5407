import Ubi2.Contracts.Spending

namespace Ubi2.Contracts.ProofOfHumanity

open Ubi2.Lib Ubi2.Lib.Evm Ubi2.Lib.Encode Ubi2.Lib.Except Ubi2.Lib.Abi ZkIdentityEncoding
open PredicateVerifier (Imports)

structure HumanityVoucher where
  recipient : Address
  nullifier : BitVec 256
  epoch : BitVec 32
deriving DecidableEq, Repr

structure TokenData where
  nullifier : BitVec 256
  epoch : BitVec 32
deriving DecidableEq, Repr

inductive Error where
  | OwnableUnauthorizedAccount (account : Address)
  | OwnableReverted
  | ERC721NonexistentToken (tokenId : BitVec 256)
  | ERC721Reverted
  | Soulbound
  | InvalidSigner
  | InvalidRecipient
  | NullifierOwnerMismatch
  | EpochDowngrade
  | VoucherReplayed
  | InvalidIssuer
  | RecoveryReverted
  | Panic
deriving DecidableEq, Repr

def VOUCHER_TYPEHASH (keccak256 : Keccak256) : Bytes32 :=
  keccakText keccak256 "HumanityVoucher(address to,uint256 nullifier,uint32 epoch)"

-- 90 days in seconds.
def EPOCH : BitVec 256 := 7776000#256

def VALIDITY_EPOCHS : BitVec 32 := 4

structure State (nft : Erc721 Error) (base : Ownable) where
  token : nft.State
  ownership : base.State
  issuer : Address
  cardRenderer : Address
  nextId : BitVec 256
  tokenOfNullifier : BitVec 256 → BitVec 256
  tokens : BitVec 256 → TokenData

variable {nft : Erc721 Error} {base : Ownable}

def initial (nft : Erc721 Error) (ownership : base.State) (issuer : Address) : State nft base where
  token := nft.empty
  ownership := ownership
  issuer := issuer
  cardRenderer := 0
  nextId := 1
  tokenOfNullifier _ := 0
  tokens _ := ⟨0, 0⟩

def new (nft : Erc721 Error) (ownership : base.State) (initialIssuer : Address) :
    Except Error (State nft base) := do
  revertIf (initialIssuer = 0) .InvalidIssuer
  pure (initial nft ownership initialIssuer)

def structHash (keccak256 : Keccak256) (v : HumanityVoucher) : Bytes32 :=
  keccak256 (encodeWords [VOUCHER_TYPEHASH keccak256, v.recipient.setWidth 256, v.nullifier,
    v.epoch.setWidth 256])

def currentEpoch (env : Env) : BitVec 32 :=
  (env.timestamp / EPOCH).setWidth 32

-- Mints and burns pass, a transfer between two accounts does not.
def update (nft : Erc721 Error) : Transfer nft.State Error := fun s receiver tokenId auth => do
  revertIf (nft.ownerOf s tokenId ≠ 0 ∧ receiver ≠ 0) .Soulbound
  nft.update s receiver tokenId auth

namespace State

variable (s : State nft base) (x : Imports) (env : Env)

def onlyOwner : Except Error Unit :=
  revertIf (env.sender ≠ base.owner s.ownership) (.OwnableUnauthorizedAccount env.sender)

def setIssuer (newIssuer : Address) : Except Error (State nft base) := do
  s.onlyOwner env
  revertIf (newIssuer = 0) .InvalidIssuer
  pure { s with issuer := newIssuer }

def setCardRenderer (newRenderer : Address) : Except Error (State nft base) := do
  s.onlyOwner env
  pure { s with cardRenderer := newRenderer }

-- The holder of a token, which has to exist.
def ownerOf (tokenId : BitVec 256) : Except Error Address := do
  let owner := nft.ownerOf s.token tokenId
  revertIf (owner = 0) (.ERC721NonexistentToken tokenId)
  pure owner

def hashVoucher (voucher : HumanityVoucher) : Bytes32 :=
  x.hashTypedDataV4 env.this env.chainId (structHash x.keccak256 voucher)

-- A first voucher for a nullifier.
def mint (voucher : HumanityVoucher) : Except Error (State nft base × BitVec 256) := do
  let tokenId := s.nextId
  revertIf (s.nextId = BitVec.allOnes 256) .Panic
  let token ← nft.mint (update nft) s.token voucher.recipient tokenId
  pure ({ s with
    token
    nextId := s.nextId + 1
    tokenOfNullifier := Function.update s.tokenOfNullifier voucher.nullifier tokenId
    tokens := Function.update s.tokens tokenId ⟨voucher.nullifier, voucher.epoch⟩ }, tokenId)

-- A later voucher for a nullifier.
def refresh (voucher : HumanityVoucher) (existingId : BitVec 256) :
    Except Error (State nft base × BitVec 256) := do
  let owner ← s.ownerOf existingId
  revertIf (owner ≠ voucher.recipient) .NullifierOwnerMismatch
  let t := s.tokens existingId
  revertIf (voucher.epoch < t.epoch) .EpochDowngrade
  revertIf (voucher.epoch = t.epoch) .VoucherReplayed
  pure ({ s with
    tokens := Function.update s.tokens existingId { t with epoch := voucher.epoch } }, existingId)

def recover (voucher : HumanityVoucher) (signature : List Byte) : Except Error Address :=
  match x.recover (hashVoucher x env voucher) signature with
  | some signer => .ok signer
  | none => .error .RecoveryReverted

def mintWithVoucher (voucher : HumanityVoucher) (signature : List Byte) :
    Except Error (State nft base × BitVec 256) := do
  revertIf (voucher.recipient = 0) .InvalidRecipient
  let signer ← recover x env voucher signature
  revertIf (signer ≠ s.issuer) .InvalidSigner
  let existingId := s.tokenOfNullifier voucher.nullifier
  if existingId = 0 then
    s.mint voucher
  else
    s.refresh voucher existingId

def epochOf (tokenId : BitVec 256) : Except Error (BitVec 32) := do
  let _ ← s.ownerOf tokenId
  pure (s.tokens tokenId).epoch

def isValid (tokenId : BitVec 256) : Except Error Bool := do
  let _ ← s.ownerOf tokenId
  pure (decide ((currentEpoch env).toNat ≤ (s.tokens tokenId).epoch.toNat + VALIDITY_EPOCHS.toNat))

end State

-- The entry points that change the state. Those of the token base that the contract
-- does not override keep their names there.
inductive Call (nft : Erc721 Error) (base : Ownable) where
  | ownership (call : base.Call)
  | erc721 (call : nft.Call)
  | approve (spender : Address) (tokenId : BitVec 256)
  | setApprovalForAll (operator : Address) (approved : Bool)
  | setIssuer (newIssuer : Address)
  | setCardRenderer (newRenderer : Address)
  | mintWithVoucher (voucher : HumanityVoucher) (signature : List Byte)

namespace State

variable (s : State nft base) (x : Imports) (env : Env)

def ownableCall (call : base.Call) : Except Error (State nft base) :=
  match base.call s.ownership env.sender call with
  | some ownership => .ok { s with ownership }
  | none => .error .OwnableReverted

def execute : Call nft base → Except Error (State nft base)
  | .ownership call => s.ownableCall env call
  | .erc721 call =>
    (nft.call (update nft) s.token env.sender call).map fun token => { s with token }
  | .approve _ _ => .error .Soulbound
  | .setApprovalForAll _ _ => .error .Soulbound
  | .setIssuer newIssuer => s.setIssuer env newIssuer
  | .setCardRenderer newRenderer => s.setCardRenderer env newRenderer
  | .mintWithVoucher voucher signature =>
    (s.mintWithVoucher x env voucher signature).map Prod.fst

end State

end Ubi2.Contracts.ProofOfHumanity
