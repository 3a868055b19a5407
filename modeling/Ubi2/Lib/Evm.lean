import Mathlib.Logic.Function.Basic
import Ubi2.Lib.Except
import Ubi2.Lib.Word

namespace Ubi2.Lib.Evm

open Ubi2.Lib.Except

abbrev Address := BitVec 160
abbrev Bytes32 := BitVec 256

-- What a call sees of its transaction and of the chain.
structure Env where
  this : Address
  sender : Address
  timestamp : BitVec 256
  chainId : BitVec 256
  codeLength : Address → Nat
  codehash : Address → Bytes32

-- The same chain, seen by a call from another account.
def Env.withSender (env : Env) (sender : Address) : Env :=
  { env with sender }

-- No account has the zero address, so no call that changes state comes from it.
structure Transaction extends Env where
  sender_ne_zero : sender ≠ 0

-- A nested mapping, written at one pair of keys.
def set₂ {α β γ : Type} [DecidableEq α] [DecidableEq β] (m : α → β → γ) (a : α) (b : β) (v : γ) :
    α → β → γ :=
  Function.update m a (Function.update (m a) b v)

section
variable {α β γ : Type} [DecidableEq α] [DecidableEq β] {m : α → β → γ} {a x : α} {b y : β}
  {v : γ}

theorem set₂_apply : set₂ m a b v x y = if x = a ∧ y = b then v else m x y := by
  by_cases hx : x = a
  · subst hx
    by_cases hy : y = b
    · subst hy
      simp [set₂]
    · simp [set₂, hy]
  · simp [set₂, hx]

@[simp] theorem set₂_self : set₂ m a b v a b = v := by
  simp [set₂_apply]

theorem set₂_of_ne (h : x = a → y ≠ b) : set₂ m a b v x y = m x y := by
  rw [set₂_apply, if_neg]
  rintro ⟨hx, hy⟩
  exact h hx hy

end

-- What a contract takes from the ownable base that it inherits: who the owner is, and
-- the base's own entry points, which a sender may call and which may revert.
structure Ownable where
  State : Type
  Call : Type
  owner : State → Address
  call : State → Address → Call → Option State

-- Gives a token to an account, for a caller that is checked against the holder unless it
-- is zero, and says who held the token before.
abbrev Transfer (σ ε : Type) := σ → Address → BitVec 256 → Address → Except ε (σ × Address)

-- What a contract takes from the non-fungible token base that it inherits. The transfer is
-- virtual: minting and the base's own entry points go through the contract's override.
structure Erc721 (ε : Type) where
  State : Type
  Call : Type
  empty : State
  ownerOf : State → BitVec 256 → Address
  update : Transfer State ε
  mint : Transfer State ε → State → Address → BitVec 256 → Except ε State
  call : Transfer State ε → State → Address → Call → Except ε State

-- What the published base promises: a transfer moves the one token, and for a caller only
-- a token that exists; minting is a transfer of a token without a holder, on nobody's
-- behalf; an entry point that changes the state starts with a transfer to an account, on
-- its sender's behalf.
structure Erc721.Lawful {ε : Type} (nft : Erc721 ε) : Prop where
  empty : ∀ id, nft.ownerOf nft.empty id = 0
  moves : ∀ {s receiver id auth s' previous}, nft.update s receiver id auth = .ok (s', previous) →
    previous = nft.ownerOf s id ∧
      nft.ownerOf s' = Function.update (nft.ownerOf s) id receiver
  authorized : ∀ {s receiver id auth r}, nft.update s receiver id auth = .ok r → auth ≠ 0 →
    nft.ownerOf s id ≠ 0
  mints : ∀ {transfer s receiver id s'}, nft.mint transfer s receiver id = .ok s' →
    transfer s receiver id 0 = .ok (s', 0)
  calls : ∀ {transfer s sender c s'}, nft.call transfer s sender c = .ok s' →
    s' = s ∨ ∃ receiver id r, receiver ≠ 0 ∧ transfer s receiver id sender = .ok r

end Ubi2.Lib.Evm
