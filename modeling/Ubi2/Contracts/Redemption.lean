import Mathlib.Data.Set.Function
import Mathlib.Order.Bounds.Defs
import Ubi2.Contracts.ProofOfHumanity

namespace Ubi2.Contracts.ProofOfHumanity

open Ubi2.Lib Ubi2.Lib.Evm Ubi2.Lib.Encode Ubi2.Lib.Except Ubi2.Lib.Abi
open PredicateVerifier (Imports)

variable {nft : Erc721 Error} {base : Ownable} {s s' : State nft base} {x : Imports} {env : Env}
  {voucher : HumanityVoucher}

-- The holder of a token, or zero.
def State.holder (s : State nft base) (id : BitVec 256) : Address :=
  nft.ownerOf s.token id

-- What a call that mints does.
structure Mints (s : State nft base) (voucher : HumanityVoucher) (s' : State nft base) :
    Prop where
  recipient : voucher.recipient ≠ 0
  first : s.tokenOfNullifier voucher.nullifier = 0
  bounded : s.nextId ≠ BitVec.allOnes 256
  holder : s'.holder = Function.update s.holder s.nextId voucher.recipient
  nextId : s'.nextId = s.nextId + 1
  tokenOfNullifier : s'.tokenOfNullifier =
    Function.update s.tokenOfNullifier voucher.nullifier s.nextId
  tokens : s'.tokens =
    Function.update s.tokens s.nextId ⟨voucher.nullifier, voucher.epoch⟩

namespace Mints

theorem tokenOfNullifier_self (h : Mints s voucher s') :
    s'.tokenOfNullifier voucher.nullifier = s.nextId := by
  rw [h.tokenOfNullifier, Function.update_self]

theorem tokenOfNullifier_of_ne (h : Mints s voucher s') {n : BitVec 256}
    (hn : n ≠ voucher.nullifier) : s'.tokenOfNullifier n = s.tokenOfNullifier n := by
  rw [h.tokenOfNullifier, Function.update_of_ne hn]

theorem holder_self (h : Mints s voucher s') : s'.holder s.nextId = voucher.recipient := by
  rw [h.holder, Function.update_self]

theorem holder_of_ne (h : Mints s voucher s') {id : BitVec 256} (hid : id ≠ s.nextId) :
    s'.holder id = s.holder id := by
  rw [h.holder, Function.update_of_ne hid]

theorem tokens_self (h : Mints s voucher s') :
    s'.tokens s.nextId = ⟨voucher.nullifier, voucher.epoch⟩ := by
  rw [h.tokens, Function.update_self]

theorem tokens_of_ne (h : Mints s voucher s') {id : BitVec 256} (hid : id ≠ s.nextId) :
    s'.tokens id = s.tokens id := by
  rw [h.tokens, Function.update_of_ne hid]

theorem toNat_nextId (h : Mints s voucher s') : s'.nextId.toNat = s.nextId.toNat + 1 := by
  have hbounded := h.bounded
  have hlt := s.nextId.isLt
  have hne : s.nextId.toNat ≠ 2 ^ 256 - 1 := by
    intro heq
    exact hbounded (BitVec.eq_of_toNat_eq (by simpa using heq))
  have hone : (1 : BitVec 256).toNat = 1 := rfl
  rw [h.nextId, BitVec.toNat_add]
  omega

end Mints

-- What a call that refreshes does.
structure Refreshes (s : State nft base) (voucher : HumanityVoucher) (s' : State nft base) :
    Prop where
  known : s.tokenOfNullifier voucher.nullifier ≠ 0
  holder : s.holder (s.tokenOfNullifier voucher.nullifier) = voucher.recipient
  later : (s.tokens (s.tokenOfNullifier voucher.nullifier)).epoch < voucher.epoch
  result : s' = { s with
    tokens := Function.update s.tokens (s.tokenOfNullifier voucher.nullifier)
      { s.tokens (s.tokenOfNullifier voucher.nullifier) with epoch := voucher.epoch } }

namespace Refreshes

theorem tokens_self (h : Refreshes s voucher s') :
    s'.tokens (s.tokenOfNullifier voucher.nullifier) =
      { s.tokens (s.tokenOfNullifier voucher.nullifier) with epoch := voucher.epoch } := by
  rw [h.result]
  exact Function.update_self ..

theorem tokens_of_ne (h : Refreshes s voucher s') {id : BitVec 256}
    (hid : id ≠ s.tokenOfNullifier voucher.nullifier) : s'.tokens id = s.tokens id := by
  rw [h.result]
  exact Function.update_of_ne hid ..

theorem nullifier (h : Refreshes s voucher s') (id : BitVec 256) :
    (s'.tokens id).nullifier = (s.tokens id).nullifier := by
  by_cases hid : id = s.tokenOfNullifier voucher.nullifier
  · rw [hid, h.tokens_self]
  · rw [h.tokens_of_ne hid]

end Refreshes

-- What the other calls leave alone.
structure Keeps (s s' : State nft base) : Prop where
  holder : s'.holder = s.holder
  nextId : s'.nextId = s.nextId
  tokenOfNullifier : s'.tokenOfNullifier = s.tokenOfNullifier
  tokens : s'.tokens = s.tokens

-- No transfer between accounts goes through, and none on a sender's behalf.
theorem update_ne_ok (hnft : nft.Lawful) {token : nft.State} {receiver auth : Address}
    {id : BitVec 256} {r : nft.State × Address} (hreceiver : receiver ≠ 0) (hauth : auth ≠ 0) :
    update nft token receiver id auth ≠ .ok r := by
  intro h
  simp only [update, bind_eq_ok, revertIf_eq_ok, exists_const] at h
  obtain ⟨hlocked, hbase⟩ := h
  exact hlocked ⟨hnft.authorized hbase hauth, hreceiver⟩

theorem ownerOf_eq_ok {id : BitVec 256} {owner : Address} :
    s.ownerOf id = .ok owner ↔ s.holder id = owner ∧ owner ≠ 0 := by
  simp only [State.ownerOf, bind_eq_ok, revertIf_eq_ok, exists_const, pure_eq_ok]
  constructor
  · rintro ⟨hne, rfl⟩
    exact ⟨rfl, hne⟩
  · rintro ⟨rfl, hne⟩
    exact ⟨hne, rfl⟩

theorem mint_spec (hnft : nft.Lawful) {id : BitVec 256} (h : s.mint voucher = .ok (s', id))
    (hrecipient : voucher.recipient ≠ 0)
    (hfirst : s.tokenOfNullifier voucher.nullifier = 0) : Mints s voucher s' := by
  simp only [State.mint, bind_eq_ok, revertIf_eq_ok, exists_const, pure_eq_ok,
    Prod.mk.injEq] at h
  obtain ⟨hbounded, token, hmint, rfl, -⟩ := h
  have htransfer := hnft.mints hmint
  simp only [update, bind_eq_ok, revertIf_eq_ok, exists_const] at htransfer
  obtain ⟨-, hmoves⟩ := htransfer
  exact ⟨hrecipient, hfirst, hbounded, (hnft.moves hmoves).2, rfl, rfl, rfl⟩

theorem refresh_spec {id : BitVec 256}
    (h : s.refresh voucher (s.tokenOfNullifier voucher.nullifier) = .ok (s', id))
    (hknown : s.tokenOfNullifier voucher.nullifier ≠ 0) : Refreshes s voucher s' := by
  simp only [State.refresh, bind_eq_ok, revertIf_eq_ok, exists_const, pure_eq_ok,
    Prod.mk.injEq, not_not, ownerOf_eq_ok] at h
  obtain ⟨owner, ⟨hholder, -⟩, rfl, hnotOlder, hnotSame, rfl, -⟩ := h
  have hlater : (s.tokens (s.tokenOfNullifier voucher.nullifier)).epoch < voucher.epoch := by
    rw [BitVec.lt_def] at hnotOlder ⊢
    have hne : voucher.epoch.toNat ≠
        (s.tokens (s.tokenOfNullifier voucher.nullifier)).epoch.toNat := by
      intro heq
      exact hnotSame (BitVec.eq_of_toNat_eq heq)
    omega
  exact ⟨hknown, hholder, hlater, rfl⟩

theorem mintWithVoucher_spec (hnft : nft.Lawful) {signature : List Byte} {id : BitVec 256}
    (h : s.mintWithVoucher x env voucher signature = .ok (s', id)) :
    Mints s voucher s' ∨ Refreshes s voucher s' := by
  simp only [State.mintWithVoucher, bind_eq_ok, revertIf_eq_ok, exists_const] at h
  obtain ⟨hrecipient, signer, -, -, h⟩ := h
  by_cases hfirst : s.tokenOfNullifier voucher.nullifier = 0
  · rw [if_pos hfirst] at h
    exact .inl (mint_spec hnft h hrecipient hfirst)
  · rw [if_neg hfirst] at h
    exact .inr (refresh_spec h hfirst)

-- The voucher that a call presents.
def Call.redeems : Call nft base → Option HumanityVoucher
  | .mintWithVoucher voucher _ => some voucher
  | _ => none

-- A call that goes through mints, refreshes, or leaves the tokens alone.
theorem execute_cases (hnft : nft.Lawful) (hsender : env.sender ≠ 0) {call : Call nft base}
    (h : s.execute x env call = .ok s') :
    (call.redeems = none ∧ Keeps s s') ∨
      ∃ voucher, call.redeems = some voucher ∧ (Mints s voucher s' ∨ Refreshes s voucher s') := by
  cases call with
  | ownership call =>
    simp only [State.execute, State.ownableCall] at h
    split at h
    · cases h
      exact .inl ⟨rfl, rfl, rfl, rfl, rfl⟩
    · cases h
  | erc721 call =>
    obtain ⟨token, htoken, rfl⟩ := map_eq_ok.mp h
    rcases hnft.calls htoken with rfl | ⟨receiver, id, r, hreceiver, htransfer⟩
    · exact .inl ⟨rfl, rfl, rfl, rfl, rfl⟩
    · exact absurd htransfer (update_ne_ok hnft hreceiver hsender)
  | approve spender tokenId => cases h
  | setApprovalForAll operator approved => cases h
  | setIssuer newIssuer =>
    simp only [State.execute, State.setIssuer, bind_eq_ok, pure_eq_ok] at h
    obtain ⟨-, -, -, -, rfl⟩ := h
    exact .inl ⟨rfl, rfl, rfl, rfl, rfl⟩
  | setCardRenderer newRenderer =>
    simp only [State.execute, State.setCardRenderer, bind_eq_ok, pure_eq_ok] at h
    obtain ⟨-, -, rfl⟩ := h
    exact .inl ⟨rfl, rfl, rfl, rfl, rfl⟩
  | mintWithVoucher voucher signature =>
    obtain ⟨⟨s₁, id⟩, hmint, rfl⟩ := map_eq_ok.mp h
    exact .inr ⟨voucher, rfl, mintWithVoucher_spec hnft hmint⟩

-- The contract with the vouchers that it has redeemed, in their order.
structure Registry (nft : Erc721 Error) (base : Ownable) where
  state : State nft base
  redeemed : List HumanityVoucher

namespace Registry

variable {r r' : Registry nft base}

def execute (x : Imports) (env : Env) (r : Registry nft base) (call : Call nft base) :
    Except Error (Registry nft base) := do
  let state ← r.state.execute x env call
  pure ⟨state, r.redeemed ++ call.redeems.toList⟩

-- A nullifier with a redeemed voucher has its own token, held by the recipient of every
-- such voucher and dated by the last, and the vouchers of a nullifier go up in time.
structure Sound (r : Registry nft base) : Prop where
  started : r.state.nextId ≠ 0
  numbered : ∀ id, r.state.holder id ≠ 0 ↔ id ≠ 0 ∧ id < r.state.nextId
  redeemed : ∀ n, r.state.tokenOfNullifier n ≠ 0 ↔ ∃ v ∈ r.redeemed, v.nullifier = n
  minted : ∀ n, r.state.tokenOfNullifier n ≠ 0 →
    r.state.holder (r.state.tokenOfNullifier n) ≠ 0 ∧
      (r.state.tokens (r.state.tokenOfNullifier n)).nullifier = n
  bound : ∀ id, r.state.holder id ≠ 0 →
    r.state.tokenOfNullifier (r.state.tokens id).nullifier = id
  holder : ∀ v ∈ r.redeemed,
    r.state.holder (r.state.tokenOfNullifier v.nullifier) = v.recipient
  increasing : r.redeemed.Pairwise fun v v' => v.nullifier = v'.nullifier → v.epoch < v'.epoch
  dated : ∀ n, r.state.tokenOfNullifier n ≠ 0 →
    IsGreatest {e | ∃ v ∈ r.redeemed, v.nullifier = n ∧ v.epoch = e}
      (r.state.tokens (r.state.tokenOfNullifier n)).epoch

-- A later state of the same contract: what is minted stays minted, to the same holder.
structure Extends (r r' : Registry nft base) : Prop where
  redeemed : r.redeemed <+: r'.redeemed
  tokenOfNullifier : ∀ n, r.state.tokenOfNullifier n ≠ 0 →
    r'.state.tokenOfNullifier n = r.state.tokenOfNullifier n
  holder : ∀ id, r.state.holder id ≠ 0 → r'.state.holder id = r.state.holder id
  nullifier : ∀ id, r.state.holder id ≠ 0 →
    (r'.state.tokens id).nullifier = (r.state.tokens id).nullifier

theorem Extends.refl (r : Registry nft base) : r.Extends r :=
  ⟨List.prefix_rfl, fun _ _ => rfl, fun _ _ => rfl, fun _ _ => rfl⟩

theorem Extends.trans {r₁ r₂ r₃ : Registry nft base} (h : r₁.Extends r₂) (h' : r₂.Extends r₃) :
    r₁.Extends r₃ where
  redeemed := h.redeemed.trans h'.redeemed
  tokenOfNullifier n hn := by
    have heq := h.tokenOfNullifier n hn
    rw [h'.tokenOfNullifier n (by rwa [heq]), heq]
  holder id hid := by
    have heq := h.holder id hid
    rw [h'.holder id (by rwa [heq]), heq]
  nullifier id hid := by
    have heq := h.holder id hid
    rw [h'.nullifier id (by rwa [heq]), h.nullifier id hid]

theorem sound_initial (hnft : nft.Lawful) (ownership : base.State) (issuer : Address) :
    (⟨initial nft ownership issuer, []⟩ : Registry nft base).Sound where
  started := by
    change (1#256 : BitVec 256) ≠ 0
    decide
  numbered id := by
    have hnone : (initial nft ownership issuer).holder id = 0 := hnft.empty id
    have hnext : (initial nft ownership issuer).nextId = 1 := rfl
    simp only [hnone, hnext, ne_eq, not_true, false_iff, BitVec.lt_def, not_and]
    intro hid hlt
    exact hid (BitVec.eq_of_toNat_eq (by simpa using hlt))
  redeemed n := by simp [initial]
  minted n hn := absurd rfl hn
  bound id hid := absurd (hnft.empty id) hid
  holder v hv := by cases hv
  increasing := List.Pairwise.nil
  dated n hn := absurd rfl hn

namespace Sound

theorem unheld (h : r.Sound) : r.state.holder r.state.nextId = 0 := by
  by_contra hne
  exact absurd ((h.numbered _).mp hne).2 (BitVec.lt_irrefl _)

theorem tokenOfNullifier_ne (h : r.Sound) {n : BitVec 256}
    (hn : r.state.tokenOfNullifier n ≠ 0) : r.state.tokenOfNullifier n ≠ r.state.nextId := by
  intro heq
  have hheld := (h.minted n hn).1
  rw [heq] at hheld
  exact hheld h.unheld

-- Two nullifiers have two tokens.
theorem tokenOfNullifier_inj (h : r.Sound) {n m : BitVec 256}
    (hn : r.state.tokenOfNullifier n ≠ 0)
    (heq : r.state.tokenOfNullifier n = r.state.tokenOfNullifier m) : n = m := by
  rw [← (h.minted n hn).2, heq, (h.minted m (heq ▸ hn)).2]

theorem extends_of_mints (h : r.Sound) (hmints : Mints r.state voucher s') :
    r.Extends ⟨s', r.redeemed ++ [voucher]⟩ where
  redeemed := List.prefix_append _ _
  tokenOfNullifier n hn := by
    have hne : n ≠ voucher.nullifier := by
      rintro rfl
      exact hn hmints.first
    exact hmints.tokenOfNullifier_of_ne hne
  holder id hid := by
    have hne : id ≠ r.state.nextId := by
      rintro rfl
      exact hid h.unheld
    exact hmints.holder_of_ne hne
  nullifier id hid := by
    have hne : id ≠ r.state.nextId := by
      rintro rfl
      exact hid h.unheld
    exact congrArg TokenData.nullifier (hmints.tokens_of_ne hne)

theorem mints (h : r.Sound) (hmints : Mints r.state voucher s') :
    Sound ⟨s', r.redeemed ++ [voucher]⟩ := by
  have hextends := h.extends_of_mints hmints
  -- No voucher of the list is for the new nullifier.
  have hunknown : ∀ v ∈ r.redeemed, v.nullifier ≠ voucher.nullifier := by
    intro v hv heq
    exact (h.redeemed voucher.nullifier).mpr ⟨v, hv, heq⟩ hmints.first
  constructor
  case started =>
    intro hzero
    change s'.nextId = 0 at hzero
    have hnext := hmints.toNat_nextId
    rw [hzero] at hnext
    cases hnext
  case numbered =>
    intro id
    change s'.holder id ≠ 0 ↔ id ≠ 0 ∧ id < s'.nextId
    rw [BitVec.lt_def, hmints.toNat_nextId]
    by_cases hid : id = r.state.nextId
    · subst hid
      rw [hmints.holder_self]
      exact iff_of_true hmints.recipient ⟨h.started, Nat.lt_succ_self _⟩
    · rw [hmints.holder_of_ne hid, h.numbered, BitVec.lt_def]
      have hne : id.toNat ≠ r.state.nextId.toNat := by
        intro heq
        exact hid (BitVec.eq_of_toNat_eq heq)
      exact and_congr_right' (by omega)
  case redeemed =>
    intro n
    change s'.tokenOfNullifier n ≠ 0 ↔ ∃ v ∈ r.redeemed ++ [voucher], v.nullifier = n
    by_cases hn : n = voucher.nullifier
    · subst hn
      rw [hmints.tokenOfNullifier_self]
      exact iff_of_true h.started ⟨voucher, by simp, rfl⟩
    · rw [hmints.tokenOfNullifier_of_ne hn, h.redeemed]
      simp [Ne.symm hn]
  case minted =>
    intro n hne
    change s'.tokenOfNullifier n ≠ 0 at hne
    change s'.holder (s'.tokenOfNullifier n) ≠ 0 ∧
      (s'.tokens (s'.tokenOfNullifier n)).nullifier = n
    by_cases hn : n = voucher.nullifier
    · subst hn
      rw [hmints.tokenOfNullifier_self, hmints.holder_self, hmints.tokens_self]
      exact ⟨hmints.recipient, rfl⟩
    · rw [hmints.tokenOfNullifier_of_ne hn] at hne ⊢
      obtain ⟨hheld, hnullifier⟩ := h.minted n hne
      exact ⟨(hextends.holder _ hheld).trans_ne hheld,
        (hextends.nullifier _ hheld).trans hnullifier⟩
  case bound =>
    intro id hheld
    change s'.holder id ≠ 0 at hheld
    change s'.tokenOfNullifier (s'.tokens id).nullifier = id
    by_cases hid : id = r.state.nextId
    · subst hid
      rw [hmints.tokens_self, hmints.tokenOfNullifier_self]
    · rw [hmints.holder_of_ne hid] at hheld
      have hbound := h.bound id hheld
      have hne : r.state.tokenOfNullifier (r.state.tokens id).nullifier ≠ 0 := by
        rw [hbound]
        exact ((h.numbered id).mp hheld).1
      have hnullifier : (s'.tokens id).nullifier = (r.state.tokens id).nullifier :=
        hextends.nullifier id hheld
      rw [hnullifier]
      exact (hextends.tokenOfNullifier _ hne).trans hbound
  case holder =>
    intro v hv
    change s'.holder (s'.tokenOfNullifier v.nullifier) = v.recipient
    rcases List.mem_append.mp hv with hv | hv
    · rw [hmints.tokenOfNullifier_of_ne (hunknown v hv), ← h.holder v hv]
      exact hextends.holder _ (h.minted _ ((h.redeemed _).mpr ⟨v, hv, rfl⟩)).1
    · obtain rfl := List.mem_singleton.mp hv
      rw [hmints.tokenOfNullifier_self, hmints.holder_self]
  case increasing =>
    refine List.pairwise_append.mpr ⟨h.increasing, List.pairwise_singleton _ _, ?_⟩
    intro v hv v' hv' heq
    obtain rfl := List.mem_singleton.mp hv'
    exact absurd heq (hunknown v hv)
  case dated =>
    intro n hne
    change s'.tokenOfNullifier n ≠ 0 at hne
    change IsGreatest {e | ∃ v ∈ r.redeemed ++ [voucher], v.nullifier = n ∧ v.epoch = e}
      (s'.tokens (s'.tokenOfNullifier n)).epoch
    by_cases hn : n = voucher.nullifier
    · subst hn
      rw [hmints.tokenOfNullifier_self, hmints.tokens_self]
      refine ⟨⟨voucher, by simp, rfl, rfl⟩, ?_⟩
      rintro e ⟨v, hv, heq, rfl⟩
      rcases List.mem_append.mp hv with hv | hv
      · exact absurd heq (hunknown v hv)
      · obtain rfl := List.mem_singleton.mp hv
        exact BitVec.le_refl _
    · rw [hmints.tokenOfNullifier_of_ne hn] at hne ⊢
      rw [hmints.tokens_of_ne (h.tokenOfNullifier_ne hne)]
      convert h.dated n hne using 1
      simp [Ne.symm hn]

theorem extends_of_refreshes (hrefreshes : Refreshes r.state voucher s') :
    r.Extends ⟨s', r.redeemed ++ [voucher]⟩ := by
  refine ⟨List.prefix_append _ _, ?_, ?_, fun id _ => hrefreshes.nullifier id⟩
  · intro n _
    rw [hrefreshes.result]
  · intro id _
    rw [hrefreshes.result]
    rfl

theorem refreshes (h : r.Sound) (hrefreshes : Refreshes r.state voucher s') :
    Sound ⟨s', r.redeemed ++ [voucher]⟩ := by
  have hknown := hrefreshes.known
  have hholder : s'.holder = r.state.holder := by
    rw [hrefreshes.result]
    rfl
  have htoken : s'.tokenOfNullifier = r.state.tokenOfNullifier := by
    rw [hrefreshes.result]
  have hnext : s'.nextId = r.state.nextId := by
    rw [hrefreshes.result]
  -- Every voucher that has been redeemed for the nullifier is older.
  have hearlier : ∀ v ∈ r.redeemed, v.nullifier = voucher.nullifier → v.epoch < voucher.epoch := by
    intro v hv heq
    exact lt_of_le_of_lt ((h.dated _ hknown).2 ⟨v, hv, heq, rfl⟩) hrefreshes.later
  constructor <;> simp only [hholder, htoken, hnext, hrefreshes.nullifier]
  case started => exact h.started
  case numbered => exact h.numbered
  case redeemed =>
    intro n
    refine (h.redeemed n).trans ?_
    simp only [List.mem_append, List.mem_singleton]
    constructor
    · rintro ⟨v, hv, heq⟩
      exact ⟨v, .inl hv, heq⟩
    · rintro ⟨v, hv | rfl, heq⟩
      · exact ⟨v, hv, heq⟩
      · rw [← heq]
        exact (h.redeemed _).mp hknown
  case minted => exact h.minted
  case bound => exact h.bound
  case holder =>
    intro v hv
    rcases List.mem_append.mp hv with hv | hv
    · exact h.holder v hv
    · obtain rfl := List.mem_singleton.mp hv
      exact hrefreshes.holder
  case increasing =>
    refine List.pairwise_append.mpr ⟨h.increasing, List.pairwise_singleton _ _, ?_⟩
    intro v hv v' hv'
    obtain rfl := List.mem_singleton.mp hv'
    exact hearlier v hv
  case dated =>
    intro n hne
    by_cases hn : n = voucher.nullifier
    · subst hn
      rw [hrefreshes.tokens_self]
      refine ⟨⟨voucher, by simp, rfl, rfl⟩, ?_⟩
      rintro e ⟨v, hv, heq, rfl⟩
      rcases List.mem_append.mp hv with hv | hv
      · exact BitVec.le_of_lt (hearlier v hv heq)
      · obtain rfl := List.mem_singleton.mp hv
        exact BitVec.le_refl _
    · have hother : r.state.tokenOfNullifier n ≠
          r.state.tokenOfNullifier voucher.nullifier := by
        intro heq
        exact hn (h.tokenOfNullifier_inj hne heq)
      rw [hrefreshes.tokens_of_ne hother]
      convert h.dated n hne using 1
      simp [Ne.symm hn]

end Sound

theorem Keeps.extends {l : List HumanityVoucher} (h : Keeps r.state s') (hl : l = r.redeemed) :
    r.Extends ⟨s', l⟩ where
  redeemed := by rw [hl]
  tokenOfNullifier n _ := by rw [h.tokenOfNullifier]
  holder id _ := by rw [h.holder]
  nullifier id _ := by rw [h.tokens]

theorem Keeps.sound {l : List HumanityVoucher} (hr : r.Sound) (h : Keeps r.state s')
    (hl : l = r.redeemed) : Sound ⟨s', l⟩ := by
  subst hl
  constructor <;> simp only [h.holder, h.nextId, h.tokenOfNullifier, h.tokens]
  · exact hr.started
  · exact hr.numbered
  · exact hr.redeemed
  · exact hr.minted
  · exact hr.bound
  · exact hr.holder
  · exact hr.increasing
  · exact hr.dated

theorem Sound.execute (hnft : nft.Lawful) (hsender : env.sender ≠ 0) (h : r.Sound)
    {call : Call nft base} (hexecute : r.execute x env call = .ok r') :
    r'.Sound ∧ r.Extends r' := by
  simp only [Registry.execute, bind_eq_ok, pure_eq_ok] at hexecute
  obtain ⟨s', hs', rfl⟩ := hexecute
  rcases execute_cases hnft hsender hs' with ⟨hnone, hkeeps⟩ | ⟨voucher, hvoucher, hmints | hrefreshes⟩
  · have hl : r.redeemed ++ call.redeems.toList = r.redeemed := by
      rw [hnone, Option.toList_none, List.append_nil]
    exact ⟨Keeps.sound h hkeeps hl, Keeps.extends hkeeps hl⟩
  · rw [hvoucher]
    exact ⟨h.mints hmints, h.extends_of_mints hmints⟩
  · rw [hvoucher]
    exact ⟨h.refreshes hrefreshes, Sound.extends_of_refreshes hrefreshes⟩

-- The nullifiers of the redeemed vouchers and the minted tokens correspond one to one,
-- and no voucher has been redeemed twice.
structure OneEach (r : Registry nft base) : Prop where
  bijective : Set.BijOn r.state.tokenOfNullifier {n | ∃ v ∈ r.redeemed, v.nullifier = n}
    {id | r.state.holder id ≠ 0}
  unused : ∀ n, (∀ v ∈ r.redeemed, v.nullifier ≠ n) → r.state.tokenOfNullifier n = 0
  bound : ∀ id, r.state.holder id ≠ 0 →
    r.state.tokenOfNullifier (r.state.tokens id).nullifier = id
  holder : ∀ v ∈ r.redeemed,
    r.state.holder (r.state.tokenOfNullifier v.nullifier) = v.recipient
  increasing : r.redeemed.Pairwise fun v v' => v.nullifier = v'.nullifier → v.epoch < v'.epoch
  dated : ∀ v ∈ r.redeemed,
    IsGreatest {e | ∃ v' ∈ r.redeemed, v'.nullifier = v.nullifier ∧ v'.epoch = e}
      (r.state.tokens (r.state.tokenOfNullifier v.nullifier)).epoch
  once : r.redeemed.Nodup

theorem Sound.bijOn (h : r.Sound) :
    Set.BijOn r.state.tokenOfNullifier {n | ∃ v ∈ r.redeemed, v.nullifier = n}
      {id | r.state.holder id ≠ 0} := by
  refine ⟨?_, ?_, ?_⟩
  · intro n hn
    exact (h.minted n ((h.redeemed n).mpr hn)).1
  · intro n hn m _ heq
    exact h.tokenOfNullifier_inj ((h.redeemed n).mpr hn) heq
  · intro id hheld
    have hbound := h.bound id hheld
    refine ⟨(r.state.tokens id).nullifier, (h.redeemed _).mp ?_, hbound⟩
    rw [hbound]
    exact ((h.numbered id).mp hheld).1

theorem Sound.oneEach (h : r.Sound) : r.OneEach where
  bijective := h.bijOn
  unused n hn := by
    by_contra hne
    obtain ⟨v, hv, heq⟩ := (h.redeemed n).mp hne
    exact hn v hv heq
  bound := h.bound
  holder := h.holder
  increasing := h.increasing
  dated v hv := h.dated _ ((h.redeemed _).mpr ⟨v, hv, rfl⟩)
  once := by
    refine h.increasing.imp ?_
    rintro v v' hlt rfl
    exact BitVec.lt_irrefl _ (hlt rfl)

end Registry

end Ubi2.Contracts.ProofOfHumanity
