import Ubi2.ZkIdentity.PolicyTwins
import Ubi2.ZkIdentity.RoundTrip

namespace Ubi2.ZkIdentity

open Ubi2.Runtime Ubi2.Lib Ubi2.Lib.Abi Ubi2.Lib.Encode Ubi2.Lib.Except Ubi2.StatusSnapshot
  Ubi2.StatusSnapshot.Sdk Contracts.ZkIdentityEncoding
open Contracts.PredicateVerifier (CollisionFree)
open StatusOperator (Checksums isAddressText_of_isAddress isHex_of_isAddressText)

-- The case of the digits of an address is no part of its checksum.
structure Caseless (viem : Viem) : Prop extends Checksums viem where
  caseless : ∀ a b, isAddressText a = true → isAddressText b = true →
    toLowerCase a = toLowerCase b → viem.getAddress a = viem.getAddress b

def ZK_PRESENTATION_SCHEMA : String := "org.proofofhumanity.zk-presentation"
def ZK_PRESENTATION_VERSION : Int := 1

structure ZkPresentationBindingInput where
  policyHash : String
  chainId : JsNumber
  verifier : String
  consumer : String
  subject : String
  context : String
  challenge : String
  epoch : JsNumber

-- A normalized binding. The schema and the version are the same in all of them.
structure ZkPresentationBinding where
  policyHash : String
  chainId : Int
  verifier : String
  consumer : String
  subject : String
  context : String
  challenge : String
  epoch : Int
deriving DecidableEq, Repr

def positiveChainId (chainId : JsNumber) : Except String Int :=
  match chainId.safeInteger with
  | some n => if n ≤ 0 then .error "chain id must be a positive integer" else .ok n
  | none => .error "chain id must be a positive integer"

section
variable (viem : Viem) (keccak256 : Keccak256)

def normalizeZkPresentationBinding (input : ZkPresentationBindingInput) :
    Except String ZkPresentationBinding := do
  let chainId ← positiveChainId input.chainId
  revertIf (¬ viem.isAddress input.verifier ∨ ¬ viem.isAddress input.consumer ∨
    ¬ viem.isAddress input.subject) "verifier, consumer and subject must be EVM addresses"
  let epoch ← assertInteger input.epoch "presentation epoch" 0 0xffffffff
  let policyHash ← bytes32 viem input.policyHash "policy hash"
  let context ← bytes32 viem input.context "presentation context"
  let challenge ← bytes32 viem input.challenge "presentation challenge"
  pure
    { policyHash
      chainId
      verifier := viem.getAddress input.verifier
      consumer := viem.getAddress input.consumer
      subject := viem.getAddress input.subject
      context
      challenge
      epoch }

def presentationDomainHash : String := textHash keccak256 ZK_PRESENTATION_SCHEMA

def zkPresentationBindingHash (input : ZkPresentationBindingInput) : Except String String := do
  let binding ← normalizeZkPresentationBinding viem input
  let encoded ← viem.encodeAbiParameters
    [.bytes32 (presentationDomainHash keccak256), .uint 16 ZK_PRESENTATION_VERSION,
      .bytes32 binding.policyHash, .uint 256 binding.chainId, .address binding.verifier,
      .address binding.consumer, .address binding.subject, .bytes32 binding.context,
      .bytes32 binding.challenge, .uint 32 binding.epoch]
  pure (keccakHex keccak256 encoded)

end

namespace ZkPresentationBinding

-- What the checks leave of the fields.
structure WellFormed (viem : Viem) (binding : ZkPresentationBinding) : Prop where
  chainId : 0 < binding.chainId ∧ binding.chainId ≤ MAX_SAFE_INTEGER
  addresses : ∀ field ∈ [verifier, consumer, subject], ∃ address,
    isAddressText address = true ∧ field binding = viem.getAddress address
  texts : ∀ field ∈ [policyHash, context, challenge], IsBytes32 (field binding)
  epoch : 0 ≤ binding.epoch ∧ binding.epoch ≤ 0xffffffff

-- The binding as the contract takes it.
def toSolidity (binding : ZkPresentationBinding) : PresentationBinding where
  policyHash := padRight binding.policyHash
  chainId := BitVec.ofInt 256 binding.chainId
  verifier := BitVec.ofNat 160 (bigIntOfHex binding.verifier)
  consumer := BitVec.ofNat 160 (bigIntOfHex binding.consumer)
  subject := BitVec.ofNat 160 (bigIntOfHex binding.subject)
  context := padRight binding.context
  challenge := padRight binding.challenge
  epoch := BitVec.ofInt 32 binding.epoch

end ZkPresentationBinding

section
variable {viem : Viem} {keccak256 : Keccak256}

theorem wellFormed_of_normalizeBinding {input : ZkPresentationBindingInput}
    {binding : ZkPresentationBinding}
    (h : normalizeZkPresentationBinding viem input = .ok binding) : binding.WellFormed viem := by
  simp only [normalizeZkPresentationBinding, bind_eq_ok, revertIf_eq_ok, exists_const,
    assertInteger_eq_ok, pure_eq_ok, not_or, not_not] at h
  obtain ⟨chainId, hchain, ⟨hverifier, hconsumer, hsubject⟩, epoch, ⟨-, -, hepoch⟩, policyHash,
    hpolicy, context, hcontext, challenge, hchallenge, rfl⟩ := h
  refine ⟨?_, ?_, ?_, hepoch⟩
  · rw [positiveChainId] at hchain
    split at hchain
    · rename_i n hsafe
      rw [check_eq_ok, Except.ok.injEq] at hchain
      obtain ⟨hpos, rfl⟩ := hchain
      have hrange := (JsNumber.safeInteger_eq_some.mp hsafe).2
      exact ⟨not_le.mp hpos, hrange.2⟩
    · cases hchain
  · simp only [List.forall_mem_cons]
    exact ⟨⟨_, isAddressText_of_isAddress hverifier, rfl⟩,
      ⟨_, isAddressText_of_isAddress hconsumer, rfl⟩,
      ⟨_, isAddressText_of_isAddress hsubject, rfl⟩, List.forall_mem_nil _⟩
  · simp only [List.forall_mem_cons]
    exact ⟨isBytes32_of_bytes32 hpolicy, isBytes32_of_bytes32 hcontext,
      isBytes32_of_bytes32 hchallenge, List.forall_mem_nil _⟩

-- An address that was normalized is encoded as its number.
theorem word_address (hviem : Checksums viem) {a : String} (h : isAddressText a = true) :
    (AbiParameter.address (viem.getAddress a)).word viem.getAddress =
      some ((BitVec.ofNat 160 (bigIntOfHex (viem.getAddress a))).setWidth 256) := by
  have htext := hviem.text a h
  have hlt := (toLowerCase_of_isAddressText htext).2
  have hvalid := hviem.isAddress h
  rw [Viem.isAddress, decide_eq_true_iff] at hvalid
  rw [AbiParameter.word, if_pos hvalid,
    bigIntOfHex_toLowerCase (isHex_of_isAddressText htext)]
  congr 1
  apply BitVec.eq_of_toNat_eq
  rw [toNat_widen (by decide), BitVec.toNat_ofNat, BitVec.toNat_ofNat, Nat.mod_eq_of_lt hlt,
    Nat.mod_eq_of_lt (by omega)]

-- The SDK hashes what the contract hashes.
theorem zkPresentationBindingHash_eq_ok (hviem : Checksums viem)
    {input : ZkPresentationBindingInput} {hash : String} :
    zkPresentationBindingHash viem keccak256 input = .ok hash ↔
      ∃ binding, normalizeZkPresentationBinding viem input = .ok binding ∧
        hash = bytesToHex (keccak256 (binding.toSolidity.preimage keccak256)) := by
  rw [zkPresentationBindingHash, bind_eq_ok]
  refine exists_congr fun binding => and_congr_right fun hbinding => ?_
  obtain ⟨hchain, haddresses, htexts, hepoch⟩ := wellFormed_of_normalizeBinding hbinding
  simp only [List.forall_mem_cons] at haddresses htexts
  obtain ⟨⟨verifier, hverifier, heqv⟩, ⟨consumer, hconsumer, heqc⟩,
    ⟨subject, hsubject, heqs⟩, -⟩ := haddresses
  obtain ⟨hpolicy, hcontext, hchallenge, -⟩ := htexts
  have hnumber : 0 ≤ binding.chainId ∧ binding.chainId < 2 ^ 256 := by
    rw [MAX_SAFE_INTEGER] at hchain
    omega
  have hencode : viem.encodeAbiParameters
      [.bytes32 (presentationDomainHash keccak256), .uint 16 ZK_PRESENTATION_VERSION,
        .bytes32 binding.policyHash, .uint 256 binding.chainId, .address binding.verifier,
        .address binding.consumer, .address binding.subject, .bytes32 binding.context,
        .bytes32 binding.challenge, .uint 32 binding.epoch] =
      .ok (binding.toSolidity.preimage keccak256) := by
    apply viem.words
    refine .cons (word_text _) <| .cons rfl <| .cons (word_bytes32 hpolicy) <|
      .cons (word_uint hnumber) <| .cons ?_ <| .cons ?_ <| .cons ?_ <|
      .cons (word_bytes32 hcontext) <| .cons (word_bytes32 hchallenge) <|
      .cons ?_ .nil
    · rw [ZkPresentationBinding.toSolidity, heqv, word_address hviem hverifier]
    · rw [ZkPresentationBinding.toSolidity, heqc, word_address hviem hconsumer]
    · rw [ZkPresentationBinding.toSolidity, heqs, word_address hviem hsubject]
    · rw [word_uint (by omega), ZkPresentationBinding.toSolidity,
        setWidth_ofInt (by decide) (by omega)]
  simp only [bind_eq_ok, pure_eq_ok, hencode, Except.ok.injEq, exists_eq_left', keccakHex]
  exact eq_comm

-- Two bindings that are told apart by the digits of their 32-byte texts only.
structure BindingTwins (b c : ZkPresentationBinding) : Prop where
  chainId : b.chainId = c.chainId
  verifier : b.verifier = c.verifier
  consumer : b.consumer = c.consumer
  subject : b.subject = c.subject
  epoch : b.epoch = c.epoch
  texts : ∀ field ∈ [ZkPresentationBinding.policyHash, ZkPresentationBinding.context,
    ZkPresentationBinding.challenge], field b = field c ∨ Folded (field b) (field c)
  folded : ∃ field ∈ [ZkPresentationBinding.policyHash, ZkPresentationBinding.context,
    ZkPresentationBinding.challenge], Folded (field b) (field c)

theorem BindingTwins.ne {b c : ZkPresentationBinding} (h : BindingTwins b c) : b ≠ c := by
  rintro rfl
  obtain ⟨field, -, hfolded⟩ := h.folded
  exact folded_ne hfolded rfl

-- A normalized address is told by its number.
theorem getAddress_inj (hviem : Caseless viem) {a b : String} (ha : isAddressText a = true)
    (hb : isAddressText b = true)
    (h : BitVec.ofNat 160 (bigIntOfHex (viem.getAddress a)) =
      BitVec.ofNat 160 (bigIntOfHex (viem.getAddress b))) :
    viem.getAddress a = viem.getAddress b := by
  rw [hviem.bigInt ha, hviem.bigInt hb] at h
  refine hviem.caseless a b ha hb ?_
  rw [(toLowerCase_of_isAddressText ha).1, (toLowerCase_of_isAddressText hb).1, h]

-- The contract takes two bindings for one where they are one, but for the digits of their texts.
theorem toSolidity_eq_iff (hviem : Caseless viem) {b c : ZkPresentationBinding}
    (hb : b.WellFormed viem) (hc : c.WellFormed viem) :
    b.toSolidity = c.toSolidity ↔ b = c ∨ BindingTwins b c := by
  have htext := fun {field} hfield =>
    padRight_eq_iff (hb.texts field hfield) (hc.texts field hfield)
  simp only [ZkPresentationBinding.toSolidity, PresentationBinding.mk.injEq]
  constructor
  · rintro ⟨hpolicy, hchain, hverifier, hconsumer, hsubject, hcontext, hchallenge, hepoch⟩
    have haddress : ∀ field ∈ [ZkPresentationBinding.verifier, ZkPresentationBinding.consumer,
        ZkPresentationBinding.subject], BitVec.ofNat 160 (bigIntOfHex (field b)) =
          BitVec.ofNat 160 (bigIntOfHex (field c)) → field b = field c := by
      intro field hfield heq
      obtain ⟨x, hx, hxb⟩ := hb.addresses field hfield
      obtain ⟨y, hy, hyc⟩ := hc.addresses field hfield
      rw [hxb, hyc] at heq ⊢
      exact getAddress_inj hviem hx hy heq
    have hchains := ofInt_inj ⟨hb.chainId.1.le, hb.chainId.2⟩ ⟨hc.chainId.1.le, hc.chainId.2⟩ hchain
    have hverifiers := haddress _ (by simp) hverifier
    have hconsumers := haddress _ (by simp) hconsumer
    have hsubjects := haddress _ (by simp) hsubject
    have hb32 : 0 ≤ b.epoch ∧ b.epoch < 2 ^ 32 := by
      have := hb.epoch
      omega
    have hc32 : 0 ≤ c.epoch ∧ c.epoch < 2 ^ 32 := by
      have := hc.epoch
      omega
    have hwords := congrArg (BitVec.setWidth 256) hepoch
    rw [setWidth_ofInt (by decide) hb32, setWidth_ofInt (by decide) hc32] at hwords
    have hepochs := ofInt_inj (safe hb32) (safe hc32) hwords
    have htexts : ∀ field ∈ [ZkPresentationBinding.policyHash, ZkPresentationBinding.context,
        ZkPresentationBinding.challenge], field b = field c ∨ Folded (field b) (field c) := by
      simp only [List.forall_mem_cons]
      exact ⟨(htext (by simp)).mp hpolicy, (htext (by simp)).mp hcontext,
        (htext (by simp)).mp hchallenge, List.forall_mem_nil _⟩
    by_cases hfolded : ∃ field ∈ [ZkPresentationBinding.policyHash, ZkPresentationBinding.context,
        ZkPresentationBinding.challenge], Folded (field b) (field c)
    · exact .inr ⟨hchains, hverifiers, hconsumers, hsubjects, hepochs, htexts, hfolded⟩
    · left
      have hequal := fun field hfield =>
        (htexts field hfield).resolve_right fun h => hfolded ⟨field, hfield, h⟩
      simp only [List.forall_mem_cons] at hequal
      obtain ⟨hpolicies, hcontexts, hchallenges, -⟩ := hequal
      cases b
      cases c
      simp only [ZkPresentationBinding.mk.injEq]
      exact ⟨hpolicies, hchains, hverifiers, hconsumers, hsubjects, hcontexts, hchallenges,
        hepochs⟩
  · rintro (rfl | htwins)
    · exact ⟨rfl, rfl, rfl, rfl, rfl, rfl, rfl, rfl⟩
    · rw [htwins.chainId, htwins.verifier, htwins.consumer, htwins.subject, htwins.epoch]
      exact ⟨(htext (by simp)).mpr (htwins.texts _ (by simp)), rfl, rfl, rfl, rfl,
        (htext (by simp)).mpr (htwins.texts _ (by simp)),
        (htext (by simp)).mpr (htwins.texts _ (by simp)), rfl⟩

theorem bindingHash_eq_iff (hviem : Caseless viem) {b c : ZkPresentationBinding}
    (hb : b.WellFormed viem) (hc : c.WellFormed viem)
    (hfree : CollisionFree keccak256
      [b.toSolidity.preimage keccak256, c.toSolidity.preimage keccak256]) :
    keccak256 (b.toSolidity.preimage keccak256) = keccak256 (c.toSolidity.preimage keccak256) ↔
      b = c ∨ BindingTwins b c := by
  rw [← toSolidity_eq_iff hviem hb hc]
  constructor
  · intro h
    exact PresentationBinding.preimage_injective _ (hfree _ (by simp) _ (by simp) h)
  · intro h
    rw [h]

end

end Ubi2.ZkIdentity
