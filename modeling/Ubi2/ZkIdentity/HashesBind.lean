import Ubi2.ZkIdentity.Binding

namespace Ubi2.ZkIdentity

open Ubi2.Runtime Ubi2.Lib Ubi2.Lib.Abi Ubi2.Lib.Encode Ubi2.Lib.Except Ubi2.StatusSnapshot
  Ubi2.StatusSnapshot.Sdk Contracts.ZkIdentityEncoding
open Contracts.PredicateVerifier (CollisionFree sampleImports)
open StatusOperator (plainViem checksums_plain)

theorem bytesToHex_ok_iff {x y : Hash} :
    (.ok (bytesToHex x) : Except String String) = .ok (bytesToHex y) ↔ x = y := by
  rw [Except.ok.injEq]
  exact (bytesToHex_injective (by decide)).eq_iff

-- What holds of equal or of twin values gives equality only where there are no twins.
theorem equal_iff_no_twins {equal twins : Prop} (hne : twins → ¬ equal) :
    (equal ∨ twins → equal) ↔ ¬ twins := by
  constructor
  · intro himp htwins
    exact hne htwins (himp (.inr htwins))
  · intro hno hor
    exact hor.resolve_right hno

-- Equal hashes are of equal policies, and of equal bindings, exactly where these are no twins.
-- What the contract hashes it hashes as the SDK does.
theorem hashes_bind_inputs_iff (viem : Viem) (hviem : Caseless viem) (keccak256 : Keccak256) :
    (∀ input policy, normalizeZkIdentityPolicy viem input = .ok policy →
      ∃ hash, zkIdentityPolicyHash viem keccak256 input = .ok hash) ∧
    (∀ p q policy policy', normalizeZkIdentityPolicy viem p = .ok policy →
      normalizeZkIdentityPolicy viem q = .ok policy' →
      CollisionFree keccak256 (hashed keccak256 policy ++ hashed keccak256 policy') →
      ((zkIdentityPolicyHash viem keccak256 p = zkIdentityPolicyHash viem keccak256 q →
        policy = policy') ↔ ¬ Twins policy policy')) ∧
    (∀ input binding, normalizeZkPresentationBinding viem input = .ok binding →
      ∃ hash, zkPresentationBindingHash viem keccak256 input = .ok hash) ∧
    (∀ b c binding binding', normalizeZkPresentationBinding viem b = .ok binding →
      normalizeZkPresentationBinding viem c = .ok binding' →
      CollisionFree keccak256 [binding.toSolidity.preimage keccak256,
        binding'.toSolidity.preimage keccak256] →
      ((zkPresentationBindingHash viem keccak256 b = zkPresentationBindingHash viem keccak256 c →
        binding = binding') ↔ ¬ BindingTwins binding binding')) ∧
    (∀ input status providerId listVersion statusRoot age hash,
      normalizeZkIdentityPolicy viem input =
        .ok (.dynamicStatus status providerId listVersion statusRoot age) →
      dynamicStatusPolicyHash keccak256
        (toDynamicStatusPolicy keccak256 providerId listVersion statusRoot age) = .ok hash →
      zkIdentityPolicyHash viem keccak256 input = .ok (bytesToHex hash)) ∧
    ∀ input binding hash, normalizeZkPresentationBinding viem input = .ok binding →
      presentationBindingHash keccak256 binding.toSolidity = .ok hash →
      zkPresentationBindingHash viem keccak256 input = .ok (bytesToHex hash) := by
  refine ⟨?_, ?_, ?_, ?_, ?_, ?_⟩
  · intro input policy h
    exact ⟨_, zkIdentityPolicyHash_eq_ok.mpr ⟨policy, h, rfl⟩⟩
  · intro p q policy policy' hp hq hfree
    have hwell := wellFormed_of_normalize hp
    have hwell' := wellFormed_of_normalize hq
    rw [zkIdentityPolicyHash_eq_ok.mpr ⟨policy, hp, rfl⟩,
      zkIdentityPolicyHash_eq_ok.mpr ⟨policy', hq, rfl⟩, bytesToHex_ok_iff,
      policyHash_eq_iff hwell hwell' hfree]
    exact equal_iff_no_twins Twins.ne
  · intro input binding h
    exact ⟨_, (zkPresentationBindingHash_eq_ok hviem.toChecksums).mpr ⟨binding, h, rfl⟩⟩
  · intro b c binding binding' hb hc hfree
    have hwell := wellFormed_of_normalizeBinding hb
    have hwell' := wellFormed_of_normalizeBinding hc
    rw [(zkPresentationBindingHash_eq_ok hviem.toChecksums).mpr ⟨binding, hb, rfl⟩,
      (zkPresentationBindingHash_eq_ok hviem.toChecksums).mpr ⟨binding', hc, rfl⟩, bytesToHex_ok_iff,
      bindingHash_eq_iff hviem hwell hwell' hfree]
    exact equal_iff_no_twins BindingTwins.ne
  · intro input status providerId listVersion statusRoot age hash h hsolidity
    rw [dynamicStatusPolicyHash_agrees (wellFormed_of_normalize h) hsolidity]
    exact zkIdentityPolicyHash_eq_ok.mpr ⟨_, h, rfl⟩
  · intro input binding hash h hsolidity
    simp only [presentationBindingHash, bind_eq_ok, pure_eq_ok] at hsolidity
    obtain ⟨_, -, rfl⟩ := hsolidity
    exact (zkPresentationBindingHash_eq_ok hviem.toChecksums).mpr ⟨binding, h, rfl⟩

theorem caseless_plain : Caseless plainViem :=
  ⟨checksums_plain, fun _ _ _ _ h => h⟩

-- Policies of every kind as they are given, each with what it is normalized to.
def samplePolicies : List (PolicyFields × ZkIdentityPolicy) :=
  [(.ageRange (.integer 18) (some (.integer 65)) "2026-01-31",
      .ageRange 18 (some 65) "2026-01-31"),
    (.ageRange (.integer 18) none "2026-01-31", .ageRange 18 none "2026-01-31"),
    (.countrySet "nationality" "in" " union-2026 " (bytesToHex 7#256),
      .countrySet .nationality .isIn "union-2026" (bytesToHex 7#256)),
    (.countrySet "nationality" "not-in" "union-2026" (bytesToHex 7#256),
      .countrySet .nationality .notIn "union-2026" (bytesToHex 7#256)),
    (.documentValidity "2026-01-31" (.integer 90), .documentValidity "2026-01-31" 90),
    (.documentAuthenticity "passive-auth", .documentAuthenticity .passiveAuth),
    (.documentAuthenticity "chip-auth", .documentAuthenticity .chipAuth),
    (.uniqueHuman "vote:1" "single-use", .uniqueHuman "vote:1" .singleUse),
    (.dynamicStatus "sanctions-clear" "lists" "v1" (bytesToHex 8#256) (.integer 86400),
      .dynamicStatus .sanctionsClear "lists" "v1" (bytesToHex 8#256) 86400),
    (.privateFieldMatch "name" (bytesToHex 9#256) true,
      .privateFieldMatch .name (bytesToHex 9#256) true)]

def policyInput (policy : PolicyFields) : ZkIdentityPolicyInput := ⟨none, none, policy⟩

def challengeInput (challenge : String) : ZkPresentationBindingInput where
  policyHash := bytesToHex 9#256
  chainId := .integer 1
  verifier := bytesToHex 1#160
  consumer := bytesToHex 2#160
  subject := bytesToHex 3#160
  context := bytesToHex 4#256
  challenge := challenge
  epoch := .integer 1

def challengeBinding (challenge : String) : ZkPresentationBinding where
  policyHash := bytesToHex 9#256
  chainId := 1
  verifier := bytesToHex 1#160
  consumer := bytesToHex 2#160
  subject := bytesToHex 3#160
  context := bytesToHex 4#256
  challenge := challenge
  epoch := 1

theorem normalize_challengeInput {s : String} (h : IsBytes32 s) :
    normalizeZkPresentationBinding plainViem (challengeInput s) = .ok (challengeBinding s) := by
  have haddress : ∀ x : Address, plainViem.isAddress (bytesToHex x) = true ∧
      plainViem.getAddress (bytesToHex x) = bytesToHex x := by
    intro x
    have hlower := (hexText_bytesToHex x).toLowerCase
    exact ⟨decide_eq_true ⟨isAddressText_bytesToHex x, .inl hlower⟩, hlower⟩
  simp only [normalizeZkPresentationBinding, challengeInput, bind_eq_ok, pure_eq_ok,
    revertIf_eq_ok, exists_const, haddress, assertInteger_eq_ok]
  exact ⟨1, rfl, by simp, 1, ⟨rfl, by decide, by decide⟩, _,
    bytes32_of_isBytes32 (isBytes32_bytesToHex _) _, _,
    bytes32_of_isBytes32 (isBytes32_bytesToHex _) _, s, bytes32_of_isBytes32 h _, rfl⟩

theorem hashes_bind_inputs_iff_assurance :
    (samplePolicies.Pairwise fun p q =>
      zkIdentityPolicyHash plainViem sampleImports.keccak256 (policyInput p.1) ≠
        zkIdentityPolicyHash plainViem sampleImports.keccak256 (policyInput q.1)) ∧
    zkPresentationBindingHash plainViem sampleImports.keccak256 (challengeInput (bytesToHex 5#256)) ≠
      zkPresentationBindingHash plainViem sampleImports.keccak256
        (challengeInput (bytesToHex 6#256)) ∧
    (∃ hash, dynamicStatusPolicyHash sampleImports.keccak256 (toDynamicStatusPolicy
        sampleImports.keccak256 "lists" "v1" (bytesToHex 8#256) 86400) = .ok hash ∧
      zkIdentityPolicyHash plainViem sampleImports.keccak256 (policyInput (.dynamicStatus
        "sanctions-clear" "lists" "v1" (bytesToHex 8#256) (.integer 86400))) =
          .ok (bytesToHex hash)) ∧
    ∃ hash, presentationBindingHash sampleImports.keccak256
        (challengeBinding (bytesToHex 5#256)).toSolidity = .ok hash ∧
      zkPresentationBindingHash plainViem sampleImports.keccak256
        (challengeInput (bytesToHex 5#256)) = .ok (bytesToHex hash) := by
  have hbind := hashes_bind_inputs_iff plainViem caseless_plain sampleImports.keccak256
  have hnormal : ∀ p ∈ samplePolicies,
      normalizeZkIdentityPolicy plainViem (policyInput p.1) = .ok p.2 := by
    decide +kernel
  have hbinding := fun x : Hash => normalize_challengeInput (isBytes32_bytesToHex x)
  have hdynamic : ∃ hash, dynamicStatusPolicyHash sampleImports.keccak256 (toDynamicStatusPolicy
      sampleImports.keccak256 "lists" "v1" (bytesToHex 8#256) 86400) = .ok hash := by
    simp only [dynamicStatusPolicyHash, bind_eq_ok, pure_eq_ok, revertIf_eq_ok]
    exact ⟨_, (), by decide +kernel, rfl⟩
  have hpresentation : ∃ hash, presentationBindingHash sampleImports.keccak256
      (challengeBinding (bytesToHex 5#256)).toSolidity = .ok hash := by
    simp only [presentationBindingHash, bind_eq_ok, pure_eq_ok, revertIf_eq_ok]
    exact ⟨_, (), by decide +kernel, rfl⟩
  obtain ⟨policyHash, hdynamic⟩ := hdynamic
  obtain ⟨bindingHash, hpresentation⟩ := hpresentation
  refine ⟨?_, ?_, ⟨policyHash, hdynamic, ?_⟩, bindingHash, hpresentation, ?_⟩
  · have hfree : CollisionFree sampleImports.keccak256
        (samplePolicies.flatMap fun p => hashed sampleImports.keccak256 p.2) := by
      unfold CollisionFree
      decide +kernel
    have hdistinct : samplePolicies.Pairwise fun p q => p.2 ≠ q.2 ∧
        policyPreimage sampleImports.keccak256 p.2 ≠
          policyPreimage sampleImports.keccak256 q.2 := by
      decide +kernel
    refine hdistinct.imp_of_mem fun {p q} hp hq hne heq => hne.1 ?_
    have hmem : ∀ y ∈ hashed sampleImports.keccak256 p.2 ++ hashed sampleImports.keccak256 q.2,
        y ∈ samplePolicies.flatMap fun p => hashed sampleImports.keccak256 p.2 := by
      intro y hy
      rcases List.mem_append.mp hy with hy | hy
      · exact List.mem_flatMap.mpr ⟨p, hp, hy⟩
      · exact List.mem_flatMap.mpr ⟨q, hq, hy⟩
    have hwell := fun {p} hp => wellFormed_of_normalize (hnormal p hp)
    exact (hbind.2.1 _ _ _ _ (hnormal p hp) (hnormal q hq)
      fun y hy z hz => hfree y (hmem y hy) z (hmem z hz)).mpr
      (fun htwins => hne.2 (policyPreimage_of_twins (hwell hp) (hwell hq) htwins)) heq
  · intro heq
    have hfree : CollisionFree sampleImports.keccak256
        [(challengeBinding (bytesToHex 5#256)).toSolidity.preimage sampleImports.keccak256,
          (challengeBinding (bytesToHex 6#256)).toSolidity.preimage sampleImports.keccak256] := by
      unfold CollisionFree
      decide +kernel
    have hsame := (hbind.2.2.2.1 _ _ _ _ (hbinding 5#256) (hbinding 6#256) hfree).mpr ?_ heq
    · exact absurd hsame (by decide +kernel)
    · intro htwins
      obtain ⟨field, hfield, hfolded⟩ := htwins.folded
      have hlength : (field (challengeBinding (bytesToHex 5#256))).length =
          (field (challengeBinding (bytesToHex 6#256))).length := by
        simp only [List.mem_cons, List.not_mem_nil, or_false] at hfield
        rcases hfield with rfl | rfl | rfl <;> decide +kernel
      exact length_ne_of_folded hfolded hlength
  · exact hbind.2.2.2.2.1 _ .sanctionsClear _ _ _ _ _ (by decide +kernel) hdynamic
  · exact hbind.2.2.2.2.2 _ _ _ (hbinding 5#256) hpresentation

-- The same number of digits less one.
def shortText : String := String.ofList ('0' :: 'x' :: Hex.fixed 63 1)

def commitmentInput (expectedCommitment : String) : ZkIdentityPolicyInput :=
  ⟨none, none, .privateFieldMatch "name" expectedCommitment true⟩

theorem folded_shortText : Folded shortText (shortText ++ "0") := .inl rfl

theorem isBytes32_shortText : IsBytes32 shortText ∧ IsBytes32 (shortText ++ "0") := by
  have hlower : ∀ c ∈ Hex.fixed 63 1, c ∈ Hex.lowerDigits := fun c hc => Hex.mem_fixed hc
  have htext : HexText shortText (Hex.fixed 63 1) := ⟨rfl, hlower⟩
  refine ⟨⟨_, htext, .inl (Hex.length_fixed _ _)⟩, Hex.fixed 63 1 ++ ['0'], ⟨?_, ?_⟩, .inr ?_⟩
  · rw [← String.toList_inj, String.toList_append, htext.toList, String.toList_ofList]
    rfl
  · intro c hc
    rcases List.mem_append.mp hc with hc | hc
    · exact hlower c hc
    · rw [List.mem_singleton.mp hc]
      decide
  · rw [List.length_append, Hex.length_fixed, List.length_singleton]

theorem normalize_commitmentInput {s : String} (h : IsBytes32 s) :
    normalizeZkIdentityPolicy plainViem (commitmentInput s) =
      .ok (.privateFieldMatch .name s true) := by
  simp only [normalizeZkIdentityPolicy, commitmentInput, normalizeFields, bind_eq_ok, pure_eq_ok]
  exact ⟨(), rfl, (), rfl, .name, rfl, s, bytes32_of_isBytes32 h _, rfl⟩

theorem hashes_bind_inputs_fails :
    (∃ policy policy',
      normalizeZkIdentityPolicy plainViem (commitmentInput shortText) = .ok policy ∧
      normalizeZkIdentityPolicy plainViem (commitmentInput (shortText ++ "0")) = .ok policy' ∧
      policy ≠ policy' ∧
      ∀ keccak256, zkIdentityPolicyHash plainViem keccak256 (commitmentInput shortText) =
        zkIdentityPolicyHash plainViem keccak256 (commitmentInput (shortText ++ "0"))) ∧
    ∃ binding binding',
      normalizeZkPresentationBinding plainViem (challengeInput shortText) = .ok binding ∧
      normalizeZkPresentationBinding plainViem (challengeInput (shortText ++ "0")) =
        .ok binding' ∧
      binding ≠ binding' ∧
      ∀ keccak256, zkPresentationBindingHash plainViem keccak256 (challengeInput shortText) =
        zkPresentationBindingHash plainViem keccak256 (challengeInput (shortText ++ "0")) := by
  obtain ⟨hshort, hlong⟩ := isBytes32_shortText
  have hpolicy := normalize_commitmentInput hshort
  have hpolicy' := normalize_commitmentInput hlong
  have hbinding := normalize_challengeInput hshort
  have hbinding' := normalize_challengeInput hlong
  have htwins : Twins (.privateFieldMatch .name shortText true)
      (.privateFieldMatch .name (shortText ++ "0") true) := .privateFieldMatch folded_shortText
  have hbindings :
      BindingTwins (challengeBinding shortText) (challengeBinding (shortText ++ "0")) :=
    ⟨rfl, rfl, rfl, rfl, rfl, by simp [challengeBinding, folded_shortText],
      ⟨ZkPresentationBinding.challenge, by simp, folded_shortText⟩⟩
  refine ⟨⟨_, _, hpolicy, hpolicy', htwins.ne, fun keccak256 => ?_⟩,
    ⟨_, _, hbinding, hbinding', hbindings.ne, fun keccak256 => ?_⟩⟩
  · rw [zkIdentityPolicyHash_eq_ok.mpr ⟨_, hpolicy, rfl⟩,
      zkIdentityPolicyHash_eq_ok.mpr ⟨_, hpolicy', rfl⟩,
      policyPreimage_of_twins (wellFormed_of_normalize hpolicy)
        (wellFormed_of_normalize hpolicy') htwins]
  · have hhash := fun {input} => @zkPresentationBindingHash_eq_ok plainViem keccak256
      checksums_plain input
    rw [hhash.mpr ⟨_, hbinding, rfl⟩, hhash.mpr ⟨_, hbinding', rfl⟩,
      (toSolidity_eq_iff caseless_plain (wellFormed_of_normalizeBinding hbinding)
        (wellFormed_of_normalizeBinding hbinding')).mpr (.inr hbindings)]

end Ubi2.ZkIdentity
