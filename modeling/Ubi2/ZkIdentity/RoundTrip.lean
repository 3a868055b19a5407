import Ubi2.StatusOperator.CatchUp
import Ubi2.ZkIdentity.Codecs

namespace Ubi2.ZkIdentity

open Ubi2.Runtime Ubi2.Lib Ubi2.Lib.Except Ubi2.StatusSnapshot Ubi2.StatusSnapshot.Sdk
  Contracts.ZkIdentityEncoding ZK_PUBLIC_SIGNAL_INDEX
open StatusOperator (Checksums isAddressText_of_isAddress plainViem checksums_plain)

-- The limbs of a text.
def limbsOf (s : String) : Int × Int :=
  ((bigIntOfHex s >>> 128 : Nat), (bigIntOfHex s &&& UINT128_MAX : Nat))

def IsIdentifier (s : String) : Prop := (isHexText s = true ∧ byteCount s = 32) ∧ bigIntOfHex s ≠ 0

-- A text is checked, and split into its limbs.
theorem split_nonZeroBytes32 {viem : Viem} {s label : String} {P : Int × Int → Prop} :
    (∃ t, nonZeroBytes32 viem s label = .ok t ∧
      ∃ limbs, splitBytes32 viem t = .ok limbs ∧ P limbs) ↔
        IsIdentifier s ∧ P (limbsOf s) := by
  simp only [nonZeroBytes32_eq_ok, splitBytes32_eq_ok]
  constructor
  · rintro ⟨_, ⟨hhex, hzero, rfl⟩, _, ⟨-, rfl⟩, hP⟩
    rw [bigIntOfHex_toLowerCase hhex.1] at hP
    exact ⟨⟨hhex, hzero⟩, hP⟩
  · rintro ⟨⟨hhex, hzero⟩, hP⟩
    have htext := hexText_toLowerCase hhex.1
    have hlength := length_of_bytes32 hhex.2
    have hsize : byteCount (toLowerCase s) = 32 := by
      rw [byteCount, htext.length, List.length_map]
      omega
    refine ⟨_, ⟨hhex, hzero, rfl⟩, _, ⟨⟨htext.isHexText, hsize⟩, rfl⟩, ?_⟩
    rwa [bigIntOfHex_toLowerCase hhex.1]

-- What the SDK encodes: the values it accepts and their signals.
structure Encodes (viem : Viem) (v : ZkIdentityPublicSignalValues) (credential status : Int)
    (signals : List Int) : Prop where
  identifiers : ∀ s ∈ [v.circuitId, v.issuerKeyId, v.activeRoot, v.policyHash,
    v.presentationBindingHash, v.nullifierScopeHash], IsIdentifier s
  subject : viem.isAddress v.subject = true ∧ bigIntOfHex (viem.getAddress v.subject) ≠ 0
  nullifier : (0 ≤ v.scopedNullifier ∧ v.scopedNullifier < Sdk.BN254_SCALAR_FIELD) ∧
    v.scopedNullifier ≠ 0
  credentialEpoch : v.credentialEpoch = .integer credential ∧
    0 ≤ credential ∧ credential ≤ 0xffffffff
  statusEpoch : v.statusEpoch = .integer status ∧ 0 ≤ status ∧ status ≤ 0xffffffff
  signals : signals =
    [ZK_PUBLIC_SIGNALS_VERSION, (limbsOf v.circuitId).1, (limbsOf v.circuitId).2,
      (limbsOf v.issuerKeyId).1, (limbsOf v.issuerKeyId).2, (limbsOf v.activeRoot).1,
      (limbsOf v.activeRoot).2, (limbsOf v.policyHash).1, (limbsOf v.policyHash).2,
      (limbsOf v.presentationBindingHash).1, (limbsOf v.presentationBindingHash).2,
      (limbsOf v.nullifierScopeHash).1, (limbsOf v.nullifierScopeHash).2, v.scopedNullifier,
      bigIntOfHex (viem.getAddress v.subject), if v.result then 1 else 0, credential, status]

section
variable {viem : Viem} {v : ZkIdentityPublicSignalValues} {signals : List Int}

theorem encodeZkIdentityPublicSignals_eq_ok :
    encodeZkIdentityPublicSignals viem v = .ok signals ↔
      ∃ credential status, Encodes viem v credential status signals := by
  simp only [encodeZkIdentityPublicSignals, bind_eq_ok, split_nonZeroBytes32,
    normalizeAddress_eq_ok, assertInteger_eq_ok, fieldElement_eq_ok, pure_eq_ok]
  constructor
  · rintro ⟨h₁, h₂, h₃, h₄, h₅, h₆, _, ⟨haddress, hzero, rfl⟩, credential,
      ⟨hcredential, -, hcredentialRange⟩, status, ⟨hstatus, -, hstatusRange⟩, _,
      ⟨hfield, hnullifier, rfl⟩, rfl⟩
    refine ⟨credential, status, ?_, ⟨haddress, hzero⟩, ⟨hfield, hnullifier trivial⟩,
      ⟨hcredential, hcredentialRange⟩, ⟨hstatus, hstatusRange⟩, rfl⟩
    simp only [List.forall_mem_cons]
    exact ⟨h₁, h₂, h₃, h₄, h₅, h₆, List.forall_mem_nil _⟩
  · rintro ⟨credential, status, h⟩
    have hidentifiers := h.identifiers
    simp only [List.forall_mem_cons] at hidentifiers
    obtain ⟨h₁, h₂, h₃, h₄, h₅, h₆, -⟩ := hidentifiers
    have hsafe : ∀ n : Int, 0 ≤ n ∧ n ≤ 0xffffffff →
        -MAX_SAFE_INTEGER ≤ n ∧ n ≤ MAX_SAFE_INTEGER := by
      intro n hn
      rw [MAX_SAFE_INTEGER]
      omega
    exact ⟨h₁, h₂, h₃, h₄, h₅, h₆, _, ⟨h.subject.1, h.subject.2, rfl⟩, credential,
      ⟨h.credentialEpoch.1, hsafe _ h.credentialEpoch.2, h.credentialEpoch.2⟩, status,
      ⟨h.statusEpoch.1, hsafe _ h.statusEpoch.2, h.statusEpoch.2⟩, _,
      ⟨h.nullifier.1, fun _ => h.nullifier.2, rfl⟩, h.signals.symm⟩

-- The pair of limbs of an identifier, as numbers.
theorem exists_limbs (h : Canonical signals) {i : Nat} (hi : i ∈ [1, 3, 5, 7, 9, 11]) :
    ∃ high low : Nat, signalAt signals i = high ∧ signalAt signals (i + 1) = low ∧
      high ≤ UINT128_MAX ∧ low ≤ UINT128_MAX ∧ ¬ (high = 0 ∧ low = 0) := by
  obtain ⟨hhigh, hlow, hzero⟩ := h.limbs i hi
  have hfirst := (signalAt_field h.field i).1
  have hsecond := (signalAt_field h.field (i + 1)).1
  exact ⟨(signalAt signals i).toNat, (signalAt signals (i + 1)).toNat, by omega, by omega,
    by omega, by omega, by omega⟩

theorem toNat_identifierAt {i high low : Nat} (hfirst : signalAt signals i = high)
    (hsecond : signalAt signals (i + 1) = low) (hhigh : high ≤ UINT128_MAX)
    (hlow : low ≤ UINT128_MAX) : (identifierAt signals i).toNat = high <<< 128 ||| low := by
  rw [identifierAt, hfirst, hsecond, Int.toNat_natCast, Int.toNat_natCast, BitVec.toNat_ofNat]
  exact Nat.mod_eq_of_lt (join_lt hhigh hlow)

-- The text of an identifier is accepted, and its limbs are the ones it was read from.
theorem isIdentifier_identifierAt (h : Canonical signals) {i : Nat}
    (hi : i ∈ [1, 3, 5, 7, 9, 11]) :
    IsIdentifier (bytesToHex (identifierAt signals i)) ∧
      limbsOf (bytesToHex (identifierAt signals i)) =
        (signalAt signals i, signalAt signals (i + 1)) := by
  obtain ⟨high, low, hfirst, hsecond, hhigh, hlow, hzero⟩ := exists_limbs h hi
  have htext := hexText_bytesToHex (identifierAt signals i)
  have hvalue := bigInt_bytesToHex (by decide) (identifierAt signals i)
  rw [toNat_identifierAt hfirst hsecond hhigh hlow] at hvalue
  refine ⟨⟨⟨htext.isHexText, ?_⟩, ?_⟩, ?_⟩
  · rw [byteCount, htext.length, Hex.length_fixed]
  · rw [hvalue, join_limbs hlow]
    omega
  · rw [limbsOf, hvalue, (split_join hlow).1, (split_join hlow).2, hfirst, hsecond]

-- Eighteen signals, place by place.
theorem signals_eq (h : signals.length = ZK_PUBLIC_SIGNAL_COUNT) :
    signals = (List.range 18).map (signalAt signals) := by
  refine List.ext_getElem ?_ fun i hi hi' => ?_
  · rw [List.length_map, List.length_range]
    exact h
  · rw [List.getElem_map, List.getElem_range, signalAt, List.getD_eq_getElem?_getD,
      List.getElem?_eq_getElem hi, Option.getD_some]

-- What is decoded is encoded to where it came from.
theorem encodes_valuesOf (hviem : Checksums viem) (h : Canonical signals) :
    Encodes viem (valuesOf viem signals) (signalAt signals credentialEpoch)
      (signalAt signals statusEpoch) signals := by
  have hfield := signalAt_field h.field
  have hidentifier := fun {i} hi => @isIdentifier_identifierAt signals h i hi
  have htext := isAddressText_bytesToHex (BitVec.ofNat 160 (signalAt signals subject).toNat)
  have hsubject : bigIntOfHex (viem.getAddress (valuesOf viem signals).subject) =
      signalAt signals subject := by
    have hle := h.subject.1
    have hnonneg := (hfield subject).1
    have hlt : (signalAt signals subject).toNat < 2 ^ 160 := by
      rw [UINT160_MAX] at hle
      omega
    rw [valuesOf, hviem.again _ htext, hviem.bigInt htext,
      bigInt_bytesToHex (by decide), BitVec.toNat_ofNat, Nat.mod_eq_of_lt hlt]
    omega
  have hresult : (if (valuesOf viem signals).result then 1 else 0) = signalAt signals result := by
    have hle := h.result
    have hnonneg := (hfield result).1
    simp only [valuesOf, decide_eq_true_eq]
    split <;> omega
  refine ⟨?_, ⟨hviem.isAddress htext, ?_⟩, ⟨hfield _, h.nullifier⟩,
    ⟨rfl, (hfield _).1, h.credentialEpoch⟩, ⟨rfl, (hfield _).1, h.statusEpoch⟩, ?_⟩
  · simp only [List.forall_mem_cons]
    exact ⟨(hidentifier (i := 1) (by simp)).1, (hidentifier (i := 3) (by simp)).1,
      (hidentifier (i := 5) (by simp)).1, (hidentifier (i := 7) (by simp)).1,
      (hidentifier (i := 9) (by simp)).1, (hidentifier (i := 11) (by simp)).1,
      List.forall_mem_nil _⟩
  · have hzero := h.subject.2
    omega
  · rw [hsubject, hresult]
    simp only [valuesOf, (hidentifier (i := 1) (by simp)).2, (hidentifier (i := 3) (by simp)).2,
      (hidentifier (i := 5) (by simp)).2, (hidentifier (i := 7) (by simp)).2,
      (hidentifier (i := 9) (by simp)).2, (hidentifier (i := 11) (by simp)).2, ← h.version]
    exact signals_eq h.length

end

-- Values are the same when their texts are of the same numbers and all else is equal.
structure SameValues (v w : ZkIdentityPublicSignalValues) : Prop where
  circuitId : bigIntOfHex v.circuitId = bigIntOfHex w.circuitId
  issuerKeyId : bigIntOfHex v.issuerKeyId = bigIntOfHex w.issuerKeyId
  activeRoot : bigIntOfHex v.activeRoot = bigIntOfHex w.activeRoot
  policyHash : bigIntOfHex v.policyHash = bigIntOfHex w.policyHash
  presentationBindingHash :
    bigIntOfHex v.presentationBindingHash = bigIntOfHex w.presentationBindingHash
  nullifierScopeHash : bigIntOfHex v.nullifierScopeHash = bigIntOfHex w.nullifierScopeHash
  scopedNullifier : v.scopedNullifier = w.scopedNullifier
  subject : bigIntOfHex v.subject = bigIntOfHex w.subject
  result : v.result = w.result
  credentialEpoch : v.credentialEpoch = w.credentialEpoch
  statusEpoch : v.statusEpoch = w.statusEpoch

section
variable {viem : Viem} {v : ZkIdentityPublicSignalValues} {signals : List Int}

theorem limbsOf_isIdentifier {s : String} (h : IsIdentifier s) :
    ∃ high low : Nat, limbsOf s = ((high : Int), (low : Int)) ∧ high ≤ UINT128_MAX ∧
      low ≤ UINT128_MAX ∧ ¬ (high = 0 ∧ low = 0) ∧ high <<< 128 ||| low = bigIntOfHex s := by
  have hlt := bigIntOfHex_lt h.1.1 h.1.2
  have hjoin := join_split (bigIntOfHex s)
  refine ⟨_, _, rfl, ?_, Nat.and_le_right, ?_, hjoin⟩
  · rw [shiftRight_128, UINT128_MAX]
    omega
  · rintro ⟨hhigh, hlow⟩
    rw [hhigh, hlow] at hjoin
    exact h.2 hjoin.symm

theorem limbsOf_field {s : String} (h : IsIdentifier s) :
    (0 ≤ (limbsOf s).1 ∧ (limbsOf s).1 < Sdk.BN254_SCALAR_FIELD) ∧
      0 ≤ (limbsOf s).2 ∧ (limbsOf s).2 < Sdk.BN254_SCALAR_FIELD := by
  obtain ⟨high, low, hlimbs, hhigh, hlow, -, -⟩ := limbsOf_isIdentifier h
  have hfield : UINT128_MAX < Sdk.BN254_SCALAR_FIELD := by decide
  rw [hlimbs]
  constructor
  · exact ⟨by omega, by omega⟩
  · exact ⟨by omega, by omega⟩

-- A text that is split is read as an identifier, and comes back as a text of its number.
theorem identifier_of_limbs {s : String} {i : Nat} (h : IsIdentifier s)
    (hfirst : signalAt signals i = (limbsOf s).1)
    (hsecond : signalAt signals (i + 1) = (limbsOf s).2) :
    (signalAt signals i ≤ UINT128_MAX ∧ signalAt signals (i + 1) ≤ UINT128_MAX ∧
      ¬ (signalAt signals i = 0 ∧ signalAt signals (i + 1) = 0)) ∧
      bigIntOfHex s = bigIntOfHex (bytesToHex (identifierAt signals i)) := by
  obtain ⟨high, low, hlimbs, hhigh, hlow, hzero, hjoin⟩ := limbsOf_isIdentifier h
  rw [hlimbs] at hfirst hsecond
  refine ⟨⟨by omega, by omega, by omega⟩, ?_⟩
  rw [bigInt_bytesToHex (by decide), toNat_identifierAt hfirst hsecond hhigh hlow, hjoin]

namespace Encodes

variable {credential status : Int}

theorem subject_lt (hviem : Checksums viem) (h : Encodes viem v credential status signals) :
    bigIntOfHex (viem.getAddress v.subject) = bigIntOfHex v.subject ∧
      bigIntOfHex v.subject < 2 ^ 160 := by
  have htext := isAddressText_of_isAddress h.subject.1
  exact ⟨hviem.bigInt htext, (toLowerCase_of_isAddressText htext).2⟩

theorem field (hviem : Checksums viem) (h : Encodes viem v credential status signals) :
    ∀ signal ∈ signals, 0 ≤ signal ∧ signal < Sdk.BN254_SCALAR_FIELD := by
  have hidentifier := fun s hs => limbsOf_field (h.identifiers s hs)
  simp only [List.forall_mem_cons] at hidentifier
  obtain ⟨hcircuit, hissuer, hroot, hpolicy, hbinding, hscope, -⟩ := hidentifier
  obtain ⟨heq, hlt⟩ := h.subject_lt hviem
  have hcredential := h.credentialEpoch.2
  have hstatus := h.statusEpoch.2
  have hfield : 2 ^ 160 < Sdk.BN254_SCALAR_FIELD := by decide
  have hone : 0 ≤ (if v.result then (1 : Int) else 0) ∧
      (if v.result then (1 : Int) else 0) < Sdk.BN254_SCALAR_FIELD := by
    split <;> omega
  rw [h.signals]
  simp only [List.forall_mem_cons]
  exact ⟨by decide, hcircuit.1, hcircuit.2, hissuer.1, hissuer.2, hroot.1, hroot.2, hpolicy.1,
    hpolicy.2, hbinding.1, hbinding.2, hscope.1, hscope.2, h.nullifier.1, by omega, hone,
    by omega, by omega, List.forall_mem_nil _⟩

-- The identifiers, where they are read.
theorem identifiersAt (h : Encodes viem v credential status signals) :
    List.Forall₂ (fun s i => IsIdentifier s ∧ signalAt signals i = (limbsOf s).1 ∧
        signalAt signals (i + 1) = (limbsOf s).2)
      [v.circuitId, v.issuerKeyId, v.activeRoot, v.policyHash, v.presentationBindingHash,
        v.nullifierScopeHash] [1, 3, 5, 7, 9, 11] := by
  have hidentifier := h.identifiers
  simp only [List.forall_mem_cons] at hidentifier
  obtain ⟨hcircuit, hissuer, hroot, hpolicy, hbinding, hscope, -⟩ := hidentifier
  rw [h.signals]
  exact .cons ⟨hcircuit, rfl, rfl⟩ <| .cons ⟨hissuer, rfl, rfl⟩ <| .cons ⟨hroot, rfl, rfl⟩ <|
    .cons ⟨hpolicy, rfl, rfl⟩ <| .cons ⟨hbinding, rfl, rfl⟩ <| .cons ⟨hscope, rfl, rfl⟩ .nil

theorem signalAt_eq (h : Encodes viem v credential status signals) :
    signalAt signals layoutVersion = ZK_PUBLIC_SIGNALS_VERSION ∧
      signalAt signals scopedNullifier = v.scopedNullifier ∧
      signalAt signals ZK_PUBLIC_SIGNAL_INDEX.subject =
        bigIntOfHex (viem.getAddress v.subject) ∧
      signalAt signals result = (if v.result then 1 else 0) ∧
      signalAt signals ZK_PUBLIC_SIGNAL_INDEX.credentialEpoch = credential ∧
      signalAt signals ZK_PUBLIC_SIGNAL_INDEX.statusEpoch = status := by
  rw [h.signals]
  exact ⟨rfl, rfl, rfl, rfl, rfl, rfl⟩

theorem canonical (hviem : Checksums viem) (h : Encodes viem v credential status signals) :
    Canonical signals := by
  obtain ⟨hversion, hnullifier, hsubject, hresult, hcredential, hstatus⟩ := h.signalAt_eq
  obtain ⟨heq, hlt⟩ := h.subject_lt hviem
  have hzero := h.subject.2
  refine ⟨by rw [h.signals]; rfl, h.field hviem, hversion, ?_, ?_, ⟨?_, ?_⟩, ?_, ?_, ?_⟩
  · intro i hi
    obtain ⟨s, -, hs, hfirst, hsecond⟩ := forall₂_right h.identifiersAt i hi
    exact (identifier_of_limbs hs hfirst hsecond).1
  · rw [hnullifier]
    exact h.nullifier.2
  · rw [hsubject, UINT160_MAX]
    omega
  · rw [hsubject]
    omega
  · rw [hresult]
    split <;> omega
  · rw [hcredential]
    exact h.credentialEpoch.2.2
  · rw [hstatus]
    exact h.statusEpoch.2.2

theorem sameValues (hviem : Checksums viem) (h : Encodes viem v credential status signals) :
    SameValues v (valuesOf viem signals) := by
  obtain ⟨-, hnullifier, hsubject, hresult, hcredential, hstatus⟩ := h.signalAt_eq
  obtain ⟨heq, hlt⟩ := h.subject_lt hviem
  have hidentifiers := h.identifiersAt.imp fun s i hs =>
    (identifier_of_limbs hs.1 hs.2.1 hs.2.2).2
  simp only [List.forall₂_cons] at hidentifiers
  obtain ⟨hcircuit, hissuer, hroot, hpolicy, hbinding, hscope, -⟩ := hidentifiers
  refine ⟨hcircuit, hissuer, hroot, hpolicy, hbinding, hscope, hnullifier.symm, ?_, ?_, ?_, ?_⟩
  · have htext := isAddressText_bytesToHex (BitVec.ofNat 160 (bigIntOfHex v.subject))
    simp only [valuesOf, hsubject, heq, Int.toNat_natCast]
    rw [hviem.bigInt htext, bigInt_bytesToHex (by decide), BitVec.toNat_ofNat,
      Nat.mod_eq_of_lt hlt]
  · simp only [valuesOf, hresult]
    cases v.result with
    | false => rfl
    | true => rfl
  · simp only [valuesOf, hcredential, h.credentialEpoch.1]
  · simp only [valuesOf, hstatus, h.statusEpoch.1]

end Encodes

end

theorem signalsOf_injective : Function.Injective signalsOf := by
  refine List.map_injective_iff.mpr fun a b h => ?_
  exact BitVec.eq_of_toNat_eq (Int.natCast_inj.mp h)

theorem public_signal_codecs_agree (viem : Viem) (hviem : Checksums viem) :
    (∀ words v, decodeZkIdentityPublicSignals viem (signalsOf words) = .ok v ↔
      ∃ p, decodePublicSignals words = .ok p ∧ v = ofSolidity viem p) ∧
    (∀ signals v, decodeZkIdentityPublicSignals viem signals = .ok v →
      (∃ words, signals = signalsOf words) ∧
        encodeZkIdentityPublicSignals viem v = .ok signals) ∧
    ∀ v signals, encodeZkIdentityPublicSignals viem v = .ok signals →
      ∃ w, decodeZkIdentityPublicSignals viem signals = .ok w ∧ SameValues v w := by
  refine ⟨?_, ?_, ?_⟩
  · intro words v
    rw [decode_iff_solidity]
    constructor
    · rintro ⟨words', p, hwords, hdecode, hv⟩
      rw [signalsOf_injective hwords]
      exact ⟨p, hdecode, hv⟩
    · rintro ⟨p, hdecode, hv⟩
      exact ⟨words, p, rfl, hdecode, hv⟩
  · intro signals v h
    obtain ⟨hcanonical, rfl⟩ := decodeZkIdentityPublicSignals_eq_ok.mp h
    exact ⟨exists_words hcanonical.field,
      encodeZkIdentityPublicSignals_eq_ok.mpr ⟨_, _, encodes_valuesOf hviem hcanonical⟩⟩
  · intro v signals h
    obtain ⟨credential, status, hencodes⟩ := encodeZkIdentityPublicSignals_eq_ok.mp h
    exact ⟨_, decodeZkIdentityPublicSignals_eq_ok.mpr ⟨hencodes.canonical hviem, rfl⟩,
      hencodes.sameValues hviem⟩

-- The subject's address has no letters, so that its checksum is the address.
def sampleWords : List (BitVec 256) :=
  [1, 0, 1, 0, 2, 0, 3, 0, 4, 0, 5, MAX_LIMB, MAX_LIMB, 7, 1, 1, 0xffffffff, 0]

theorem canonical_sampleWords : Canonical (signalsOf sampleWords) :=
  ⟨by decide, by decide, by decide, by decide, by decide, by decide, by decide, by decide,
    by decide⟩

theorem public_signal_codecs_agree_sample :
    ∃ p, decodePublicSignals sampleWords = .ok p ∧
      decodeZkIdentityPublicSignals plainViem (signalsOf sampleWords) =
        .ok (ofSolidity plainViem p) ∧
      encodeZkIdentityPublicSignals plainViem (ofSolidity plainViem p) =
        .ok (signalsOf sampleWords) := by
  have hagree := public_signal_codecs_agree plainViem checksums_plain
  have hdecode := (@decodeZkIdentityPublicSignals_eq_ok plainViem _ _).mpr
    ⟨canonical_sampleWords, rfl⟩
  obtain ⟨p, hsolidity, hvalues⟩ := (hagree.1 _ _).mp hdecode
  rw [hvalues] at hdecode
  exact ⟨p, hsolidity, hdecode, (hagree.2.1 _ _ hdecode).2⟩

end Ubi2.ZkIdentity
