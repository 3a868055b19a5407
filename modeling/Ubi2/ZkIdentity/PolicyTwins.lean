import Ubi2.Contracts.Presentation
import Ubi2.ZkIdentity.PolicyHash

namespace Ubi2.ZkIdentity

open Ubi2.Runtime Ubi2.Lib Ubi2.Lib.Abi Ubi2.Lib.Encode Ubi2.Lib.Except Ubi2.StatusSnapshot
  Ubi2.StatusSnapshot.Sdk Contracts.ZkIdentityEncoding
open Contracts.PredicateVerifier (CollisionFree)

section
variable {keccak256 : Keccak256}

-- Two policies that are told apart by the digits of their 32-byte text only.
inductive Twins : ZkIdentityPolicy → ZkIdentityPolicy → Prop
  | countrySet {attribute_ : CountryAttribute} {operator : CountryOperator} {setId s t : String} :
    Folded s t → Twins (.countrySet attribute_ operator setId s)
      (.countrySet attribute_ operator setId t)
  | dynamicStatus {status : DynamicStatus} {providerId listVersion s t : String} {age : Int} :
    Folded s t → Twins (.dynamicStatus status providerId listVersion s age)
      (.dynamicStatus status providerId listVersion t age)
  | privateFieldMatch {field : PrivateField} {s t : String} {consentRequired : Bool} :
    Folded s t → Twins (.privateFieldMatch field s consentRequired)
      (.privateFieldMatch field t consentRequired)

theorem kind_of_kindText {p q : ZkIdentityPolicy} (h : kindText p = kindText q) :
    p.kind = q.kind := by
  have hlist := congrArg String.toList h
  simp only [kindText, toString, String.toList_append, List.append_cancel_left_eq] at hlist
  exact String.toList_inj.mp hlist

-- A text that is hashed is told by its hash.
theorem keccakText_inj {hashes : List (List Byte)} (hfree : CollisionFree keccak256 hashes)
    {s t : String} (hs : stringToBytes s ∈ hashes) (ht : stringToBytes t ∈ hashes)
    (h : keccakText keccak256 s = keccakText keccak256 t) : s = t :=
  utf8_injective (hfree _ hs _ ht h)

theorem identifier_mem {p q : ZkIdentityPolicy} {text : String}
    (h : text ∈ identifierTexts p ∨ text ∈ identifierTexts q) :
    stringToBytes text ∈ hashed keccak256 p ++ hashed keccak256 q := by
  simp only [hashed, List.mem_append, List.mem_cons, List.mem_map]
  rcases h with h | h
  · exact .inl (.inl (.inr ⟨text, h, rfl⟩))
  · exact .inr (.inl (.inr ⟨text, h, rfl⟩))

-- The code of one of two members tells which.
theorem code_inj {p q : Prop} [Decidable p] [Decidable q]
    (h : (if p then (1 : BitVec 256) else 2) = if q then 1 else 2) : p ↔ q := by
  by_cases hp : p <;> by_cases hq : q <;> simp_all

theorem safe {n : Int} (h : 0 ≤ n ∧ n < 2 ^ 32) : 0 ≤ n ∧ n ≤ MAX_SAFE_INTEGER := by
  rw [MAX_SAFE_INTEGER]
  omega

theorem packedDate_inj {date date' : String} (h : IsDate date) (h' : IsDate date')
    (heq : BitVec.ofInt 256 (packedDate date) = BitVec.ofInt 256 (packedDate date')) :
    date = date' := by
  obtain ⟨hnonneg, hlt, hinj⟩ := packedDate_spec h
  obtain ⟨hnonneg', hlt', -⟩ := packedDate_spec h'
  exact hinj date' h' (ofInt_inj (safe (by omega)) (safe (by omega)) heq)

theorem parameterWords_inj {p q : ZkIdentityPolicy} (hp : p.WellFormed) (hq : q.WellFormed)
    (hkind : p.kind = q.kind)
    (hfree : CollisionFree keccak256 (hashed keccak256 p ++ hashed keccak256 q))
    (h : parameterWords keccak256 p = parameterWords keccak256 q) : p = q ∨ Twins p q := by
  have htext := fun {s t : String} hs ht => @keccakText_inj keccak256 _ hfree s t
    (identifier_mem hs) (identifier_mem ht)
  cases p with
  | ageRange minimum maximum date =>
    cases q with
    | ageRange minimum' maximum' date' =>
      obtain ⟨hminimum, hmaximum, hdate⟩ := hp
      obtain ⟨hminimum', hmaximum', hdate'⟩ := hq
      simp only [parameterWords, List.cons.injEq, and_true] at h
      obtain ⟨hmin, hmax, hflag, hpacked⟩ := h
      have hwords := ofInt_inj (safe (by omega)) (safe (by omega)) hmin
      have hdates := packedDate_inj hdate hdate' hpacked
      have hmaxima : maximum = maximum' := by
        cases maximum with
        | none =>
          cases maximum' with
          | none => rfl
          | some m' => simp at hflag
        | some m =>
          cases maximum' with
          | none => simp at hflag
          | some m' =>
            have hm := hmaximum m rfl
            have hm' := hmaximum' m' rfl
            exact congrArg some (ofInt_inj (safe (by omega)) (safe (by omega)) hmax)
      exact .inl (by rw [hwords, hmaxima, hdates])
    | _ => simp [ZkIdentityPolicy.kind] at hkind
  | countrySet attribute_ operator setId setRoot =>
    cases q with
    | countrySet attribute_' operator' setId' setRoot' =>
      simp only [parameterWords, List.cons.injEq, and_true] at h
      obtain ⟨hattribute, hoperator, hset, hroot⟩ := h
      have hattributes : attribute_ = attribute_' := by
        have hcode := code_inj hattribute
        cases attribute_ <;> cases attribute_' <;> simp_all
      have hoperators : operator = operator' := by
        have hcode := code_inj hoperator
        cases operator <;> cases operator' <;> simp_all
      have hsets := htext (.inl (by simp [identifierTexts])) (.inr (by simp [identifierTexts])) hset
      subst hattributes hoperators hsets
      rcases (padRight_eq_iff hp hq).mp hroot with rfl | hfolded
      · exact .inl rfl
      · exact .inr (.countrySet hfolded)
    | _ => simp [ZkIdentityPolicy.kind] at hkind
  | documentValidity date days =>
    cases q with
    | documentValidity date' days' =>
      obtain ⟨hdate, hdays⟩ := hp
      obtain ⟨hdate', hdays'⟩ := hq
      simp only [parameterWords, List.cons.injEq, and_true] at h
      rw [packedDate_inj hdate hdate' h.1, ofInt_inj (safe (by omega)) (safe (by omega)) h.2]
      exact .inl rfl
    | _ => simp [ZkIdentityPolicy.kind] at hkind
  | documentAuthenticity assurance =>
    cases q with
    | documentAuthenticity assurance' =>
      simp only [parameterWords, List.cons.injEq, and_true] at h
      have hcode := code_inj h
      left
      cases assurance <;> cases assurance' <;> simp_all
    | _ => simp [ZkIdentityPolicy.kind] at hkind
  | uniqueHuman scope mode =>
    cases q with
    | uniqueHuman scope' mode' =>
      simp only [parameterWords, List.cons.injEq, and_true] at h
      have hscopes :=
        htext (.inl (by simp [identifierTexts])) (.inr (by simp [identifierTexts])) h.1
      have hmodes : mode = mode' := by
        have hcode := code_inj h.2
        cases mode <;> cases mode' <;> simp_all
      exact .inl (by rw [hscopes, hmodes])
    | _ => simp [ZkIdentityPolicy.kind] at hkind
  | dynamicStatus status providerId listVersion statusRoot age =>
    cases q with
    | dynamicStatus status' providerId' listVersion' statusRoot' age' =>
      obtain ⟨hroot, hage⟩ := hp
      obtain ⟨hroot', hage'⟩ := hq
      simp only [parameterWords, List.cons.injEq, and_true] at h
      obtain ⟨-, hprovider, hlist, hroots, hages⟩ := h
      have hstatus : status = status' := by
        cases status
        cases status'
        rfl
      have hproviders :=
        htext (.inl (by simp [identifierTexts])) (.inr (by simp [identifierTexts])) hprovider
      have hlists :=
        htext (.inl (by simp [identifierTexts])) (.inr (by simp [identifierTexts])) hlist
      have hseconds := ofInt_inj (safe (by omega)) (safe (by omega)) hages
      subst hstatus hproviders hlists hseconds
      rcases (padRight_eq_iff hroot hroot').mp hroots with rfl | hfolded
      · exact .inl rfl
      · exact .inr (.dynamicStatus hfolded)
    | _ => simp [ZkIdentityPolicy.kind] at hkind
  | privateFieldMatch field commitment consent =>
    cases q with
    | privateFieldMatch field' commitment' consent' =>
      simp only [parameterWords, List.cons.injEq, and_true] at h
      obtain ⟨-, hcommitment, hconsent⟩ := h
      have hfield : field = field' := by
        cases field
        cases field'
        rfl
      have hconsents : consent = consent' := by
        cases consent <;> cases consent' <;> simp_all
      subst hfield hconsents
      rcases (padRight_eq_iff hp hq).mp hcommitment with rfl | hfolded
      · exact .inl rfl
      · exact .inr (.privateFieldMatch hfolded)
    | _ => simp [ZkIdentityPolicy.kind] at hkind

theorem length_ne_of_folded {s t : String} (h : Folded s t) : s.length ≠ t.length := by
  rcases h with rfl | rfl <;> simp

theorem folded_ne {s t : String} (h : Folded s t) : s ≠ t :=
  fun heq => length_ne_of_folded h (congrArg String.length heq)

theorem Twins.ne {p q : ZkIdentityPolicy} (h : Twins p q) : p ≠ q := by
  cases h with
  | countrySet hfolded =>
    intro heq
    cases heq
    exact folded_ne hfolded rfl
  | dynamicStatus hfolded =>
    intro heq
    cases heq
    exact folded_ne hfolded rfl
  | privateFieldMatch hfolded =>
    intro heq
    cases heq
    exact folded_ne hfolded rfl

theorem policyPreimage_of_twins {p q : ZkIdentityPolicy} (hp : p.WellFormed) (hq : q.WellFormed)
    (h : Twins p q) : policyPreimage keccak256 p = policyPreimage keccak256 q := by
  have hwords : parameterWords keccak256 p = parameterWords keccak256 q ∧
      kindText p = kindText q := by
    cases h with
    | countrySet hfolded =>
      rw [parameterWords, parameterWords, (padRight_eq_iff hp hq).mpr (.inr hfolded)]
      exact ⟨rfl, rfl⟩
    | dynamicStatus hfolded =>
      rw [parameterWords, parameterWords, (padRight_eq_iff hp.1 hq.1).mpr (.inr hfolded)]
      exact ⟨rfl, rfl⟩
    | privateFieldMatch hfolded =>
      rw [parameterWords, parameterWords, (padRight_eq_iff hp hq).mpr (.inr hfolded)]
      exact ⟨rfl, rfl⟩
  rw [policyPreimage, policyPreimage, hwords.1, hwords.2]

-- The hash is of one policy, but for the digits of its 32-byte text.
theorem policyHash_eq_iff {p q : ZkIdentityPolicy} (hp : p.WellFormed) (hq : q.WellFormed)
    (hfree : CollisionFree keccak256 (hashed keccak256 p ++ hashed keccak256 q)) :
    keccak256 (policyPreimage keccak256 p) = keccak256 (policyPreimage keccak256 q) ↔
      p = q ∨ Twins p q := by
  constructor
  · intro h
    have hpreimage : policyPreimage keccak256 p = policyPreimage keccak256 q :=
      hfree _ (by simp [hashed]) _ (by simp [hashed]) h
    have henvelope := encodeWords_injective hpreimage
    simp only [List.cons.injEq, and_true, true_and] at henvelope
    obtain ⟨hkind, hparameters⟩ := henvelope
    have hkinds := keccakText_inj hfree (by simp [hashed]) (by simp [hashed]) hkind
    have hwords := encodeWords_injective
      (hfree _ (by simp [hashed]) _ (by simp [hashed]) hparameters)
    exact parameterWords_inj hp hq (kind_of_kindText hkinds) hfree hwords
  · rintro (rfl | htwins)
    · rfl
    · rw [policyPreimage_of_twins hp hq htwins]

-- The policy as the contract takes it: the identifiers as hashes, the numbers and the root as
-- words.
def toDynamicStatusPolicy (keccak256 : Keccak256) (providerId listVersion statusRoot : String)
    (maximumAgeSeconds : Int) : DynamicStatusPolicy :=
  ⟨keccakText keccak256 providerId, keccakText keccak256 listVersion, padRight statusRoot,
    BitVec.ofInt 32 maximumAgeSeconds⟩

theorem setWidth_ofInt {w : Nat} {n : Int} (hw : w ≤ 256) (h : 0 ≤ n ∧ n < 2 ^ w) :
    (BitVec.ofInt w n).setWidth 256 = BitVec.ofInt 256 n := by
  apply BitVec.eq_of_toNat_eq
  have hpow : (2 : Int) ^ w ≤ 2 ^ 256 := pow_le_pow_right₀ (by decide) hw
  have hcast : ∀ v : Nat, ((2 ^ v : Nat) : Int) = 2 ^ v := fun v => by push_cast; rfl
  rw [toNat_widen hw, BitVec.toNat_ofInt, BitVec.toNat_ofInt, hcast, hcast,
    Int.emod_eq_of_lt h.1 h.2, Int.emod_eq_of_lt h.1 (h.2.trans_le hpow)]

-- The contract hashes what the SDK hashes.
theorem dynamicStatusPolicyHash_agrees {status : DynamicStatus}
    {providerId listVersion statusRoot : String} {age : Int} {hash : Hash}
    (hpolicy : (ZkIdentityPolicy.dynamicStatus status providerId listVersion statusRoot
      age).WellFormed)
    (h : dynamicStatusPolicyHash keccak256
      (toDynamicStatusPolicy keccak256 providerId listVersion statusRoot age) = .ok hash) :
    hash = keccak256 (policyPreimage keccak256
      (.dynamicStatus status providerId listVersion statusRoot age)) := by
  cases status
  obtain ⟨-, hlow, hhigh⟩ := hpolicy
  simp only [dynamicStatusPolicyHash, bind_eq_ok, pure_eq_ok, toDynamicStatusPolicy] at h
  obtain ⟨_, -, rfl⟩ := h
  rw [setWidth_ofInt (by decide) (by omega)]
  rfl

end

end Ubi2.ZkIdentity
