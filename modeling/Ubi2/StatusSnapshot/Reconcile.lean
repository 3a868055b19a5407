import Ubi2.StatusSnapshot.Attestation

namespace Ubi2.StatusSnapshot.Sdk

open Ubi2.Runtime Ubi2.Lib Ubi2.Lib.Except

def canonicalSignerAddress (viem : Viem) (value label : String) : Except String String :=
  if ¬viem.isAddress value ∨ bigIntOfHex value = 0 then
    .error (label ++ " must be a non-zero EVM address")
  else getAddress viem value

structure ReconciledZkIdentityPackedStatusSnapshot where
  snapshot : SnapshotWire
  snapshotHash : String
  signers : List String
deriving DecidableEq, Repr

structure ZkIdentityStatusSnapshotPublication where
  issuerKeyId : String
  expectedNextStatusId : Nat
  root : String
deriving DecidableEq, Repr

-- One more attestation, behind the first one that was accepted and the signers so far.
def reconcileAttestation (viem : Viem) (eip : Eip712) (expected : List String)
    (state : Option AttestationWire × List String) (untrusted : JsValue) :
    Except String (Option AttestationWire × List String) := do
  let (accepted, signers) := state
  let attestation ← parseZkIdentityPackedStatusAttestation viem eip untrusted
  revertIf (accepted.any fun first => attestation.snapshotHash ≠ first.snapshotHash)
    "packed-status reconcilers reported split snapshot content"
  let recovered ← recoverZkIdentityPackedStatusAttestationSigner viem eip attestation.document
  let signer ← canonicalSignerAddress viem recovered "packed-status recovered reconciler"
  revertIf (signer ∉ expected) "packed-status attestation signer is not an expected reconciler"
  revertIf (signer ∈ signers) "packed-status reconciliation contains a duplicate signer"
  .ok (some (accepted.getD attestation), signers ++ [signer])

-- A threshold of configured signers that have signed one snapshot, each once.
def reconcileZkIdentityPackedStatusSnapshots (viem : Viem) (eip : Eip712)
    (attestations : List JsValue) (expectedReconcilers : List String) (threshold : Nat) :
    Except String ReconciledZkIdentityPackedStatusSnapshot := do
  let expected ← expectedReconcilers.mapM fun address =>
    canonicalSignerAddress viem address "packed-status expected reconciler"
  revertIf (¬expected.Nodup) "packed-status expected reconcilers must be distinct"
  revertIf (threshold > MAX_SAFE_INTEGER ∨ threshold < 2 ∨ threshold > expected.length)
    "packed-status reconciliation threshold requires at least two configured keys"
  revertIf (attestations.length < threshold)
    "packed-status reconciliation does not meet its signature threshold"
  let (accepted, signers) ← attestations.foldlM (reconcileAttestation viem eip expected) (none, [])
  match accepted with
  | some first =>
    if signers.length < threshold then
      .error "packed-status reconciliation does not meet its signature threshold"
    else .ok ⟨first.snapshot, first.snapshotHash, signers.mergeSort fun a b => decide (a ≤ b)⟩
  | none => .error "packed-status reconciliation does not meet its signature threshold"

def nonZeroBytes32 (viem : Viem) (value label : String) : Except String String :=
  if ¬viem.isHex value ∨ viem.size value ≠ 32 then .error (label ++ " must be bytes32")
  else if bigIntOfHex (toLowerCase value) = 0 then .error (label ++ " must not be zero")
  else .ok (toLowerCase value)

def normalizeZkIdentityStatusSnapshotPublication (viem : Viem)
    (input : ZkIdentityStatusSnapshotPublication) :
    Except String ZkIdentityStatusSnapshotPublication := do
  let issuerKeyId ← nonZeroBytes32 viem input.issuerKeyId "issuer key id"
  let root ← nonZeroBytes32 viem input.root "packed status root"
  revertIf (bigIntOfHex root ≥ BN254_SCALAR_FIELD)
    "packed status root must be a canonical BN254 field element"
  revertIf (input.expectedNextStatusId < 2 ∨
      input.expectedNextStatusId > ZK_IDENTITY_MAX_NEXT_STATUS_ID)
    "expected next status id must identify at least one allocated uint32 slot"
  .ok ⟨issuerKeyId, input.expectedNextStatusId, root⟩

def reconciledZkIdentityStatusPublication (viem : Viem)
    (reconciled : ReconciledZkIdentityPackedStatusSnapshot) :
    Except String ZkIdentityStatusSnapshotPublication :=
  normalizeZkIdentityStatusSnapshotPublication viem
    ⟨reconciled.snapshot.issuerKeyId, reconciled.snapshot.nextStatusId, reconciled.snapshot.root⟩

end Ubi2.StatusSnapshot.Sdk

namespace Ubi2.StatusSnapshot

open Ubi2.Runtime Ubi2.Lib Ubi2.Lib.Except Sdk

variable {viem : Viem} {eip : Eip712}

-- A signer attests what it signed, under its address.
def Attests (viem : Viem) (eip : Eip712) (signer : String) (attestation : AttestationWire) : Prop :=
  ∃ recovered,
    recoverZkIdentityPackedStatusAttestationSigner viem eip attestation.document = .ok recovered ∧
      getAddress viem recovered = .ok signer

theorem canonicalSignerAddress_ok {value label address : String}
    (h : canonicalSignerAddress viem value label = .ok address) :
    getAddress viem value = .ok address := by
  rw [canonicalSignerAddress, check_eq_ok] at h
  exact h.2

section

variable {expected : List String}

-- What the attestations come to that were taken so far.
structure Reconciling (viem : Viem) (eip : Eip712) (expected : List String)
    (taken : List AttestationWire) (state : Option AttestationWire × List String) : Prop where
  first : state.1 = taken.head?
  agree : ∀ w ∈ taken, ∀ w' ∈ taken, w.snapshotHash = w'.snapshotHash
  signed : List.Forall₂ (Attests viem eip) state.2 taken
  distinct : state.2.Nodup
  configured : ∀ signer ∈ state.2, signer ∈ expected

theorem Reconciling.step {taken : List AttestationWire} {w : AttestationWire}
    {state state' : Option AttestationWire × List String} (hw : AttestationAccepted eip w)
    (h : Reconciling viem eip expected taken state)
    (hstep : reconcileAttestation viem eip expected state w.document = .ok state') :
    Reconciling viem eip expected (taken ++ [w]) state' := by
  obtain ⟨accepted, signers⟩ := state
  have hfirst := h.first
  have hsigned := h.signed
  have hdistinct := h.distinct
  have hconfigured := h.configured
  simp only [reconcileAttestation, bind_eq_ok, revertIf_eq_ok] at hstep
  obtain ⟨w', hparse, -, hsplit, recovered, hrecovered, signer, hsigner, -, hin, -, hnew, hstate⟩ :=
    hstep
  rw [parseAttestation_document hw, Except.ok.injEq] at hparse
  subst hparse
  rw [Except.ok.injEq] at hstate
  subst hstate
  have hattests : Attests viem eip signer w := ⟨recovered, hrecovered, canonicalSignerAddress_ok hsigner⟩
  have hsame : ∀ other ∈ taken, other.snapshotHash = w.snapshotHash := by
    intro other hother
    cases taken with
    | nil => cases hother
    | cons head rest =>
      have hhead : accepted = some head := hfirst
      have hhash : w.snapshotHash = head.snapshotHash := by
        rw [hhead] at hsplit
        simpa using hsplit
      rw [hhash]
      exact h.agree other hother head List.mem_cons_self
  refine ⟨?_, ?_, ?_, ?_, ?_⟩
  · have hhead : accepted = taken.head? := hfirst
    rw [hhead]
    cases taken <;> rfl
  · intro x hx y hy
    have heach : ∀ z ∈ taken ++ [w], z.snapshotHash = w.snapshotHash := by
      intro z hz
      rcases List.mem_append.mp hz with hz | hz
      · exact hsame z hz
      · rw [List.mem_singleton.mp hz]
    rw [heach x hx, heach y hy]
  · exact List.rel_append hsigned (.cons hattests .nil)
  · exact List.nodup_append_comm.mp (List.nodup_cons.mpr ⟨hnew, hdistinct⟩)
  · intro other hother
    rcases List.mem_append.mp hother with hother | hother
    · exact hconfigured other hother
    · rw [List.mem_singleton.mp hother]
      exact not_not.mp hin

theorem Reconciling.foldlM {taken attestations : List AttestationWire}
    {state state' : Option AttestationWire × List String}
    (hall : ∀ w ∈ attestations, AttestationAccepted eip w)
    (h : Reconciling viem eip expected taken state)
    (hfold : (attestations.map AttestationWire.document).foldlM
      (reconcileAttestation viem eip expected) state = .ok state') :
    Reconciling viem eip expected (taken ++ attestations) state' := by
  induction attestations generalizing taken state with
  | nil =>
    rw [List.map_nil, List.foldlM_nil, pure_eq_ok] at hfold
    rw [List.append_nil, ← hfold]
    exact h
  | cons w rest ih =>
    rw [List.map_cons, List.foldlM_cons, bind_eq_ok] at hfold
    obtain ⟨next, hnext, hrest⟩ := hfold
    have hstep := h.step (hall w List.mem_cons_self) hnext
    have hend := ih (fun other hother => hall other (List.mem_cons_of_mem _ hother)) hstep hrest
    rwa [List.append_assoc] at hend

end

-- What a reconciliation of accepted attestations says.
structure Reconciled (viem : Viem) (eip : Eip712) (attestations : List AttestationWire)
    (expectedReconcilers : List String) (threshold : Nat)
    (r : ReconciledZkIdentityPackedStatusSnapshot) : Prop where
  published : ∃ w ∈ attestations, r.snapshot = w.snapshot ∧ r.snapshotHash = w.snapshotHash
  agree : ∀ w ∈ attestations, ∀ w' ∈ attestations, w.snapshotHash = w'.snapshotHash
  distinct : r.signers.Nodup
  quorum : threshold ≤ r.signers.length
  signed : ∀ signer ∈ r.signers, ∃ w ∈ attestations, Attests viem eip signer w
  configured : ∀ signer ∈ r.signers, ∃ address ∈ expectedReconcilers,
    getAddress viem address = .ok signer

theorem reconcile_ok {attestations : List AttestationWire} {expectedReconcilers : List String}
    {threshold : Nat} {r : ReconciledZkIdentityPackedStatusSnapshot}
    (hall : ∀ w ∈ attestations, AttestationAccepted eip w)
    (h : reconcileZkIdentityPackedStatusSnapshots viem eip
      (attestations.map AttestationWire.document) expectedReconcilers threshold = .ok r) :
    Reconciled viem eip attestations expectedReconcilers threshold r := by
  simp only [reconcileZkIdentityPackedStatusSnapshots, bind_eq_ok, revertIf_eq_ok] at h
  obtain ⟨expected, hexpected, -, -, -, -, -, -, ⟨accepted, signers⟩, hfold, h⟩ := h
  have hstart : Reconciling viem eip expected [] (none, []) :=
    ⟨rfl, nofun, .nil, List.nodup_nil, nofun⟩
  have hend := hstart.foldlM hall hfold
  rw [List.nil_append] at hend
  have hfirst : accepted = attestations.head? := hend.first
  cases accepted with
  | none => cases h
  | some first =>
    simp only [check_eq_ok, Nat.not_lt] at h
    obtain ⟨hquorum, h⟩ := h
    cases h
    have hsort := List.mergeSort_perm signers fun a b => decide (a ≤ b)
    refine ⟨⟨first, List.mem_of_head? hfirst.symm, rfl, rfl⟩, hend.agree, hsort.nodup_iff.mpr hend.distinct,
      ?_, ?_, ?_⟩
    · show threshold ≤ (signers.mergeSort _).length
      rw [hsort.length_eq]
      exact hquorum
    · intro signer hsigner
      obtain ⟨w, hw, hattests⟩ := forall₂_left hend.signed signer (hsort.mem_iff.mp hsigner)
      exact ⟨w, hw, hattests⟩
    · intro signer hsigner
      have hin := hend.configured signer (hsort.mem_iff.mp hsigner)
      rw [mapM_eq_ok] at hexpected
      obtain ⟨address, haddress, hcanonical⟩ := forall₂_right hexpected signer hin
      exact ⟨address, haddress, canonicalSignerAddress_ok hcanonical⟩

theorem nonZeroBytes32_ok {value label t : String} (h : nonZeroBytes32 viem value label = .ok t) :
    t = toLowerCase value := by
  simp only [nonZeroBytes32, check_eq_ok] at h
  obtain ⟨-, -, h⟩ := h
  cases h
  rfl

-- What is published is the snapshot's.
theorem publication_ok {r : ReconciledZkIdentityPackedStatusSnapshot}
    {p : ZkIdentityStatusSnapshotPublication}
    (h : reconciledZkIdentityStatusPublication viem r = .ok p) :
    p.issuerKeyId = toLowerCase r.snapshot.issuerKeyId ∧
      p.expectedNextStatusId = r.snapshot.nextStatusId ∧ p.root = toLowerCase r.snapshot.root := by
  simp only [reconciledZkIdentityStatusPublication, normalizeZkIdentityStatusSnapshotPublication,
    bind_eq_ok] at h
  obtain ⟨issuerKeyId, hissuer, root, hroot, _, -, _, -, h⟩ := h
  cases h
  exact ⟨nonZeroBytes32_ok hissuer, rfl, nonZeroBytes32_ok hroot⟩

end Ubi2.StatusSnapshot
