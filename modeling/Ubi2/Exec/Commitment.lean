import Ubi2.Exec.EffectCodec
import Ubi2.Lib.Text
import Ubi2.Runtime.Lifecycle
import Ubi2.Runtime.StateRoot

namespace Ubi2.Exec

open Ubi2.Runtime Ubi2.Lib Ubi2.Lib.Encode

section Front

variable {s t : Bytes}

theorem word_front {w : Nat} {x y : BitVec w} (hw : 8 ∣ w) (h : beBytes x ++ s = beBytes y ++ t) :
    x = y ∧ s = t :=
  Delimits.beBytes hw trivial trivial h

theorem tag_front {a b : U8} (h : [a] ++ s = [b] ++ t) : a = b ∧ s = t :=
  List.cons.inj h

theorem bool_front {a b : Bool} (h : hashBool a ++ s = hashBool b ++ t) : a = b ∧ s = t := by
  obtain ⟨htag, hst⟩ := tag_front h
  refine ⟨?_, hst⟩
  cases a <;> cases b <;> simp_all

theorem nat_front {m n : Nat} (hm : m < 256 ^ 8) (hn : n < 256 ^ 8)
    (h : hashU64 m ++ s = hashU64 n ++ t) : m = n ∧ s = t :=
  Delimits.natBytes 8 hm hn h

theorem bytes_front {a b : Bytes} (ha : a.length < 2 ^ 64) (hb : b.length < 2 ^ 64)
    (h : lenPrefixed a ++ s = lenPrefixed b ++ t) : a = b ∧ s = t :=
  Delimits.lenPrefixed ha hb h

end Front

-- Rows of a type whose every value fits.
def Any {α : Type} : α → Prop := fun _ => True

theorem rows_front {α : Type} {enc : α → Bytes} {l m : List α} {s t : Bytes}
    (henc : Delimits Any enc) (hl : l.length < 2 ^ 64) (hm : m.length < 2 ^ 64)
    (h : counted enc l ++ s = counted enc m ++ t) : l = m ∧ s = t :=
  henc.counted ⟨hl, fun _ _ => trivial⟩ ⟨hm, fun _ _ => trivial⟩ h

theorem words_front {w : Nat} {l m : List (BitVec w)} {s t : Bytes} (hw : 8 ∣ w)
    (hl : l.length < 2 ^ 64) (hm : m.length < 2 ^ 64)
    (h : counted beBytes l ++ s = counted beBytes m ++ t) : l = m ∧ s = t :=
  rows_front (Delimits.beBytes hw) hl hm h

theorem delimits_hashAccount : Delimits Any hashAccount := by
  intro a b s t _ _ h
  simp only [hashAccount, List.append_assoc] at h
  obtain ⟨haddress, h⟩ := word_front (by decide) h
  obtain ⟨hverified, h⟩ := bool_front h
  obtain ⟨hat, h⟩ := word_front (by decide) h
  obtain ⟨hsettled, h⟩ := word_front (by decide) h
  obtain ⟨hlast, h⟩ := word_front (by decide) h
  obtain ⟨hnonce, h⟩ := word_front (by decide) h
  cases a
  cases b
  simp_all

theorem streamStatusTag_injective : Function.Injective streamStatusTag := by
  intro a b h
  cases a <;> cases b <;> simp_all [streamStatusTag]

theorem delimits_hashStream : Delimits (fun s => s.id < 256 ^ 8) hashStream := by
  intro a b s t ha hb h
  simp only [hashStream, List.append_assoc] at h
  obtain ⟨hid, h⟩ := nat_front ha hb h
  obtain ⟨hfrom, h⟩ := word_front (by decide) h
  obtain ⟨hto, h⟩ := word_front (by decide) h
  obtain ⟨hrate, h⟩ := word_front (by decide) h
  obtain ⟨hdeposit, h⟩ := word_front (by decide) h
  obtain ⟨hdrawn, h⟩ := word_front (by decide) h
  obtain ⟨hstarted, h⟩ := word_front (by decide) h
  obtain ⟨htag, h⟩ := tag_front h
  obtain ⟨hat, h⟩ := word_front (by decide) h
  have hstatus := streamStatusTag_injective (Prod.ext htag hat)
  cases a
  cases b
  simp_all

theorem humanStatusTag_injective : Function.Injective humanStatusTag := by
  intro a b h
  cases a <;> cases b <;> simp_all [humanStatusTag]

theorem assuranceTag_injective : Function.Injective Assurance.tag := by
  intro a b h
  cases a <;> cases b <;> simp_all [Assurance.tag]

theorem delimits_hashHuman : Delimits (fun h => h.vouchesIn.length < 2 ^ 64) hashHuman := by
  intro a b s t ha hb h
  simp only [hashHuman, List.append_assoc] at h
  obtain ⟨haddress, h⟩ := word_front (by decide) h
  obtain ⟨hstatus, h⟩ := tag_front h
  obtain ⟨hat, h⟩ := word_front (by decide) h
  obtain ⟨hliveness, h⟩ := word_front (by decide) h
  obtain ⟨hvouches, h⟩ := words_front (by decide) ha hb h
  obtain ⟨hreputation, h⟩ := word_front (by decide) h
  obtain ⟨hassurance, h⟩ := tag_front h
  have hstatus := humanStatusTag_injective hstatus
  have hassurance := assuranceTag_injective hassurance
  cases a
  cases b
  simp_all

theorem delimits_hashEdge : Delimits Any hashEdge := by
  intro a b s t _ _ h
  simp only [hashEdge, List.append_assoc] at h
  obtain ⟨hvoucher, h⟩ := word_front (by decide) h
  obtain ⟨hvouchee, h⟩ := word_front (by decide) h
  exact ⟨Prod.ext hvoucher hvouchee, h⟩

theorem delimits_hashVerdict : Delimits Any hashVerdict := by
  intro a b s t _ _ h
  simp only [hashVerdict, List.append_assoc] at h
  obtain ⟨hverdict, h⟩ := tag_front h
  obtain ⟨hconfidence, h⟩ := tag_front h
  obtain ⟨hreasons, h⟩ := word_front (by decide) h
  have hverdict : a.verdict = b.verdict := by
    cases ha : a.verdict <;> cases hb : b.verdict <;> simp_all [verdictTag]
  have hconfidence : a.confidence = b.confidence := by
    cases ha : a.confidence <;> cases hb : b.confidence <;> simp_all [confidenceTag]
  cases a
  cases b
  simp_all

theorem delimits_hashVote : Delimits Any hashVote := by
  intro a b s t _ _ h
  simp only [hashVote, List.append_assoc] at h
  obtain ⟨hjuror, h⟩ := word_front (by decide) h
  obtain ⟨hverdict, h⟩ := delimits_hashVerdict trivial trivial h
  exact ⟨Prod.ext hjuror hverdict, h⟩

theorem delimits_hashCaseStatus : Delimits Any hashCaseStatus := by
  intro a b s t _ _ h
  cases a with
  | Open => cases b <;> simp_all [hashCaseStatus]
  | Escalated => cases b <;> simp_all [hashCaseStatus]
  | Committed v =>
    cases b with
    | Open => simp [hashCaseStatus] at h
    | Escalated => simp [hashCaseStatus] at h
    | Committed w =>
      simp only [hashCaseStatus, List.append_assoc] at h
      obtain ⟨hverdict, hrest⟩ := delimits_hashVerdict trivial trivial (tag_front h).2
      exact ⟨congrArg _ hverdict, hrest⟩

-- The counts and ids of a record fit the fields they are written to.
def CaseFits (c : Case) : Prop :=
  c.id < 256 ^ 8 ∧ c.jury.length < 2 ^ 64 ∧ c.votes.length < 2 ^ 64

theorem delimits_hashCase : Delimits CaseFits hashCase := by
  intro a b s t ⟨haid, hajury, havotes⟩ ⟨hbid, hbjury, hbvotes⟩ h
  simp only [hashCase, List.append_assoc] at h
  obtain ⟨hid, h⟩ := nat_front haid hbid h
  obtain ⟨hsubject, h⟩ := word_front (by decide) h
  obtain ⟨hchallenger, h⟩ := word_front (by decide) h
  obtain ⟨hkind, h⟩ := tag_front h
  obtain ⟨hevidence, h⟩ := word_front (by decide) h
  obtain ⟨hjury, h⟩ := words_front (by decide) hajury hbjury h
  obtain ⟨hvotes, h⟩ := rows_front delimits_hashVote havotes hbvotes h
  obtain ⟨hstatus, h⟩ := delimits_hashCaseStatus trivial trivial h
  obtain ⟨hopened, h⟩ := word_front (by decide) h
  have hkind : a.kind = b.kind := by
    cases ha : a.kind <;> cases hb : b.kind <;> simp_all [caseKindTag]
  cases a
  cases b
  simp_all

theorem delimits_hashJuror : Delimits Any hashJuror := by
  intro a b s t _ _ h
  simp only [hashJuror, List.append_assoc] at h
  obtain ⟨haddress, h⟩ := word_front (by decide) h
  obtain ⟨hstake, h⟩ := word_front (by decide) h
  obtain ⟨hactive, h⟩ := bool_front h
  cases a
  cases b
  simp_all

theorem delimits_hashAttributes : Delimits Any hashAttributes := by
  intro a b s t _ _ h
  simp only [hashAttributes, List.append_assoc] at h
  obtain ⟨haddress, h⟩ := word_front (by decide) h
  obtain ⟨hage, h⟩ := word_front (by decide) h
  obtain ⟨hnationality, h⟩ := word_front (by decide) h
  obtain ⟨hexpiry, h⟩ := word_front (by decide) h
  exact ⟨Prod.ext haddress (Prod.ext hage (Prod.ext hnationality hexpiry)), h⟩

theorem delimits_hashCsca : Delimits (fun e => e.pubkey.length < 2 ^ 64) hashCsca := by
  intro a b s t ha hb h
  simp only [hashCsca, List.append_assoc] at h
  obtain ⟨hcountry, h⟩ := word_front (by decide) h
  obtain ⟨hkey, h⟩ := word_front (by decide) h
  obtain ⟨hpubkey, h⟩ := bytes_front ha hb h
  obtain ⟨hadded, h⟩ := word_front (by decide) h
  obtain ⟨hstatus, h⟩ := tag_front h
  have hstatus : a.status = b.status := by
    cases ha : a.status <;> cases hb : b.status <;> simp_all [CscaStatus.tag]
  cases a
  cases b
  simp_all

theorem delimits_hashIdentityRoot : Delimits Any hashIdentityRoot := by
  intro a b s t _ _ h
  simp only [hashIdentityRoot, List.append_assoc] at h
  obtain ⟨hroot, h⟩ := word_front (by decide) h
  obtain ⟨hpinned, h⟩ := word_front (by decide) h
  cases a
  cases b
  simp_all

theorem delimits_hashOfacRoot : Delimits Any hashOfacRoot := by
  intro a b s t _ _ h
  simp only [hashOfacRoot, List.append_assoc] at h
  obtain ⟨hkind, h⟩ := word_front (by decide) h
  obtain ⟨hroot, h⟩ := word_front (by decide) h
  obtain ⟨hpinned, h⟩ := word_front (by decide) h
  cases a
  cases b
  simp_all

theorem delimits_hashOption {α : Type} {P : α → Prop} {enc : α → Bytes}
    (henc : Delimits P enc) : Delimits (fun o => ∀ a ∈ o, P a) (hashOption enc) := by
  intro a b s t ha hb h
  cases a with
  | none => cases b <;> simp_all [hashOption]
  | some x =>
    cases b with
    | none => simp [hashOption] at h
    | some y =>
      simp only [hashOption, List.append_assoc] at h
      obtain ⟨hvalue, hrest⟩ := henc (ha x rfl) (hb y rfl) (tag_front h).2
      exact ⟨congrArg _ hvalue, hrest⟩

theorem delimits_hashVar : Delimits Any hashVar := by
  intro a b s t _ _ h
  simp only [hashVar, List.append_assoc] at h
  obtain ⟨hkey, h⟩ := word_front (by decide) h
  obtain ⟨hvalue, h⟩ := word_front (by decide) h
  exact ⟨Prod.ext hkey hvalue, h⟩

-- An effect whose encoding keeps its operations apart.
def EffectFits (e : CanonicalEffect) : Prop :=
  e.ops.length < 256 ^ 4 ∧ (∀ op ∈ e.ops, Fits op) ∧ e.encode.length < 2 ^ 64

theorem encodeOps_injective {l m : List Op} (hl : l.length < 256 ^ 4 ∧ ∀ op ∈ l, Fits op)
    (hm : m.length < 256 ^ 4 ∧ ∀ op ∈ m, Fits op) (h : encodeOps l = encodeOps m) :
    l = m := by
  have hdecode : decodeEffect (encodeOps l) = .ok (.new l) :=
    decodeEffect_ok_iff.mpr ⟨rfl, hl.1, hl.2, rfl⟩
  have hdecode' : decodeEffect (encodeOps m) = .ok (.new m) :=
    decodeEffect_ok_iff.mpr ⟨rfl, hm.1, hm.2, rfl⟩
  rw [h, hdecode'] at hdecode
  exact (congrArg CanonicalEffect.ops (Except.ok.inj hdecode)).symm

theorem delimits_hashEffect : Delimits EffectFits hashEffect := by
  intro a b s t ha hb h
  simp only [hashEffect, List.append_assoc] at h
  obtain ⟨hops, h⟩ := bytes_front ha.2.2 hb.2.2 h
  obtain ⟨hdigest, h⟩ := word_front (by decide) h
  have hops := encodeOps_injective ⟨ha.1, ha.2.1⟩ ⟨hb.1, hb.2.1⟩ hops
  cases a
  cases b
  simp_all

theorem delimits_hashSubmission : Delimits (fun e => EffectFits e.2) hashSubmission := by
  intro a b s t ha hb h
  simp only [hashSubmission, List.append_assoc] at h
  obtain ⟨hinterpreter, h⟩ := word_front (by decide) h
  obtain ⟨heffect, h⟩ := delimits_hashEffect ha hb h
  exact ⟨Prod.ext hinterpreter heffect, h⟩

def ExecStatusFits : ExecStatus → Prop
  | .Committed e => EffectFits e
  | _ => True

theorem delimits_hashExecStatus : Delimits ExecStatusFits hashExecStatus := by
  intro a b s t ha hb h
  cases a with
  | Open => cases b <;> simp_all [hashExecStatus]
  | Aborted => cases b <;> simp_all [hashExecStatus]
  | Committed e =>
    cases b with
    | Open => simp [hashExecStatus] at h
    | Aborted => simp [hashExecStatus] at h
    | Committed e' =>
      simp only [hashExecStatus, List.append_assoc] at h
      obtain ⟨heffect, hrest⟩ := delimits_hashEffect ha hb (tag_front h).2
      exact ⟨congrArg _ heffect, hrest⟩

def ExecCaseFits (c : ExecCase) : Prop :=
  c.id < 256 ^ 8 ∧ c.contract < 256 ^ 8 ∧ c.jury.length < 2 ^ 64 ∧
    (c.effects.length < 2 ^ 64 ∧ ∀ e ∈ c.effects, EffectFits e.2) ∧ ExecStatusFits c.status

theorem delimits_hashExecCase : Delimits ExecCaseFits hashExecCase := by
  intro a b s t ⟨haid, hacontract, hajury, haeffects, hastatus⟩
    ⟨hbid, hbcontract, hbjury, hbeffects, hbstatus⟩ h
  simp only [hashExecCase, List.append_assoc] at h
  obtain ⟨hid, h⟩ := nat_front haid hbid h
  obtain ⟨hcontract, h⟩ := nat_front hacontract hbcontract h
  obtain ⟨htrigger, h⟩ := word_front (by decide) h
  obtain ⟨hinvoker, h⟩ := word_front (by decide) h
  obtain ⟨hjury, h⟩ := words_front (by decide) hajury hbjury h
  obtain ⟨heffects, h⟩ := delimits_hashSubmission.counted haeffects hbeffects h
  obtain ⟨hstatus, h⟩ := delimits_hashExecStatus hastatus hbstatus h
  obtain ⟨hopened, h⟩ := word_front (by decide) h
  have hword : Delimits Any (beBytes : U64 → Bytes) := Delimits.beBytes (by decide)
  obtain ⟨hresolved, h⟩ := delimits_hashOption hword (fun _ _ => trivial) (fun _ _ => trivial) h
  cases a
  cases b
  simp_all

theorem strBytes_injective : Function.Injective strBytes := utf8_injective

def ContractFits (c : PromptContract) : Prop :=
  c.id < 256 ^ 8 ∧ c.parties.length < 2 ^ 64 ∧ (strBytes c.text).length < 2 ^ 64 ∧
    c.sortedVars.length < 2 ^ 64

theorem delimits_hashContract : Delimits ContractFits hashContract := by
  intro a b s t ⟨haid, haparties, hatext, havars⟩ ⟨hbid, hbparties, hbtext, hbvars⟩ h
  simp only [hashContract, List.append_assoc] at h
  obtain ⟨hid, h⟩ := nat_front haid hbid h
  obtain ⟨hescrow, h⟩ := word_front (by decide) h
  obtain ⟨hparties, h⟩ := words_front (by decide) haparties hbparties h
  obtain ⟨htext, h⟩ := bytes_front hatext hbtext h
  obtain ⟨htextRef, h⟩ := word_front (by decide) h
  obtain ⟨hvars, h⟩ := rows_front delimits_hashVar havars hbvars h
  obtain ⟨hstatus, h⟩ := tag_front h
  obtain ⟨hblock, h⟩ := word_front (by decide) h
  obtain ⟨htx, h⟩ := word_front (by decide) h
  have htext := strBytes_injective htext
  have hvars : a.vars = b.vars := Table.ext_rows hvars
  have hstatus : a.status = b.status := by
    cases ha : a.status <;> cases hb : b.status <;> simp_all [contractStatusTag]
  cases a
  cases b
  simp_all

-- The rows of a section are written behind their count, and each fits its fields.
def RowsFit {α : Type} (P : α → Prop) (l : List α) : Prop :=
  l.length < 2 ^ 64 ∧ ∀ a ∈ l, P a

-- The bounds the machine types of the state give: 64-bit ids, counters and lengths.
structure Representable (s : MemState) : Prop where
  accounts : RowsFit Any s.ledger.accounts.rows
  streams : RowsFit (fun x => x.id < 256 ^ 8) s.ledger.streams.rows
  humans : RowsFit (fun x => x.vouchesIn.length < 2 ^ 64) s.humanity.humans.rows
  vouches : RowsFit Any s.humanity.vouchEdges
  cleared : RowsFit Any s.humanity.clearedChallenges.rows
  cases : RowsFit CaseFits s.humanity.cases.rows
  jurors : RowsFit Any s.committedJurors
  nullifiers : RowsFit Any s.zk.nullifiers.rows
  attributes : RowsFit Any s.zk.attributeCommitments.rows
  csca : RowsFit (fun x => x.pubkey.length < 2 ^ 64) s.zk.csca.rows
  identityRoots : RowsFit Any s.zk.selfIdentityRoots.rows
  ofacRoots : RowsFit Any s.zk.selfOfacRoots.rows
  contracts : RowsFit ContractFits s.prompt.contracts.rows
  execCases : RowsFit ExecCaseFits s.prompt.execCases.rows
  validators : RowsFit Any s.epochValidators
  nextStreamId : s.ledger.nextId < 256 ^ 8
  nextCaseId : s.humanity.nextCaseId < 256 ^ 8
  nextContractId : s.prompt.nextContractId < 256 ^ 8
  nextExecCaseId : s.prompt.nextExecCaseId < 256 ^ 8

-- What the commitment does not see: the governance key of the trust anchors, the jurors
-- that are not active, and the indexes beside the streams and the vouch edges.
structure SameUnseen (s t : MemState) : Prop where
  governance : s.zk.cscaGovernance = t.zk.cscaGovernance
  inactive : s.humanity.jurors.rows.filter (fun j => !j.active) =
    t.humanity.jurors.rows.filter (fun j => !j.active)
  vouchers : s.humanity.vouchersOfIdx = t.humanity.vouchersOfIdx
  outgoing : s.ledger.outgoingIdx = t.ledger.outgoingIdx
  incoming : s.ledger.incomingIdx = t.ledger.incomingIdx

attribute [ext] MemState Ledger HumanRegistry ContractRegistry ZkRegistry

section Binding

variable {s t : MemState}

-- The committed jurors and the inactive ones are the registry.
private theorem jurors_eq {l m : Table Juror.address}
    (hactive : l.rows.filter Juror.active = m.rows.filter Juror.active)
    (hinactive : l.rows.filter (fun j => !j.active) = m.rows.filter (fun j => !j.active)) :
    l = m := by
  apply Table.ext_mem
  intro j
  cases hj : j.active with
  | true =>
    have hmem : j ∈ l.rows.filter Juror.active ↔ j ∈ m.rows.filter Juror.active := by
      rw [hactive]
    simpa [List.mem_filter, hj] using hmem
  | false =>
    have hmem : j ∈ l.rows.filter (fun j => !j.active) ↔
        j ∈ m.rows.filter (fun j => !j.active) := by
      rw [hinactive]
    simpa [List.mem_filter, hj] using hmem

private theorem section_front {α : Type} {P : α → Prop} {enc : α → Bytes} {tag : U8}
    {l m : List α} {x y : Bytes} (henc : Delimits P enc) (hl : RowsFit P l) (hm : RowsFit P m)
    (h : (tag :: counted enc l) ++ x = (tag :: counted enc m) ++ y) : l = m ∧ x = y :=
  henc.counted hl hm (List.cons.inj h).2

theorem eq_of_stateBytes (hs : Representable s) (ht : Representable t)
    (hunseen : SameUnseen s t) (h : stateBytes s = stateBytes t) : s = t := by
  have h := List.append_cancel_left h
  simp only [MemState.sections, List.flatten_cons, List.flatten_nil, List.append_assoc] at h
  have hword : ∀ w, 8 ∣ w → Delimits Any (beBytes : BitVec w → Bytes) :=
    fun w hw => Delimits.beBytes hw
  obtain ⟨haccounts, h⟩ := section_front delimits_hashAccount hs.accounts ht.accounts h
  obtain ⟨hstreams, h⟩ := section_front delimits_hashStream hs.streams ht.streams h
  obtain ⟨hhumans, h⟩ := section_front delimits_hashHuman hs.humans ht.humans h
  obtain ⟨hvouches, h⟩ := section_front delimits_hashEdge hs.vouches ht.vouches h
  obtain ⟨hcleared, h⟩ := section_front delimits_hashEdge hs.cleared ht.cleared h
  obtain ⟨hcases, h⟩ := section_front delimits_hashCase hs.cases ht.cases h
  obtain ⟨hjurors, h⟩ := section_front delimits_hashJuror hs.jurors ht.jurors h
  obtain ⟨hnullifiers, h⟩ := section_front (hword 256 (by decide)) hs.nullifiers ht.nullifiers h
  obtain ⟨hattributes, h⟩ := section_front delimits_hashAttributes hs.attributes ht.attributes h
  obtain ⟨hcsca, h⟩ := section_front delimits_hashCsca hs.csca ht.csca h
  obtain ⟨hidentity, h⟩ :=
    section_front delimits_hashIdentityRoot hs.identityRoots ht.identityRoots h
  obtain ⟨hofac, h⟩ := section_front delimits_hashOfacRoot hs.ofacRoots ht.ofacRoots h
  obtain ⟨hscope, h⟩ := delimits_hashOption (hword 256 (by decide)) (fun _ _ => trivial)
    (fun _ _ => trivial) (List.cons.inj h).2
  obtain ⟨hcontracts, h⟩ := section_front delimits_hashContract hs.contracts ht.contracts h
  obtain ⟨hexecCases, h⟩ := section_front delimits_hashExecCase hs.execCases ht.execCases h
  obtain ⟨hvalidators, h⟩ := section_front (hword 160 (by decide)) hs.validators ht.validators h
  obtain ⟨-, h⟩ := List.cons.inj h
  obtain ⟨hstreamId, h⟩ := nat_front hs.nextStreamId ht.nextStreamId h
  obtain ⟨hcaseId, h⟩ := nat_front hs.nextCaseId ht.nextCaseId h
  obtain ⟨hcontractId, h⟩ := nat_front hs.nextContractId ht.nextContractId h
  obtain ⟨hexecCaseId, h⟩ := nat_front hs.nextExecCaseId ht.nextExecCaseId h
  apply MemState.ext
  · exact Ledger.ext (Table.ext_rows haccounts) (Table.ext_rows hstreams) hunseen.outgoing
      hunseen.incoming hstreamId
  · exact HumanRegistry.ext (Table.ext_rows hhumans) (Table.ext_rows hvouches) hunseen.vouchers
      (Table.ext_rows hcases) hcaseId (jurors_eq hjurors hunseen.inactive)
      (Table.ext_rows hcleared)
  · exact ContractRegistry.ext (Table.ext_rows hcontracts) hcontractId
      (Table.ext_rows hexecCases) hexecCaseId
  · exact ZkRegistry.ext (Table.ext_rows hnullifiers) (Table.ext_rows hattributes)
      (Table.ext_rows hcsca) hunseen.governance (Table.ext_rows hidentity)
      (Table.ext_rows hofac) hscope
  · exact hvalidators

theorem commitment_binds_iff (hs : Representable s) (ht : Representable t)
    (h : stateBytes s = stateBytes t) : s = t ↔ SameUnseen s t := by
  constructor
  · rintro rfl
    exact ⟨rfl, rfl, rfl, rfl, rfl⟩
  · intro hunseen
    exact eq_of_stateBytes hs ht hunseen h

end Binding

-- A fresh state under a governance key, which is not committed.
def governed (authority : Option Address) : MemState :=
  { zk := { cscaGovernance := authority } }

private theorem rowsFit_nil {α : Type} (P : α → Prop) : RowsFit P [] :=
  ⟨Nat.two_pow_pos 64, fun _ h => absurd h List.not_mem_nil⟩

private theorem representable_governed (authority : Option Address) :
    Representable (governed authority) := by
  constructor
  all_goals first | exact rowsFit_nil _ | exact Nat.pow_pos (by decide)

theorem not_sameUnseen_governed : ¬ SameUnseen (governed none) (governed (some 1#160)) := by
  intro hunseen
  have heq := (commitment_binds_iff (representable_governed none)
    (representable_governed (some 1#160)) rfl).mpr hunseen
  exact absurd (congrArg (fun s => s.zk.cscaGovernance) heq) (by decide)

-- One byte stream, two states, and an anchor registration that only one of them accepts.
theorem governance_not_bound :
    Representable (governed none) ∧ Representable (governed (some 1#160)) ∧
      stateBytes (governed none) = stateBytes (governed (some 1#160)) ∧
      governed none ≠ governed (some 1#160) ∧
      (∃ e s, (governed none).registerCsca 1#160 0#24 2#256 [3#8] 4#64 = (.error e, s)) ∧
      ∃ s, (governed (some 1#160)).registerCsca 1#160 0#24 2#256 [3#8] 4#64 = (.ok (), s) := by
  refine ⟨representable_governed _, representable_governed _, rfl, by decide, ?_, ?_⟩
  · exact ⟨_, _, rfl⟩
  · exact ⟨_, rfl⟩

end Ubi2.Exec
