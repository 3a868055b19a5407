import Ubi2.Exec.Escrow
import Ubi2.Exec.Restorable
import Ubi2.Rpc.Restart

namespace Ubi2.Rpc

open Ubi2.Runtime Ubi2.Lib Ubi2.Lib.Encode Ubi2.Exec

-- The digits of a number, in UTF-8.
def decimalBytes (n : Nat) : Bytes :=
  ((Nat.toDigits 10 n).flatMap String.utf8EncodeChar).map UInt8.toBitVec

theorem strBytes_decimal {w : Nat} (v : BitVec w) : strBytes (decimal v) = decimalBytes v.toNat := by
  rw [decimal, Nat.toString_eq_ofList_toDigits, strBytes_ofList]
  rfl

theorem decimalBytes_digit : ∀ n < 10, decimalBytes n = [48#8 + BitVec.ofNat 8 n] := by
  decide

theorem decimalBytes_of_le {n : Nat} (h : 10 ≤ n) :
    decimalBytes n = decimalBytes (n / 10) ++ decimalBytes (n % 10) := by
  have hlast : n % 10 < 10 := Nat.mod_lt _ (by decide)
  rw [decimalBytes, Nat.toDigits_of_base_le (by decide) h, List.flatMap_append, List.map_append,
    decimalBytes, decimalBytes, Nat.toDigits_of_lt_base hlast]

-- One digit of `parseDecimal`.
def readDigit (acc : Nat) (d : Byte) : Option Nat :=
  if 48#8 ≤ d ∧ d ≤ 57#8 ∧ acc * 10 + (d.toNat - 48) < 2 ^ 128 then
    some (acc * 10 + (d.toNat - 48))
  else none

theorem readDigit_digit {acc n : Nat} (hn : n < 10) (hacc : acc * 10 + n < 2 ^ 128) :
    readDigit acc (48#8 + BitVec.ofNat 8 n) = some (acc * 10 + n) := by
  have hdigit : ∀ n < 10, 48#8 ≤ 48#8 + BitVec.ofNat 8 n ∧ 48#8 + BitVec.ofNat 8 n ≤ 57#8 ∧
      (48#8 + BitVec.ofNat 8 n).toNat - 48 = n := by decide
  obtain ⟨hlow, hhigh, hvalue⟩ := hdigit n hn
  rw [readDigit, hvalue, if_pos ⟨hlow, hhigh, hacc⟩]

theorem foldlM_readDigit {n : Nat} (h : n < 2 ^ 128) :
    (decimalBytes n).foldlM readDigit 0 = some n := by
  induction n using Nat.strongRecOn with
  | ind n ih =>
    by_cases hn : n < 10
    · rw [decimalBytes_digit n hn, List.foldlM_cons, readDigit_digit hn (by omega)]
      simp
    · have hlast : n % 10 < 10 := Nat.mod_lt _ (by decide)
      have hvalue : n / 10 * 10 + n % 10 = n := by omega
      rw [decimalBytes_of_le (by omega), List.foldlM_append, ih (n / 10) (by omega) (by omega),
        decimalBytes_digit _ hlast, Option.bind_eq_bind, Option.bind_some, List.foldlM_cons,
        readDigit_digit hlast (by omega), hvalue]
      rfl

-- No number starts with a sign.
theorem head_decimalBytes (n : Nat) : ∃ d bytes, decimalBytes n = d :: bytes ∧ d ≠ 43#8 := by
  induction n using Nat.strongRecOn with
  | ind n ih =>
    by_cases hn : n < 10
    · have hsign : ∀ n < 10, 48#8 + BitVec.ofNat 8 n ≠ 43#8 := by decide
      exact ⟨_, [], decimalBytes_digit n hn, hsign n hn⟩
    · obtain ⟨d, bytes, hbytes, hd⟩ := ih (n / 10) (by omega)
      refine ⟨d, bytes ++ decimalBytes (n % 10), ?_, hd⟩
      rw [decimalBytes_of_le (by omega), hbytes, List.cons_append]

theorem parseU128_decimal (v : U128) : parseU128 (decimal v) = v := by
  have hread := foldlM_readDigit v.isLt
  obtain ⟨d, bytes, hbytes, hd⟩ := head_decimalBytes v.toNat
  rw [hbytes] at hread
  have hparse : parseDecimal (decimal v) = some (BitVec.ofNat 128 v.toNat) := by
    unfold parseDecimal
    rw [strBytes_decimal, hbytes]
    split
    · rename_i digits heq
      exact absurd (List.cons.inj heq).1 hd
    · rename_i digits heq
      dsimp only
      rw [if_neg (List.cons_ne_nil d bytes)]
      exact congrArg (Option.map (BitVec.ofNat 128)) hread
  rw [parseU128, hparse, Option.getD_some, BitVec.ofNat_toNat, BitVec.setWidth_eq]

-- A reader of hex that reads back what was written.
def Inverts (hex : HexReader) : Prop :=
  ∀ bytes : Bytes, hex (hexEncode bytes) bytes.length = some bytes

section
variable {hex : HexReader}

theorem mapM_map_of_mem {α β : Type} {f : β → Option α} {g : α → β} {l : List α}
    (h : ∀ a ∈ l, f (g a) = some a) : (l.map g).mapM f = some l := by
  induction l with
  | nil => rfl
  | cons a l ih =>
    have hhead := h a List.mem_cons_self
    have htail := ih fun b hb => h b (List.mem_cons_of_mem a hb)
    simp [List.mapM_cons, hhead, htail]

theorem importInto_map {δ ρ σ : Type} {decode : δ → Option ρ} {encode : ρ → δ}
    (put : σ → ρ → σ) {l : List ρ} (h : ∀ r ∈ l, decode (encode r) = some r) (s : σ) :
    importInto decode put (l.map encode) s = some (l.foldl put s) := by
  unfold importInto
  induction l generalizing s with
  | nil => rfl
  | cons r l ih =>
    rw [List.map_cons, List.foldlM_cons, h r List.mem_cons_self]
    exact ih (fun a ha => h a (List.mem_cons_of_mem r ha)) (put s r)

theorem unhex20_of_inverts (hhex : Inverts hex) (a : Address) : unhex20 hex (hex20 a) = some a := by
  have hlen : (beBytes a).length = 20 := length_natBytes _ _
  have hback : Decode.ofBytes (beBytes a) = a.toNat := Decode.ofBytes_natBytes a.isLt
  rw [unhex20, hex20, ← hlen, hhex, Option.map_some, hback, BitVec.ofNat_toNat, BitVec.setWidth_eq]

theorem unhex32_of_inverts (hhex : Inverts hex) (h : Hash) : unhex32 hex (hex32 h) = some h := by
  have hlen : (beBytes h).length = 32 := length_natBytes _ _
  have hback : Decode.ofBytes (beBytes h) = h.toNat := Decode.ofBytes_natBytes h.isLt
  rw [unhex32, hex32, ← hlen, hhex, Option.map_some, hback, BitVec.ofNat_toNat, BitVec.setWidth_eq]

theorem addresses_of_inverts (hhex : Inverts hex) (l : List Address) :
    (l.map hex20).mapM (unhex20 hex) = some l :=
  mapM_map_of_inverse (unhex20_of_inverts hhex) l

theorem dtoToVerdict_verdictToDto (hhex : Inverts hex) (v : CanonicalVerdict) :
    dtoToVerdict hex (verdictToDto v) = some v := by
  obtain ⟨verdict, confidence, reasonsHash⟩ := v
  rw [dtoToVerdict, verdictToDto, unhex32_of_inverts hhex]
  cases verdict <;> cases confidence <;> rfl

theorem decodeOp_encodeOp (hhex : Inverts hex) (op : Op) : decodeOp hex (encodeOp op) = some op := by
  have h20 := unhex20_of_inverts hhex
  have h32 := unhex32_of_inverts hhex
  cases op <;> simp [decodeOp, encodeOp, h20, h32, parseU128_decimal]

theorem dtoToEffect_effectToDto (hhex : Inverts hex) {e : CanonicalEffect} (he : e.Hashed) :
    dtoToEffect hex (effectToDto e) = some e := by
  rw [dtoToEffect, effectToDto, mapM_map_of_inverse (decodeOp_encodeOp hhex), Option.map_some, ← he]

theorem importAccount_exportAccount (hhex : Inverts hex) (a : Account) :
    importAccount hex (exportAccount a) = some a := by
  rw [importAccount, exportAccount]
  simp only [unhex20_of_inverts hhex, parseU128_decimal]
  rfl

theorem importStream_exportStream (hhex : Inverts hex) (s : Stream) :
    importStream hex (exportStream s) = some s := by
  obtain ⟨id, from_, to_, rate, deposit, drawn, startedAt, status⟩ := s
  rw [importStream, exportStream]
  simp only [unhex20_of_inverts hhex, parseU128_decimal]
  cases status <;> rfl

theorem importHuman_exportHuman (hhex : Inverts hex) (h : Human) :
    importHuman hex (exportHuman h) = some h := by
  obtain ⟨address, status, verifiedAt, livenessRef, vouchesIn, reputation, assurance⟩ := h
  rw [importHuman, exportHuman]
  simp only [unhex20_of_inverts hhex, unhex32_of_inverts hhex, addresses_of_inverts hhex]
  cases status <;> cases assurance <;> rfl

theorem importPair_exportEdge (hhex : Inverts hex) (e : Edge) :
    importPair hex (exportEdge e) = some e := by
  rw [importPair, exportEdge]
  simp only [unhex20_of_inverts hhex]
  rfl

theorem importCase_exportCase (hhex : Inverts hex) (c : Case) :
    importCase hex (exportCase c) = some c := by
  obtain ⟨id, subject, challenger, kind, evidenceRef, jury, votes, status, openedAt⟩ := c
  have hvote (e : Address × CanonicalVerdict) :
      importVote hex (hex20 e.1, verdictToDto e.2) = some e := by
    rw [importVote]
    simp only [unhex20_of_inverts hhex, dtoToVerdict_verdictToDto hhex]
    rfl
  rw [importCase, exportCase]
  simp only [unhex20_of_inverts hhex, unhex32_of_inverts hhex, addresses_of_inverts hhex,
    mapM_map_of_inverse hvote]
  cases status with
  | Open => cases kind <;> rfl
  | Escalated => cases kind <;> rfl
  | Committed v =>
    have hstatus : importCaseStatus hex 1#8 (some (verdictToDto v)) = some (.Committed v) := by
      rw [importCaseStatus, if_pos rfl, Option.bind_some, dtoToVerdict_verdictToDto hhex,
        Option.map_some]
    simp only [hstatus]
    cases kind <;> rfl

theorem importJuror_exportJuror (hhex : Inverts hex) (j : Juror) :
    importJuror hex (exportJuror j) = some j := by
  rw [importJuror, exportJuror]
  simp only [unhex20_of_inverts hhex, parseU128_decimal]
  rfl

theorem importContract_exportContract (hhex : Inverts hex) {c : PromptContract}
    (hc : sortDedup c.parties = c.parties) : importContract hex (exportContract c) = some c := by
  obtain ⟨id, escrow, parties, text, textRef, vars, status, deployBlock, deployTx⟩ := c
  have hvar (e : Hash × Hash) : importVar hex (hex32 e.1, hex32 e.2) = some e := by
    rw [importVar]
    simp only [unhex32_of_inverts hhex]
    rfl
  have hvars : vars.rows.foldl Table.put ∅ = vars := Table.ofList_rows vars
  have hparties : sortDedup parties = parties := hc
  rw [importContract, exportContract]
  simp only [unhex32_of_inverts hhex, addresses_of_inverts hhex, mapM_map_of_inverse hvar,
    PromptContract.sortedVars, PromptContract.new, parseU128_decimal]
  cases status <;> simp [contractStatusTag, hvars, hparties]

theorem importExecCase_exportExecCase (hhex : Inverts hex) {c : ExecCase} (hc : c.Hashed) :
    importExecCase hex (exportExecCase c) = some c := by
  obtain ⟨id, contract, triggerRef, invoker, jury, effects, status, openedAt, resolvedAt⟩ := c
  have heffect : ∀ e ∈ effects, importEffect hex (hex20 e.1, effectToDto e.2) = some e := by
    intro e he
    rw [importEffect]
    simp only [unhex20_of_inverts hhex, dtoToEffect_effectToDto hhex (hc.1 e he)]
    rfl
  rw [importExecCase, exportExecCase]
  simp only [unhex20_of_inverts hhex, unhex32_of_inverts hhex, addresses_of_inverts hhex,
    mapM_map_of_mem heffect]
  cases hstatus : status with
  | Open => rfl
  | Aborted => rfl
  | Committed e =>
    have hhashed := hc.2 e hstatus
    have hcommitted : importExecStatus hex 1#8 (some (effectToDto e)) = some (.Committed e) := by
      rw [importExecStatus, if_pos rfl, Option.bind_some, dtoToEffect_effectToDto hhex hhashed,
        Option.map_some]
    simp only [hcommitted]
    rfl

theorem importAttributes_exportAttributes (hhex : Inverts hex) (e : Address × Commitments) :
    importAttributes hex (exportAttributes e) = some e := by
  rw [importAttributes, exportAttributes]
  simp only [unhex20_of_inverts hhex, unhex32_of_inverts hhex]
  rfl

theorem importCsca_exportCsca (hhex : Inverts hex) (e : CscaEntry) :
    importCsca hex (exportCsca e) = some e := by
  obtain ⟨countryCode, keyId, pubkey, addedAt, status⟩ := e
  have hcode : copyCountryCode (beBytes countryCode) = some countryCode := by
    have hlen : (beBytes countryCode).length = 3 := length_natBytes _ _
    have hback : Decode.ofBytes (beBytes countryCode) = countryCode.toNat :=
      Decode.ofBytes_natBytes countryCode.isLt
    rw [copyCountryCode, hlen, List.take_of_length_le (by omega), hlen,
      if_pos rfl, hback, BitVec.ofNat_toNat, BitVec.setWidth_eq]
  rw [importCsca, exportCsca]
  simp only [unhex32_of_inverts hhex, hexDecodeVec_hexEncode, hcode, CscaEntry.active]
  cases status <;> rfl

theorem importLedger_exportState (hhex : Inverts hex) {s : MemState} (hs : s.ledger.Linked) :
    importLedger hex (exportState s) = some s.ledger := by
  have haccounts := importInto_map Ledger.put (l := s.ledger.accounts.rows)
    fun a _ => importAccount_exportAccount hhex a
  have hstreams := importInto_map Ledger.putStream (l := s.ledger.streams.rows)
    fun a _ => importStream_exportStream hhex a
  rw [importLedger]
  simp only [exportState, haccounts, hstreams, Option.bind_eq_bind, Option.bind_some]
  exact congrArg some (Ledger.rebuilt hs)

-- The jurors that are written are the active ones.
theorem activeJurors_of_all {s : MemState} (h : ∀ j ∈ s.humanity.jurors.rows, j.active = true) :
    s.activeJurors.filterMap s.humanity.getJuror = s.humanity.jurors.rows := by
  have hall : s.humanity.jurors.rows.filter (fun j => j.active) = s.humanity.jurors.rows :=
    List.filter_eq_self.mpr h
  have hactive : s.activeJurors = s.humanity.jurors.rows.map Juror.address :=
    congrArg (List.map Juror.address) hall
  rw [hactive, List.filterMap_map]
  refine (List.filterMap_congr fun j hj => ?_).trans List.filterMap_some
  exact Table.get_of_mem hj

theorem importHumanity_exportState (hhex : Inverts hex) {s : MemState} (hs : s.Restorable) :
    importHumanity hex (exportState s) = some s.humanity := by
  have hhumans := importInto_map HumanRegistry.putHuman (l := s.humanity.humans.rows)
    fun h _ => importHuman_exportHuman hhex h
  have hvouches := importInto_map
    (fun (r : HumanRegistry) e => r.putVouch { voucher := e.1, vouchee := e.2, at_ := 0#64 })
    (l := s.humanity.vouchEdges) fun e _ => importPair_exportEdge hhex e
  have hcleared := importInto_map
    (fun (r : HumanRegistry) (e : Edge) => r.recordChallengeCleared e.1 e.2)
    (l := s.humanity.clearedChallenges.rows) fun e _ => importPair_exportEdge hhex e
  have hcases := importInto_map HumanRegistry.putCase (l := s.humanity.cases.rows)
    fun c _ => importCase_exportCase hhex c
  have hjurors := importInto_map HumanRegistry.putJuror (l := s.humanity.jurors.rows)
    fun j _ => importJuror_exportJuror hhex j
  rw [importHumanity]
  simp only [exportState, MemState.cases, activeJurors_of_all hs.active, hhumans, hvouches,
    hcleared, hcases, hjurors, Option.bind_eq_bind, Option.bind_some]
  exact congrArg some (HumanRegistry.rebuilt hs.mirror)

theorem importPrompt_exportState (hhex : Inverts hex) {s : MemState} (hs : s.prompt.Faithful) :
    importPrompt hex (exportState s) = some s.prompt := by
  have hcontracts := importInto_map ContractRegistry.putContract (l := s.prompt.contracts.rows)
    fun c hc => importContract_exportContract hhex (hs.parties c hc)
  have hexecCases := importInto_map ContractRegistry.putExecCase (l := s.prompt.execCases.rows)
    fun c hc => importExecCase_exportExecCase hhex (hs.effects c hc)
  rw [importPrompt]
  simp only [exportState, hcontracts, hexecCases, Option.bind_eq_bind, Option.bind_some]
  exact congrArg some s.prompt.rebuilt

-- A store on its own is written again from its rows.
theorem importInto_rows {δ ρ κ : Type} [LinearOrder κ] {key : ρ → κ} {decode : δ → Option ρ}
    {encode : ρ → δ} (h : ∀ r, decode (encode r) = some r) (t : Table key) :
    importInto decode Table.put (t.rows.map encode) ∅ = some t := by
  rw [importInto_map Table.put fun r _ => h r]
  exact congrArg some (Table.ofList_rows t)

theorem importZk_exportState (hhex : Inverts hex) (s : MemState) :
    importZk hex (exportState s) = some { s.zk with selfScope := none } := by
  have h32 := unhex32_of_inverts hhex
  have hidentity (e : SelfIdentityRoot) :
      importSelfIdentityRoot hex ⟨hex32 e.root, e.pinnedAtBlock⟩ = some e := by
    rw [importSelfIdentityRoot, h32]
    rfl
  have hofac (e : SelfOfacRoot) :
      importSelfOfacRoot hex ⟨e.kind, hex32 e.root, e.pinnedAtBlock⟩ = some e := by
    rw [importSelfOfacRoot, h32]
    rfl
  have hgovernance : (s.zk.cscaGovernance.map hex20).mapM (unhex20 hex) =
      some s.zk.cscaGovernance := by
    cases s.zk.cscaGovernance with
    | none => rfl
    | some a => simp [unhex20_of_inverts hhex]
  rw [importZk]
  simp only [exportState, importInto_rows h32,
    importInto_rows (importAttributes_exportAttributes hhex),
    importInto_rows (importCsca_exportCsca hhex), importInto_rows hidentity, importInto_rows hofac,
    hgovernance, Option.bind_eq_bind, Option.bind_some]
  rfl

-- What is written of a restorable state and read back is the state, but for the scope.
theorem importState_exportState_with (hhex : Inverts hex) {s : MemState} (hs : s.Restorable) :
    importStateWith hex (exportState s) = some s.unscoped := by
  have hvalidators : (exportState s).epochValidators.mapM (unhex20 hex) =
      some s.epochValidators := addresses_of_inverts hhex s.epochValidators
  rw [importStateWith]
  simp only [importLedger_exportState hhex hs.linked, importHumanity_exportState hhex hs,
    importPrompt_exportState hhex hs.prompt, importZk_exportState hhex, hvalidators,
    Option.bind_eq_bind, Option.bind_some, MemState.setEpochValidators, hs.validators]
  rfl

end

theorem inverts_hexDecodeInto : Inverts hexDecodeInto := hexDecodeInto_hexEncode

theorem importState_exportState {s : MemState} (hs : s.Restorable) :
    importState (exportState s) = some s.unscoped :=
  importState_exportState_with inverts_hexDecodeInto hs

-- The bytes of a state around those of its scope.
theorem exists_around_scope (s : MemState) : ∃ front back, ∀ scope,
    stateBytes { s with zk := { s.zk with selfScope := scope } } =
      front ++ hashOption beBytes scope ++ back := by
  refine ⟨lenPrefixed (strBytes STATE_ROOT_VERSION) ++ (s.sections.take 12).flatten ++ [0x12#8],
    (s.sections.drop 13).flatten, fun scope => ?_⟩
  simp only [stateBytes, MemState.sections, List.take_succ_cons, List.take_zero,
    List.drop_succ_cons, List.drop_zero, List.flatten_cons, List.flatten_nil, List.append_assoc,
    List.nil_append, List.cons_append]
  rfl

-- The root commits to the scope.
theorem stateBytes_unscoped (s : MemState) :
    stateBytes s.unscoped = stateBytes s ↔ s.zk.selfScope = none := by
  constructor
  · intro h
    obtain ⟨front, back, haround⟩ := exists_around_scope s
    have hbytes : front ++ hashOption beBytes (none : Option Hash) ++ back =
        front ++ hashOption beBytes s.zk.selfScope ++ back := by
      rw [← haround none, ← haround s.zk.selfScope]
      exact h
    have hoption := List.append_cancel_left (List.append_cancel_right hbytes)
    cases hscope : s.zk.selfScope with
    | none => rfl
    | some scope =>
      rw [hscope] at hoption
      exact absurd (List.cons.inj hoption).1 (by decide)
  · intro h
    rw [MemState.unscoped, ← h]

-- In every run whose effects come under their own hashes, what is written of a state is read back
-- as the state without its scope. The root of a state that has one is another.
theorem snapshot_restores {host : Host} (hhost : host.Hashes) (g : Genesis) {es : List Event}
    (hes : ∀ e ∈ es, HashedEvent e) {s : MemState} (hrun : run host g.state es = some s) :
    importState (exportState s) = some s.unscoped ∧
      (stateBytes s.unscoped = stateBytes s ↔ g.scope = none) := by
  obtain ⟨hs, hscope⟩ := g.rebuildable.run hhost hes hrun
  refine ⟨importState_exportState hs.toRestorable, ?_⟩
  rw [stateBytes_unscoped, hscope, g.unseeded.2.2]

-- The payment of the contract, on a chain whose genesis sets a scope.
def scopedPair : Genesis := { fundedPair with scope := some 7#256 }

theorem hashes_payingHost : payingHost.Hashes := fun _ _ _ => rfl

theorem hashed_paidEscrow : ∀ e ∈ paidEscrow, HashedEvent e := by
  intro e he tx htx
  simp only [paidEscrow, List.mem_cons, List.not_mem_nil, or_false] at he
  obtain rfl | rfl | rfl := he
  all_goals
    cases htx
    trivial

theorem snapshot_restores_scoped : ∃ s,
    run payingHost scopedPair.state paidEscrow = some s ∧
    (importState (exportState s) = some s.unscoped ∧
      (stateBytes s.unscoped = stateBytes s ↔ scopedPair.scope = none)) ∧
    s.prompt.execCases.rows ≠ [] := by
  have hready : (run payingHost scopedPair.state paidEscrow).any (fun s =>
      s.prompt.execCases.rows ≠ []) = true := by decide +kernel
  obtain ⟨s, hrun, hcases⟩ := (Option.any_eq_true _ _).mp hready
  exact ⟨s, hrun, snapshot_restores hashes_payingHost scopedPair hashed_paidEscrow hrun,
    of_decide_eq_true hcases⟩

end Ubi2.Rpc
