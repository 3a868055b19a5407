import Ubi2.Exec.Commitment
import Ubi2.Lib.Json
import Ubi2.Rpc.Serving

namespace Ubi2.Rpc

open Ubi2.Runtime Ubi2.Lib Ubi2.Lib.Encode

-- The state of a snapshot as a JSON value. The fields of an object are in the order of their
-- names, which is how a map of `serde_json` keeps them.
def optionJson {α : Type} (json : α → Json) : Option α → Json
  | none => .null
  | some a => json a

def arrayJson {α : Type} (json : α → Json) (l : List α) : Json := .arr (l.map json)

def wordJson {w : Nat} (v : BitVec w) : Json := .num v.toNat

-- A signed number.
def signedJson (v : I64) : Json :=
  if v.toInt < 0 then .minus v.toInt.natAbs else .num v.toInt.natAbs

def pairJson (e : String × String) : Json := .arr [.str e.1, .str e.2]

def AccountDto.json (a : AccountDto) : Json :=
  .obj
    [ ("address", .str a.address), ("last_settled_at", wordJson a.lastSettledAt),
      ("nonce", wordJson a.nonce), ("settled_balance", .str a.settledBalance),
      ("verified", .bool a.verified), ("verified_at", wordJson a.verifiedAt) ]

def StreamDto.json (s : StreamDto) : Json :=
  .obj
    [ ("deposit", .str s.deposit), ("drawn", .str s.drawn), ("from", .str s.from_),
      ("id", .num s.id), ("rate", .str s.rate), ("started_at", wordJson s.startedAt),
      ("status", wordJson s.status), ("stopped_at", wordJson s.stoppedAt), ("to", .str s.to_) ]

def VerdictDto.json (v : VerdictDto) : Json :=
  .obj
    [ ("confidence", wordJson v.confidence), ("reasons_hash", .str v.reasonsHash),
      ("verdict", wordJson v.verdict) ]

def HumanDto.json (h : HumanDto) : Json :=
  .obj
    [ ("address", .str h.address), ("assurance", wordJson h.assurance),
      ("liveness_ref", .str h.livenessRef), ("reputation", signedJson h.reputation),
      ("status", wordJson h.status), ("verified_at", wordJson h.verifiedAt),
      ("vouches_in", arrayJson .str h.vouchesIn) ]

def CscaDto.json (c : CscaDto) : Json :=
  .obj
    [ ("added_at", wordJson c.addedAt), ("country_code", .str c.countryCode),
      ("key_id", .str c.keyId), ("pubkey", .str c.pubkey), ("status", wordJson c.status) ]

def SelfIdentityRootDto.json (r : SelfIdentityRootDto) : Json :=
  .obj [("pinned_at_block", wordJson r.pinnedAtBlock), ("root", .str r.root)]

def SelfOfacRootDto.json (r : SelfOfacRootDto) : Json :=
  .obj
    [("kind", wordJson r.kind), ("pinned_at_block", wordJson r.pinnedAtBlock), ("root", .str r.root)]

def CaseDto.json (c : CaseDto) : Json :=
  .obj
    [ ("challenger", .str c.challenger), ("committed", optionJson VerdictDto.json c.committed),
      ("evidence_ref", .str c.evidenceRef), ("id", .num c.id), ("jury", arrayJson .str c.jury),
      ("kind", wordJson c.kind), ("opened_at", wordJson c.openedAt), ("status", wordJson c.status),
      ("subject", .str c.subject),
      ("votes", arrayJson (fun e => .arr [.str e.1, e.2.json]) c.votes) ]

def JurorDto.json (j : JurorDto) : Json :=
  .obj [("active", .bool j.active), ("address", .str j.address), ("stake", .str j.stake)]

def OpDto.json (o : OpDto) : Json :=
  .obj
    [ ("addr", optionJson .str o.addr), ("amount", optionJson .str o.amount),
      ("deposit", optionJson .str o.deposit), ("id", optionJson .num o.id),
      ("key", optionJson .str o.key), ("rate", optionJson .str o.rate), ("tag", wordJson o.tag),
      ("value", optionJson .str o.value) ]

def EffectDto.json (e : EffectDto) : Json :=
  .obj [("effect_hash", .str e.effectHash), ("ops", arrayJson OpDto.json e.ops)]

def ContractDto.json (c : ContractDto) : Json :=
  .obj
    [ ("deploy_block", wordJson c.deployBlock), ("deploy_tx", .str c.deployTx),
      ("escrow", .str c.escrow), ("id", .num c.id), ("parties", arrayJson .str c.parties),
      ("status", wordJson c.status), ("text", .str c.text), ("text_ref", .str c.textRef),
      ("vars", arrayJson pairJson c.vars) ]

def ExecCaseDto.json (c : ExecCaseDto) : Json :=
  .obj
    [ ("committed", optionJson EffectDto.json c.committed), ("contract", .num c.contract),
      ("effects", arrayJson (fun e => .arr [.str e.1, e.2.json]) c.effects), ("id", .num c.id),
      ("invoker", .str c.invoker), ("jury", arrayJson .str c.jury), ("opened_at", wordJson c.openedAt),
      ("resolved_at", optionJson wordJson c.resolvedAt), ("status", wordJson c.status),
      ("trigger_ref", .str c.triggerRef) ]

def StateDto.json (s : StateDto) : Json :=
  .obj
    [ ("accounts", arrayJson AccountDto.json s.accounts),
      ("attribute_store",
        arrayJson (fun e => .arr [.str e.1, .arr [.str e.2.1, .str e.2.2.1, .str e.2.2.2]])
          s.attributeStore),
      ("cases", arrayJson CaseDto.json s.cases),
      ("cleared_challenges", arrayJson pairJson s.clearedChallenges),
      ("contracts", arrayJson ContractDto.json s.contracts),
      ("csca", arrayJson CscaDto.json s.csca),
      ("csca_governance", optionJson .str s.cscaGovernance),
      ("epoch_validators", arrayJson .str s.epochValidators),
      ("exec_cases", arrayJson ExecCaseDto.json s.execCases),
      ("humans", arrayJson HumanDto.json s.humans),
      ("jurors", arrayJson JurorDto.json s.jurors),
      ("next_case_id", .num s.nextCaseId),
      ("next_contract_id", .num s.nextContractId),
      ("next_exec_case_id", .num s.nextExecCaseId),
      ("next_stream_id", .num s.nextStreamId),
      ("nullifiers", arrayJson .str s.nullifiers),
      ("self_identity_roots", arrayJson SelfIdentityRootDto.json s.selfIdentityRoots),
      ("self_ofac_roots", arrayJson SelfOfacRootDto.json s.selfOfacRoots),
      ("streams", arrayJson StreamDto.json s.streams),
      ("vouch_edges", arrayJson pairJson s.vouchEdges) ]

def genesisStateJson (s : MemState) : Json := (exportState s).json

theorem arrayJson_inj {α : Type} {json : α → Json} (hjson : Function.Injective json) {l m : List α} :
    arrayJson json l = arrayJson json m ↔ l = m := by
  rw [arrayJson, arrayJson, Json.arr.injEq, List.map_inj_right hjson]

theorem str_injective : Function.Injective Json.str := fun _ _ h => Json.str.inj h

theorem wordJson_inj {w : Nat} {v v' : BitVec w} : wordJson v = wordJson v' ↔ v = v' := by
  rw [wordJson, wordJson, Json.num.injEq, BitVec.toNat_inj]

-- The parts of a state that can be told from its JSON here.
theorem StateDto.json_eq {s t : StateDto} (h : s.json = t.json) :
    s.accounts.map AccountDto.json = t.accounts.map AccountDto.json ∧
      s.epochValidators = t.epochValidators := by
  simp only [StateDto.json, Json.obj.injEq, List.cons.injEq, Prod.mk.injEq] at h
  obtain ⟨⟨-, haccounts⟩, -, -, -, -, -, -, ⟨-, hvalidators⟩, -⟩ := h
  exact ⟨Json.arr.inj haccounts, (arrayJson_inj str_injective).mp hvalidators⟩

-- What a light client is given of genesis.
structure GenesisAnchor where
  stateRoot : Hash
  snapshot : Bytes
deriving DecidableEq

def buildGenesisAnchor (s : MemState) : GenesisAnchor where
  stateRoot := stateRoot s
  snapshot := strBytes (genesisStateJson s).compact

-- Two states with one anchor have the same text, so the same accounts and the same validators.
theorem buildGenesisAnchor_eq {s t : MemState} (h : buildGenesisAnchor s = buildGenesisAnchor t) :
    s.ledger.accounts.rows.map (fun a => (exportAccount a).json) =
        t.ledger.accounts.rows.map (fun a => (exportAccount a).json) ∧
      s.epochValidators.length = t.epochValidators.length := by
  have htext : (genesisStateJson s).compact = (genesisStateJson t).compact :=
    Exec.strBytes_injective (congrArg GenesisAnchor.snapshot h)
  obtain ⟨haccounts, hvalidators⟩ := StateDto.json_eq (Json.compact_inj.mp htext)
  have hlength := congrArg List.length hvalidators
  simp only [exportState, List.map_map, List.length_map] at haccounts hlength
  exact ⟨haccounts, hlength⟩

namespace Chain

-- The anchor is sealed once: over the state with the validators of genesis, or over a state
-- that is given.
def sealGenesis (chain : Chain) : Chain :=
  let chain := chain.ensureEpochValidatorsSeeded
  { chain with genesisAnchor := chain.genesisAnchor.or (some chain.inner.state) }

def sealGenesisFromState (chain : Chain) (genesisState : MemState) : Chain :=
  { chain with genesisAnchor := chain.genesisAnchor.or (some genesisState) }

-- The anchor that is served.
def servedAnchor (chain : Chain) : Option GenesisAnchor :=
  chain.genesisAnchor.map buildGenesisAnchor

end Chain

section
variable {host : NodeHost} {validatorOverride : Option Address} {chain chain' : Chain}
variable {s : MemState}

-- An anchor that is sealed stays as it is.
theorem sealAnchor_some (number : Nat) (t : MemState) : sealAnchor (some s) number t = some s := by
  rw [sealAnchor]
  split <;> rfl

theorem genesisAnchor_validateAndApplyBlock {w : WireBlock} {r : Except BlockError Block}
    (hsealed : chain.genesisAnchor = some s)
    (h : chain.validateAndApplyBlock host w validatorOverride = some (r, chain')) :
    chain'.genesisAnchor = some s := by
  cases r with
  | error e =>
    rcases validateAndApplyBlock_rejected h with ⟨rfl, -⟩ | ⟨_, _, _, -, -, -, -, -, -, rfl⟩
    · exact hsealed
    · exact hsealed ▸ sealAnchor_some _ _
  | ok produced =>
    rcases validateAndApplyBlock_cases h with ⟨e, he, -⟩ | ⟨_, _, _, -, -, -, -, -, -, rfl⟩
    · cases he
    · exact hsealed ▸ sealAnchor_some _ _

theorem genesisAnchor_applyBranch {branch : List ForkBlockEntry} {r : Except BlockError Unit}
    (hsealed : chain.genesisAnchor = some s)
    (h : chain.applyBranch host validatorOverride branch = some (r, chain')) :
    chain'.genesisAnchor = some s :=
  applyBranch_keeps (P := fun c => c.genesisAnchor = some s)
    (fun _ _ _ _ hP happly => genesisAnchor_validateAndApplyBlock hP happly)
    (fun _ _ hP => hP) hsealed h

theorem genesisAnchor_considerCompetingBlock {w : WireBlock}
    {r : Except BlockError (Option Block)} (hsealed : chain.genesisAnchor = some s)
    (h : chain.considerCompetingBlock host w validatorOverride = some (r, chain')) :
    chain'.genesisAnchor = some s := by
  rcases considerCompetingBlock_cases h with ⟨-, rfl | rfl⟩ | ⟨candidate, -, hreorg⟩
  · exact hsealed
  · exact hsealed
  · rcases executeReorg_cases hreorg with ⟨-, rfl⟩ |
      ⟨_, -, ⟨_, failed, -, hbranch, rfl⟩ | ⟨applied, -, hbranch, rfl⟩⟩
    · exact hsealed
    · have hkept := genesisAnchor_applyBranch (by exact hsealed) hbranch
      exact hkept
    · have hkept := genesisAnchor_applyBranch (by exact hsealed) hbranch
      exact hkept

-- A node that goes on running, rather than come back from a snapshot.
def NodeStep.Runs : NodeStep → Prop
  | .restart _ _ => False
  | _ => True

theorem genesisAnchor_nodeStep {parseU256 : String → Option U256} {a : NodeStep}
    (hruns : a.Runs) (hsealed : chain.genesisAnchor = some s)
    (h : chain.nodeStep host parseU256 validatorOverride a = some chain') :
    chain'.genesisAnchor = some s := by
  cases a with
  | submit now raw =>
    cases h
    rcases ingestRawTx_cases (Prod.eta (chain.ingestRawTx host now raw)).symm with
      ⟨_, -, heq⟩ | ⟨_, -, -, -, heq⟩
    · rw [heq]
      exact hsealed
    · rw [heq]
      exact hsealed
  | apply w =>
    rw [Chain.nodeStep] at h
    split at h
    · cases h
    · rename_i happly
      cases h
      have hkept := genesisAnchor_validateAndApplyBlock hsealed happly
      exact hkept
    · rename_i hreject
      cases h
      exact genesisAnchor_validateAndApplyBlock hsealed hreject
  | consider w =>
    rw [Chain.nodeStep] at h
    split at h
    · cases h
    · rename_i hconsider
      cases h
      have hkept := genesisAnchor_considerCompetingBlock hsealed hconsider
      exact hkept
    · rename_i hconsider
      cases h
      exact genesisAnchor_considerCompetingBlock hsealed hconsider
    · rename_i hconsider
      cases h
      exact genesisAnchor_considerCompetingBlock hsealed hconsider
  | produce timestamp view =>
    obtain ⟨⟨b, _⟩, hproduce, rfl⟩ := Option.map_eq_some_iff.mp h
    obtain ⟨_, -, -, rfl⟩ := executeBlock_eq_some hproduce
    exact hsealed ▸ sealAnchor_some _ _
  | consult =>
    cases h
    exact hsealed
  | restart chainId genesisTime => exact hruns.elim

theorem genesisAnchor_nodeRun {parseU256 : String → Option U256} {steps : List NodeStep}
    (hruns : ∀ a ∈ steps, a.Runs) (hsealed : chain.genesisAnchor = some s)
    (h : chain.nodeRun host parseU256 validatorOverride steps = some chain') :
    chain'.genesisAnchor = some s := by
  induction steps generalizing chain with
  | nil =>
    cases h
    exact hsealed
  | cons a steps ih =>
    obtain ⟨chain₁, hfirst, hrest⟩ := Option.bind_eq_some_iff.mp h
    have hsealed₁ := genesisAnchor_nodeStep (hruns a List.mem_cons_self) hsealed hfirst
    exact ih (fun a' ha' => hruns a' (List.mem_cons_of_mem _ ha')) hsealed₁ hrest

end

end Ubi2.Rpc
