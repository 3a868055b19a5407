import Ubi2.Rpc.Persist

namespace Ubi2.RuntimeWasm.Snapshot

open Ubi2.Runtime Ubi2.Lib Ubi2.Lib.Encode Ubi2.Rpc

def SNAPSHOT_VERSION : U32 := 1#32

structure TipDto where
  number : Nat
  hash : String
  stateRoot : String
  timestamp : U64

structure LightSnapshot where
  version : U32
  chainId : U64
  tip : TipDto
  state : StateDto

-- The verified state of the light client and the tip it was verified at. A restored one has
-- no validators yet.
structure LightCore where
  chainId : U64
  state : MemState
  tipNumber : Nat
  tipHash : Hash
  tipStateRoot : Hash
  tipTimestamp : U64
  validatorSet : List Address

-- What is missing from the string is read as the digit zero.
def hexByteAt (bytes : Bytes) (i : Nat) : Byte :=
  hexByte ((bytes[i * 2]?).getD 48#8) ((bytes[i * 2 + 1]?).getD 48#8)

def hexDecodeInto : HexReader := fun s n => some ((List.range n).map (hexByteAt (strBytes s)))

def importState (dto : StateDto) : Option MemState := importStateWith hexDecodeInto dto

-- `parse` reads the JSON. `none` is a panic.
def decodeState (parse : Bytes → Except String StateDto) (bytes : Bytes) :
    Option (Except String MemState) :=
  match parse bytes with
  | .error e => some (.error s!"genesis state decode failed: {e}")
  | .ok dto => (importState dto).map .ok

-- `LightCore::from_parts` on the imported state.
def restore (snap : LightSnapshot) : Option LightCore := do
  let state ← importState snap.state
  let tipHash ← unhex32 hexDecodeInto snap.tip.hash
  let tipStateRoot ← unhex32 hexDecodeInto snap.tip.stateRoot
  pure
    { chainId := snap.chainId
      state := state
      tipNumber := snap.tip.number
      tipHash := tipHash
      tipStateRoot := tipStateRoot
      tipTimestamp := snap.tip.timestamp
      validatorSet := [] }

def decode (parse : Bytes → Except String LightSnapshot) (bytes : Bytes) :
    Option (Except String LightCore) :=
  match parse bytes with
  | .error e => some (.error s!"snapshot decode failed: {e}")
  | .ok snap =>
    if snap.version ≠ SNAPSHOT_VERSION then
      let version := snap.version.toNat
      some (.error s!"snapshot version {version} != supported 1")
    else (restore snap).map .ok

-- The light client reads any hex string.
def AnyHex (_ : String) (_ : Nat) : Prop := True

theorem isSome_hexDecodeInto (s : String) (n : Nat) : (hexDecodeInto s n).isSome ↔ AnyHex s n := by
  simp [hexDecodeInto, AnyHex]

theorem isSome_importState (dto : StateDto) : (importState dto).isSome ↔ dto.Readable AnyHex :=
  isSome_importStateWith isSome_hexDecodeInto dto

theorem isSome_restore (snap : LightSnapshot) :
    (restore snap).isSome ↔ snap.state.Readable AnyHex := by
  have hhex := isSome_unhex32 isSome_hexDecodeInto
  have h : (restore snap).isSome ↔ snap.state.Readable AnyHex ∧ AnyHex snap.tip.hash 32 ∧
      AnyHex snap.tip.stateRoot 32 :=
    isSome_bind_iff (isSome_importState _) fun _ =>
      isSome_bind_iff (hhex _) fun _ => isSome_bind_pure_iff (hhex _)
  rw [h]
  simp [AnyHex]

theorem isSome_decodeState (parse : Bytes → Except String StateDto) (bytes : Bytes) :
    (decodeState parse bytes).isSome ↔
      ∀ dto, parse bytes = .ok dto → dto.Readable AnyHex := by
  rw [decodeState]
  cases parse bytes with
  | error e => simp
  | ok dto =>
    rw [isSome_map_iff (isSome_importState dto)]
    simp

theorem isSome_decode (parse : Bytes → Except String LightSnapshot) (bytes : Bytes) :
    (decode parse bytes).isSome ↔ ∀ snap, parse bytes = .ok snap →
      snap.version = SNAPSHOT_VERSION → snap.state.Readable AnyHex := by
  rw [decode]
  cases parse bytes with
  | error e => simp
  | ok snap =>
    by_cases hversion : snap.version = SNAPSHOT_VERSION
    · simp only [if_neg (not_not.mpr hversion), isSome_map_iff (isSome_restore snap)]
      simp [hversion]
    · simp [hversion]

-- When each of the four decoders of a snapshot returns.
theorem snapshot_decoders_return_iff (host : NodeHost) (parseU256 : String → Option U256)
    (parseState : Bytes → Except String StateDto)
    (parseLight : Bytes → Except String LightSnapshot)
    (parseChain : Bytes → Except String ChainSnapshot) :
    (∀ bytes, (decodeState parseState bytes).isSome ↔
      ∀ dto, parseState bytes = .ok dto → dto.Readable AnyHex) ∧
    (∀ bytes, (decode parseLight bytes).isSome ↔
      ∀ snap, parseLight bytes = .ok snap → snap.version = SNAPSHOT_VERSION →
        snap.state.Readable AnyHex) ∧
    (∀ dto, (Rpc.importState dto).isSome ↔ dto.Readable Fits) ∧
    ∀ file, (load host parseU256 parseChain file).isSome ↔
      ∀ bytes snap, file = .Contents bytes → parseChain bytes = .ok snap →
        snap.blocks.head?.map BlockDto.number = some 0 → snap.Readable host parseU256 :=
  ⟨isSome_decodeState parseState, isSome_decode parseLight, Rpc.isSome_importState,
    isSome_load host parseU256 parseChain⟩

-- A document with a case that is said to be committed and has no verdict.
def verdictlessText : String :=
  "\x7b\"accounts\":[],\"streams\":[],\"humans\":[],\"vouch_edges\":[]," ++
  "\"cleared_challenges\":[],\"cases\":[\x7b\"id\":0,\"subject\":\"\"," ++
  "\"challenger\":\"\",\"kind\":0,\"evidence_ref\":\"\",\"jury\":[],\"votes\":[]," ++
  "\"status\":1,\"committed\":null,\"opened_at\":0\x7d],\"jurors\":[]," ++
  "\"contracts\":[],\"exec_cases\":[],\"next_stream_id\":0,\"next_case_id\":1," ++
  "\"next_contract_id\":0,\"next_exec_case_id\":0\x7d"

def verdictlessState : StateDto where
  accounts := []
  streams := []
  humans := []
  vouchEdges := []
  clearedChallenges := []
  cases :=
    [{ id := 0, subject := "", challenger := "", kind := 0#8, evidenceRef := "", jury := []
       votes := [], status := 1#8, committed := none, openedAt := 0#64 }]
  jurors := []
  contracts := []
  execCases := []
  nextStreamId := 0
  nextCaseId := 1
  nextContractId := 0
  nextExecCaseId := 0

-- The JSON parser on that document.
def parseVerdictless (bytes : Bytes) : Except String StateDto :=
  if bytes = strBytes verdictlessText then .ok verdictlessState
  else .error "expected value at line 1 column 1"

-- The light client panics on it. The server panics on any address that is too short.
theorem snapshot_decoders_panic :
    decodeState parseVerdictless (strBytes verdictlessText) = none ∧
    Rpc.importState { verdictlessState with
      cases := [], cscaGovernance := some "00" } = none := by
  constructor
  · have hunreadable : ¬ verdictlessState.Readable AnyHex := by
      intro h
      obtain ⟨v, hv, -⟩ := (h.cases _ List.mem_cons_self).committed rfl
      cases hv
    rw [← Option.not_isSome_iff_eq_none, isSome_decodeState]
    intro h
    exact hunreadable (h _ (if_pos rfl))
  · rw [← Option.not_isSome_iff_eq_none, Rpc.isSome_importState]
    intro h
    have hlong : 2 * 20 ≤ (strBytes "00").length := h.cscaGovernance "00" rfl
    exact absurd hlong (by decide)

end Ubi2.RuntimeWasm.Snapshot
