import Ubi2.Rpc.Anchor
import Ubi2.Rpc.Recovery
import Ubi2.RuntimeWasm.Kernel

namespace Ubi2.RuntimeWasm.Snapshot

open Ubi2.Runtime Ubi2.Lib Ubi2.Lib.Encode Ubi2.Rpc Ubi2.Exec

-- The light client declares the records of the server once more, and writes the same of each.
def exportState (s : MemState) : StateDto := Rpc.exportState s

def encode (core : LightCore) : LightSnapshot where
  version := SNAPSHOT_VERSION
  chainId := core.chainId
  tip :=
    { number := core.tipNumber
      hash := hex32 core.tipHash
      stateRoot := hex32 core.tipStateRoot
      timestamp := core.tipTimestamp }
  state := exportState core.state

namespace LightCore

def setValidatorSet (core : LightCore) (validatorSet : List Address) : LightCore :=
  { core with validatorSet := validatorSet }

-- `render` writes the JSON.
def serialize (render : LightSnapshot → Bytes) (core : LightCore) : Bytes := render (encode core)

-- The page is loaded again: the client restores what it stored, and pins its validators.
def resumed (render : LightSnapshot → Bytes) (parse : Bytes → Except String LightSnapshot)
    (validatorSet : List Address) (core : LightCore) : Option (Except String LightCore) :=
  (decode parse (core.serialize render)).map fun r => r.map (setValidatorSet · validatorSet)

end LightCore

-- What was written reads back.
theorem inverts_hexDecodeInto : Inverts hexDecodeInto := by
  intro bytes
  rw [hexDecodeInto, strBytes_hexEncode]
  refine congrArg some ?_
  induction bytes with
  | nil => rfl
  | cons b bytes ih =>
    obtain ⟨hi, lo, hdigits, hb⟩ := hexDigits_eq b
    have hnext : ∀ i, hexByteAt (hi :: lo :: bytes.flatMap hexDigits) (i + 1) =
        hexByteAt (bytes.flatMap hexDigits) i := by
      intro i
      have hlow : (i + 1) * 2 = i * 2 + 1 + 1 := by omega
      have hhigh : (i + 1) * 2 + 1 = i * 2 + 1 + 1 + 1 := by omega
      rw [hexByteAt, hhigh, hlow]
      simp only [List.getElem?_cons_succ, hexByteAt]
    rw [List.length_cons, List.range_succ_eq_map, List.map_cons, List.map_map, List.flatMap_cons,
      hdigits]
    simp only [List.cons_append, List.nil_append, Function.comp_def, Nat.succ_eq_add_one, hnext, ih]
    rw [show hexByteAt (hi :: lo :: bytes.flatMap hexDigits) 0 = b from hb]

theorem importState_exportState {s : MemState} (hs : s.Restorable) :
    importState (exportState s) = some s.unscoped :=
  importState_exportState_with inverts_hexDecodeInto hs

-- A restored client is where it was, but for the scope and the validators.
theorem decode_serialize {render : LightSnapshot → Bytes}
    {parse : Bytes → Except String LightSnapshot} {core : LightCore}
    (hjson : parse (core.serialize render) = .ok (encode core)) (hs : core.state.Restorable) :
    decode parse (core.serialize render) =
      some (.ok { core with state := core.state.unscoped, validatorSet := [] }) := by
  have hstate : importState (encode core).state = some core.state.unscoped :=
    importState_exportState hs
  have hhash : unhex32 hexDecodeInto (encode core).tip.hash = some core.tipHash :=
    unhex32_of_inverts inverts_hexDecodeInto core.tipHash
  have hroot : unhex32 hexDecodeInto (encode core).tip.stateRoot = some core.tipStateRoot :=
    unhex32_of_inverts inverts_hexDecodeInto core.tipStateRoot
  have hrestore : restore (encode core) =
      some { core with state := core.state.unscoped, validatorSet := [] } := by
    rw [restore, hstate, Option.bind_eq_bind, Option.bind_some, hhash, Option.bind_eq_bind,
      Option.bind_some, hroot]
    rfl
  have hversion : (encode core).version = SNAPSHOT_VERSION := rfl
  rw [decode, hjson]
  dsimp only
  rw [if_neg (not_not.mpr hversion), hrestore]
  rfl

theorem resumed_eq {render : LightSnapshot → Bytes} {parse : Bytes → Except String LightSnapshot}
    {core : LightCore} (hjson : parse (core.serialize render) = .ok (encode core))
    (hs : core.state.Restorable) (validatorSet : List Address) :
    core.resumed render parse validatorSet =
      some (.ok { core with state := core.state.unscoped, validatorSet := validatorSet }) := by
  rw [LightCore.resumed, decode_serialize hjson hs]
  rfl

-- The anchor that a node serves is taken where the state without its scope has its root.
theorem genesisImport_anchor {parse : Bytes → Except String StateDto} {s : MemState}
    (hs : s.Restorable) (hparse : parse (buildGenesisAnchor s).snapshot = .ok (Rpc.exportState s))
    (chainId : U64) (genesisHash : Hash) (genesisTime : U64) (validatorSet : List Address) :
    LightCore.genesisImport parse chainId genesisHash (buildGenesisAnchor s).stateRoot genesisTime
        (buildGenesisAnchor s).snapshot validatorSet =
      some (if stateRoot s.unscoped = stateRoot s then
        .ok
          { chainId := chainId
            state := s.unscoped
            tipNumber := 0
            tipHash := genesisHash
            tipStateRoot := stateRoot s
            tipTimestamp := genesisTime
            validatorSet := validatorSet }
      else .error (.GenesisRootMismatch (stateRoot s) (stateRoot s.unscoped))) := by
  have hstate : decodeState parse (buildGenesisAnchor s).snapshot = some (.ok s.unscoped) := by
    rw [decodeState, hparse]
    dsimp only
    rw [show importState (Rpc.exportState s) = some s.unscoped from importState_exportState hs]
    rfl
  have hpinned : (buildGenesisAnchor s).stateRoot = stateRoot s := rfl
  rw [LightCore.genesisImport, hstate, hpinned]
  dsimp only
  generalize stateRoot s.unscoped = root
  by_cases hsame : root = stateRoot s
  · rw [if_neg (not_not.mpr hsame), if_pos hsame]
  · rw [if_pos hsame, if_neg hsame]

end Ubi2.RuntimeWasm.Snapshot
