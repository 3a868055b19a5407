import Ubi2.RuntimeWasm.Snapshot
import Ubi2.RuntimeWasm.Wire

namespace Ubi2.RuntimeWasm.Snapshot

open Ubi2.Runtime Ubi2.Lib Ubi2.Lib.Encode Ubi2.Lib.Decode Ubi2.Rpc Ubi2.Exec

inductive VerifyError where
  | BadWire (e : Network.WireError)
  | ShallowVerify
  | NonContiguous (tip got : Nat)
  | WrongParent
  | BadTimestamp
  | WrongProposer
  | UnauthorizedProposer (proposer : Address)
  | UndecodableTx
  | StateRootMismatch (expected got : Hash)
  | GenesisRootMismatch (expected got : Hash)
  | BadGenesisSnapshot (e : String)

namespace LightCore

-- `none` is a panic of the snapshot decoder.
def genesisImport (parse : Bytes → Except String StateDto) (chainId : U64)
    (genesisHash pinnedStateRoot : Hash) (genesisTime : U64) (genesisSnapshot : Bytes)
    (validatorSet : List Address) : Option (Except VerifyError LightCore) :=
  match decodeState parse genesisSnapshot with
  | none => none
  | some (.error e) => some (.error (.BadGenesisSnapshot e))
  | some (.ok state) =>
    if stateRoot state ≠ pinnedStateRoot then
      some (.error (.GenesisRootMismatch pinnedStateRoot (stateRoot state)))
    else
      some (.ok
        { chainId := chainId
          state := state
          tipNumber := 0
          tipHash := genesisHash
          tipStateRoot := pinnedStateRoot
          tipTimestamp := genesisTime
          validatorSet := validatorSet })

-- The checks of a header against the verified tip, before anything is executed.
def headerError (host : NodeHost) (core : LightCore) (block : WireBlock)
    (expectedProposer : Option Address) : Option VerifyError :=
  if ¬ shallowVerify host block then some .ShallowVerify
  else if block.number ≠ core.tipNumber + 1 then
    some (.NonContiguous core.tipNumber block.number)
  else if block.parentHash ≠ core.tipHash then some .WrongParent
  else if block.timestamp ≤ core.tipTimestamp then some .BadTimestamp
  else if expectedProposer.any (fun exp => block.proposer ≠ exp) then some .WrongProposer
  else if core.validatorSet ≠ [] ∧ block.proposer ∉ core.validatorSet then
    some (.UnauthorizedProposer block.proposer)
  else none

-- The roots of the trial state against those of the header. A wrong root of the
-- transactions is reported under the name of the other one.
def commitTrial (host : NodeHost) (core : LightCore) (block : WireBlock) (trial : MemState) :
    Except VerifyError LightCore :=
  if recomputeTxsRoot host block ≠ block.txsRoot then
    .error (.StateRootMismatch block.stateRoot (stateRoot trial))
  else if stateRoot trial ≠ block.stateRoot then
    .error (.StateRootMismatch block.stateRoot (stateRoot trial))
  else
    .ok { core with
      state := trial
      tipNumber := block.number
      tipHash := hash host block
      tipStateRoot := stateRoot trial
      tipTimestamp := block.timestamp }

-- `none` is a panic of the re-execution.
def applyDecoded (host : NodeHost) (core : LightCore) (block : WireBlock)
    (expectedProposer : Option Address) : Option (Except VerifyError LightCore) :=
  match core.headerError host block expectedProposer with
  | some e => some (.error e)
  | none =>
    match block.rawTxs.mapM host.decodePendingTx with
    | none => some (.error .UndecodableTx)
    | some pending =>
      (applyOps host.toHost (blockCtx host block.number block.parentHash block.timestamp block.view)
        core.state (pending.map kernelTxFromPending)).map
        fun (_, trial) => core.commitTrial host block trial

def applyBlock (host : NodeHost) (core : LightCore) (wire : Bytes)
    (expectedProposer : Option Address) : Option (Except VerifyError LightCore) :=
  match RuntimeWasm.decode wire with
  | .error e => some (.error (.BadWire e))
  | .ok block => core.applyDecoded host block expectedProposer

variable {host : NodeHost} {core core' : LightCore} {block : WireBlock} {wire : Bytes}
  {expectedProposer : Option Address}

theorem number_of_headerError (h : core.headerError host block expectedProposer = none) :
    block.number = core.tipNumber + 1 := by
  by_contra hnumber
  rw [headerError] at h
  by_cases hshallow : shallowVerify host block
  · simp [hshallow, hnumber] at h
  · simp [hshallow] at h

theorem tipNumber_commitTrial {trial : MemState}
    (h : core.commitTrial host block trial = .ok core') : core'.tipNumber = block.number := by
  rw [commitTrial] at h
  by_cases htxs : recomputeTxsRoot host block ≠ block.txsRoot
  · simp [htxs] at h
  by_cases hroot : stateRoot trial ≠ block.stateRoot
  · simp [htxs, hroot] at h
  rw [if_neg htxs, if_neg hroot] at h
  cases h
  rfl

-- A block the kernel takes is the one above the verified tip, and becomes the tip.
theorem tipNumber_applyDecoded
    (h : core.applyDecoded host block expectedProposer = some (.ok core')) :
    block.number = core.tipNumber + 1 ∧ core'.tipNumber = core.tipNumber + 1 := by
  rw [applyDecoded] at h
  cases hheader : core.headerError host block expectedProposer with
  | some e => simp [hheader] at h
  | none =>
    have hnumber := number_of_headerError hheader
    cases hdecode : block.rawTxs.mapM host.decodePendingTx with
    | none => simp [hheader, hdecode] at h
    | some pending =>
      simp only [hheader, hdecode, Option.map_eq_some_iff] at h
      obtain ⟨⟨outcomes, trial⟩, -, hcommit⟩ := h
      exact ⟨hnumber, (tipNumber_commitTrial hcommit).trans hnumber⟩

-- The number comes first on the wire.
theorem number_of_decode (h : RuntimeWasm.decode wire = .ok block) :
    8 ≤ wire.length ∧ ofBytes (wire.take 8) = block.number := by
  obtain ⟨hfits, rfl, -⟩ := decode_ok_iff.mp h
  have hwire : Network.encode block = natBytes 8 block.number ++
      (Network.encode block).drop 8 := by
    simp [Network.encode, Rpc.headerPreimage]
  rw [hwire]
  constructor
  · simp
  · rw [List.take_left' (length_natBytes 8 block.number)]
    exact ofBytes_natBytes hfits.number

theorem tipNumber_applyBlock
    (h : core.applyBlock host wire expectedProposer = some (.ok core')) :
    (8 ≤ wire.length ∧ ofBytes (wire.take 8) = core.tipNumber + 1) ∧
      core'.tipNumber = core.tipNumber + 1 := by
  rw [applyBlock] at h
  cases hdecode : RuntimeWasm.decode wire with
  | error e => simp [hdecode] at h
  | ok block =>
    simp only [hdecode] at h
    obtain ⟨hnumber, htip⟩ := tipNumber_applyDecoded h
    obtain ⟨hlength, hfirst⟩ := number_of_decode hdecode
    exact ⟨⟨hlength, hfirst.trans hnumber⟩, htip⟩

end LightCore

end Ubi2.RuntimeWasm.Snapshot
