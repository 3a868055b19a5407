import Ubi2.Lib.Encode
import Ubi2.Runtime.Humanity

namespace Ubi2.Runtime

open Lib Lib.Encode

def CONTRACT_HUB : Address := 0x5043#160

-- The escrow address of a contract: the zero prefix of the hub, `PC`, then the id in
-- eight big-endian bytes.
def contractAddress (id : ContractId) : Address :=
  (0x5043#160 <<< 64) ||| (BitVec.ofNat 64 id).setWidth 160

def strBytes (s : String) : Bytes :=
  s.toUTF8.data.toList.map UInt8.toBitVec

inductive Op where
  | Transfer (to_ : Address) (amount : U128)
  | Refund (party : Address) (amount : U128)
  | OpenStream (to_ : Address) (rate deposit : U128)
  | StopStream (id : StreamId)
  | SetVar (key value : Hash)
  | Abort (reasonHash : Hash)
deriving DecidableEq, Repr

namespace Op

def tag : Op → U8
  | .Transfer .. => 0#8
  | .Refund .. => 1#8
  | .OpenStream .. => 2#8
  | .StopStream .. => 3#8
  | .SetVar .. => 4#8
  | .Abort .. => 5#8

def encode (op : Op) : Bytes :=
  op.tag :: match op with
    | .Transfer to_ amount => beBytes to_ ++ beBytes amount
    | .Refund party amount => beBytes party ++ beBytes amount
    | .OpenStream to_ rate deposit => beBytes to_ ++ beBytes rate ++ beBytes deposit
    | .StopStream id => natBytes 8 id
    | .SetVar key value => beBytes key ++ beBytes value
    | .Abort reasonHash => beBytes reasonHash

end Op

def FNV_PRIME : U64 := 0x100000001B3#64

-- The four lanes of the in-repo 256-bit hash, each started from its own base.
def fnvLanes : List U64 :=
  [ 0xcbf29ce484222325#64 ^^^ (1#64 * FNV_PRIME),
    (0x84222325cbf29ce4#64 * FNV_PRIME) ^^^ (2#64 * FNV_PRIME),
    0x10000000000001B3#64 ^^^ (3#64 * FNV_PRIME),
    0xff00ff00ff00ff00#64 ^^^ (4#64 * FNV_PRIME) ]

def fnvAbsorb (lane : U64) (data : Bytes) : U64 :=
  data.foldl (fun h b => (h ^^^ b.setWidth 64) * FNV_PRIME) lane

-- Lanes are finished with the mix of SplitMix64 and laid out big-endian.
def fnvFinish (lanes : List U64) : Hash :=
  lanes.foldl (fun acc lane => (acc <<< 64) ||| (splitMix lane).setWidth 256) 0#256

def fnv1a256 (data : Bytes) : Hash :=
  fnvFinish (fnvLanes.map (fun lane => fnvAbsorb lane data))

def encodeOps (ops : List Op) : Bytes :=
  natBytes 4 ops.length ++ ops.flatMap Op.encode

def effectHash (ops : List Op) : Hash :=
  fnv1a256 (encodeOps ops)

structure CanonicalEffect where
  ops : List Op
  effectHash : Hash
deriving DecidableEq, Repr

namespace CanonicalEffect

def new (ops : List Op) : CanonicalEffect :=
  { ops := ops, effectHash := Runtime.effectHash ops }

def noop : CanonicalEffect := new []

def abort (reasonHash : Hash) : CanonicalEffect := new [.Abort reasonHash]

def encode (e : CanonicalEffect) : Bytes := encodeOps e.ops

def isAbort (e : CanonicalEffect) : Bool :=
  match e.ops with
  | [.Abort _] => true
  | _ => false

end CanonicalEffect

inductive EffectTally where
  | Pending
  | Committed (effect : CanonicalEffect)
  | NoQuorum
deriving DecidableEq, Repr

-- `none` is the panic of the `expect` on the submission behind the committed token.
def tallyEffects (submissions : List (Address × CanonicalEffect))
    (jurySize quorum : Nat) : Option EffectTally :=
  let tokens := submissions.map (fun e => (e.1, e.2.effectHash))
  match quorumTally id (fun _ => true) tokens jurySize quorum with
  | .Pending => some .Pending
  | .NoQuorum => some .NoQuorum
  | .Committed tok =>
    match submissions.find? (fun e => e.2.effectHash = tok) with
    | none => none
    | some e => some (.Committed e.2)

structure ContractStateView where
  contractId : ContractId
  escrow : U128
  parties : List Address
  vars : List (Hash × Hash)
  streams : List StreamId
  now : U64
deriving DecidableEq, Repr

-- The AI seam of the contract layer.
structure ContractInterpreter where
  interpret : Bytes → ContractStateView → Bytes → CanonicalEffect

inductive ContractStatus where
  | Active
  | Terminated
deriving DecidableEq, Repr

abbrev VarTable := Table (fun e : Hash × Hash => e.1)

structure PromptContract where
  id : ContractId
  escrow : U128
  parties : List Address
  text : String
  textRef : Hash
  vars : VarTable
  status : ContractStatus
  deployBlock : U64
  deployTx : Hash
deriving DecidableEq

namespace PromptContract

def new (id : ContractId) (text : String) (textRef : Hash) (parties : List Address) :
    PromptContract :=
  { id := id, escrow := 0#128, parties := sortDedup parties, text := text
    textRef := textRef, vars := ∅, status := .Active
    deployBlock := 0#64, deployTx := 0#256 }

-- A binary search of the sorted parties finds an address exactly when it is a member.
def isParty (c : PromptContract) (addr : Address) : Bool :=
  addr ∈ c.parties

def sortedVars (c : PromptContract) : List (Hash × Hash) := c.vars.rows

end PromptContract

inductive ExecStatus where
  | Open
  | Committed (effect : CanonicalEffect)
  | Aborted
deriving DecidableEq, Repr

structure ExecCase where
  id : ExecCaseId
  contract : ContractId
  triggerRef : Hash
  invoker : Address
  jury : List Address
  effects : List (Address × CanonicalEffect)
  status : ExecStatus
  openedAt : U64
  resolvedAt : Option U64
deriving DecidableEq, Repr

def ExecCase.effectOf (c : ExecCase) (interpreter : Address) : Option CanonicalEffect :=
  (c.effects.find? (fun e => e.1 = interpreter)).map (fun e => e.2)

end Ubi2.Runtime
