import Ubi2.Node.Driver
import Ubi2.Rpc.ForkBranch
import Ubi2.Rpc.Replay

namespace Ubi2.Node

open Ubi2.Runtime Ubi2.Lib Ubi2.Rpc

section
variable (host : NodeHost) (validatorOverride : Option Address)

def Takes (parent : Chain) (b : WireBlock) : Prop :=
  ∃ produced parent', parent.validateAndApplyBlock host b validatorOverride =
    some (.ok produced, parent')

-- A block is by the author whose turn it is.
def Authored (v : List Address) (b : WireBlock) : Prop :=
  b.view < VIEW_MAX ∧ v[proposerIndex b.number b.view v.length]? = some b.proposer ∧
    host.recoverProposer (b.hash host) b.proposerSig = some b.proposer

end

section
variable {host : NodeHost} {chain parent : Chain} {b : WireBlock} {e : BlockError}
variable {validatorOverride : Option Address} {branch : List ForkBlockEntry}

end

end Ubi2.Node
