import Ubi2.Lib.Word
import Ubi2.Lib.Table
import Ubi2.Lib.Encode
import Ubi2.Lib.Run
import Ubi2.Lib.Buckets
import Ubi2.Runtime.Lifecycle.Frame
import Ubi2.Runtime.Contracts.Frame
import Ubi2.Runtime.Nonce
import Ubi2.Exec.Moves
import Ubi2.Exec.Replay
import Ubi2.Exec.Accrual
import Ubi2.Exec.Revocation
import Ubi2.Exec.Reregistration
import Ubi2.Exec.Passports
import Ubi2.Exec.Effects
import Ubi2.Exec.Commitment
import Ubi2.Rpc.Rejection
import Ubi2.Rpc.Agreement
import Ubi2.Rpc.Inclusion
import Ubi2.Rpc.Serving
import Ubi2.Rpc.Retention
import Ubi2.RuntimeWasm.Snapshot
import Ubi2.StatusSnapshot.Transparency
import Ubi2.StatusSnapshot.Format
import Ubi2.LightClient.Progress
import Ubi2.LightClient.Wire
import Ubi2.Node.Blame
import Ubi2.Node.Genesis
import Ubi2.Node.Production
import Ubi2.Node.Reachability
import Ubi2.Node.Sync
import Ubi2.StatusDelta.Witnesses
import Ubi2.Contracts.Issuance
import Ubi2.Contracts.Acceptance
import Ubi2.Contracts.Presentation
import Ubi2.StatusSnapshot.Advance
import Ubi2.StatusSnapshot.OneFormat
import Ubi2.StatusSnapshot.Reconcile
import Ubi2.StatusOperator.Publication
import Ubi2.Lib.Keyed
import Ubi2.StatusOperator.Fleet
import Ubi2.StatusOperator.FleetReport
import Ubi2.Runtime.Ledger.Streaming
import Ubi2.Runtime.Atomicity
import Ubi2.Runtime.QuorumFinality
import Ubi2.Exec.Spendable
import Ubi2.Exec.Supply
import Ubi2.Exec.Halting
import Ubi2.Exec.Trust
import Ubi2.Exec.Verdicts
import Ubi2.Exec.Invocations
import Ubi2.Rpc.Recovery
import Ubi2.RuntimeWasm.Follow
import Ubi2.Rpc.EffectCodec
import Ubi2.Network.FrameCodec
import Ubi2.Network.Limits
import Ubi2.Contracts.Ballots
import Ubi2.Rpc.ForkBranch
import Ubi2.Exec.Statuses
import Ubi2.Contracts.SelfIssuance
import Ubi2.Rpc.Transcript
import Ubi2.Rpc.Traced
import Ubi2.ZkIdentity.RoundTrip
import Ubi2.ZkIdentity.HashesBind
