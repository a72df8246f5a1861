import Conclave.Context.RoundRobin
import Conclave.Describe
import Conclave.Ed25519.Scheme
import Conclave.Metrics.Exposition
import Conclave.Runner
import Conclave.Settings.Load
import Conclave.Cluster
import Conclave.Proofs.Message.Aggregate
import Conclave.Proofs.Merkle.Tree
import Conclave.Proofs.Merkle.Binding
import Conclave.Proofs.Tally
import Conclave.Proofs.Assembly.Agreement
import Conclave.Proofs.Assembly.Rounds
import Conclave.Proofs.Instance.Streams
import Conclave.Proofs.Wire.RoundTrip
import Conclave.Proofs.Wire.Size
import Conclave.Proofs.Instance.Sending
import Conclave.Proofs.Instance.Invariant
import Conclave.Proofs.Instance.Order
import Conclave.Proofs.Instance.Faults
import Conclave.Proofs.Node.Change
import Conclave.Proofs.Node.Decisions
import Conclave.Proofs.Node.Faults
import Conclave.Proofs.Node.Clock
import Conclave.Proofs.Instance.Network
import Conclave.Proofs.Node.Calls
import Conclave.Proofs.Node.Decided
import Conclave.Proofs.Node.Network
import Conclave.Proofs.Node.Disk
import Conclave.Proofs.Node.Heights
import Conclave.Proofs.Node.Archive
import Conclave.Proofs.Instance.Rejection
import Conclave.Proofs.Instance.Redelivery
import Conclave.Proofs.Node.CatchUp
import Conclave.Proofs.Node.Independence
import Conclave.Proofs.Instance.Justification
import Conclave.Proofs.Instance.Proposals
import Conclave.Proofs.Instance.Polling
import Conclave.Proofs.Message.Binding
import Conclave.Proofs.Instance.Proposable
import Conclave.Proofs.Wire.Refusal
import Conclave.Proofs.Tally.Largest
import Conclave.Proofs.Instance.Quorums
import Conclave.Proofs.Instance.LatestCall
import Conclave.Proofs.Node.Rejection
import Conclave.Proofs.Timer.Delivery
import Conclave.Proofs.Timer.Tasks
