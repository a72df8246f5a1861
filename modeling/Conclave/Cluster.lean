import Conclave.Node.Basic
import Conclave.Wire.Decode
import Conclave.Wire.Encode

/-!
# Clusters

The nodes of a committee, connected by a queue of messages under way. What a node broadcasts is
encoded and decoded, and a copy for each node, the sender included, is put at the end of the queue.
Any message under way may be delivered or lost, in any order.

* `start`, `timeout`, `deliverTo` run one operation of one node;
* `deliver` and `drop` take a message out of the queue;
* `run` delivers all messages in order.
-/

namespace Conclave

/-- A node of a cluster, and what it announced. -/
structure Cluster.Peer (S : Scheme) where
  seat : Seat S
  node : Node S
  announced : List (SignedMessage S)

/-- The nodes of a committee, and the messages under way with the nodes they go to. -/
structure Cluster (S : Scheme) where
  peers : List (Cluster.Peer S)
  queue : List (Nat × SignedMessage S)

namespace Cluster

variable {S : Scheme}

/-- A message delivered to a node, and how the node answered. -/
structure Delivery (S : Scheme) where
  node : Nat
  message : SignedMessage S
  answer : Except Node.Error (Option (Node.Decided S))

/-- Whether a delivery led to a decision or an error. -/
def Delivery.isNotable (d : Delivery S) : Bool :=
  match d.answer with
  | .ok decided => decided.isSome
  | .error _ => true

/-- A cluster of new nodes at the given seats. -/
def create (seats : List (Seat S)) (capacity : Nat) (instanceBytes : Nat := 16) :
    Except Fault (Cluster S) := do
  let peers ← seats.mapM fun seat => do
    let node ← Node.create capacity Archive.empty instanceBytes
    return ⟨seat, node, []⟩
  return { peers, queue := [] }

/-- A message as it arrives at another node. -/
def overWire (m : SignedMessage S) : Option (SignedMessage S) :=
  ((Wire.encode m).bind Wire.decode).toOption

/-- The queue with copies of what was broadcast among effects. -/
def enqueue (c : Cluster S) (effects : List (Effect S)) : List (Nat × SignedMessage S) :=
  c.queue ++ (((Network.reliable S).sent effects).filterMap overWire).flatMap fun m =>
    (List.range c.peers.length).map fun i => (i, m)

/-- Runs an operation of a node, given by its position, and puts what it broadcasts into the queue.
There is no answer if there is no such node. -/
def operate {α : Type} (c : Cluster S) (i : Nat)
    (op : Peer S → Step S (Node S) Node.Error α) : Cluster S × Option (Except Node.Error α) :=
  match c.peers[i]? with
  | none => (c, none)
  | some peer =>
    let moved := op peer
    let announced := (Network.reliable S).announced moved.effects
    let peer := { peer with node := moved.state, announced := peer.announced ++ announced }
    ({ peers := c.peers.set i peer, queue := c.enqueue moved.effects }, some moved.answer)

/-- Begins the next height at a node. -/
def start (c : Cluster S) (i : Nat) (value : Value S) :
    Cluster S × Option (Except Node.Error Height) :=
  c.operate i fun peer => peer.node.start peer.seat (Surroundings.reliable S) value

/-- Times out the current round of the latest height of a node. -/
def timeout (c : Cluster S) (i : Nat) : Cluster S × Option (Except Node.Error Unit) :=
  c.operate i fun peer =>
    let height := peer.node.height.getD Height.first
    let round := (peer.node.instanceAt? height).elim Round.first Instance.round
    peer.node.timeout peer.seat (Surroundings.reliable S) height round

/-- Delivers a message to a node. -/
def deliverTo (c : Cluster S) (i : Nat) (m : SignedMessage S) : Cluster S × List (Delivery S) :=
  let moved := c.operate i fun peer => peer.node.receive peer.seat (Surroundings.reliable S) m
  (moved.1, moved.2.toList.map fun answer => ⟨i, m, answer⟩)

/-- Takes the entry at position `k` modulo the length out of the queue. -/
def take? (c : Cluster S) (k : Nat) : Option ((Nat × SignedMessage S) × Cluster S) :=
  let i := k % c.queue.length
  c.queue[i]?.map fun entry => (entry, { c with queue := c.queue.eraseIdx i })

/-- Delivers the messages at the given positions, one after the other, while there are any. -/
def deliver (c : Cluster S) : List Nat → Cluster S × List (Delivery S)
  | [] => (c, [])
  | k :: rest =>
    match c.take? k with
    | none => (c, [])
    | some ((i, m), c) =>
      let delivered := c.deliverTo i m
      let next := delivered.1.deliver rest
      (next.1, delivered.2 ++ next.2)

/-- Loses the messages at the given positions. -/
def drop (c : Cluster S) : List Nat → Cluster S
  | [] => c
  | k :: rest =>
    match c.take? k with
    | none => c
    | some (_, c) => c.drop rest

/-- Loses all messages. -/
def clear (c : Cluster S) : Cluster S := { c with queue := [] }

/-- Delivers up to `limit` messages in order. The deliveries are listed that led to a decision or an
error. -/
def run : Nat → Cluster S → List (Delivery S) → Cluster S × List (Delivery S)
  | 0, c, found => (c, found.reverse)
  | limit + 1, c, found =>
    match c.queue with
    | [] => (c, found.reverse)
    | (i, m) :: queue =>
      let delivered := { c with queue }.deliverTo i m
      run limit delivered.1 ((delivered.2.filter Delivery.isNotable).reverse ++ found)

/-- Delivers the last decision that one node announced to another. -/
def announce (c : Cluster S) (source target : Nat) : Cluster S × List (Delivery S) :=
  match (c.peers[source]?.bind fun peer => peer.announced.getLast?).bind overWire with
  | none => (c, [])
  | some m => c.deliverTo target m

end Cluster
end Conclave
