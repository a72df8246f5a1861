import Conclave.Instance.Transition
import Conclave.Metrics.Basic
import Conclave.Node.Error
import Conclave.Recent

/-!
# Nodes

A node runs the instances of one stream, one height after the other. It keeps the most recent ones,
passes messages and timeouts on to the instance they are for, and stores and announces decisions.

* `start` begins the instance of the next height;
* `receive` takes a message. A commit signed by a quorum is a decided message: it may be of any
  height, and takes a node that has fallen behind to that height;
* `timeout` delivers the timeout of a round;
* `load` resumes from the stored decision after a restart;
* `Event` and `step` put these together.
-/

namespace Conclave

/-- The state of a node. -/
structure Node (S : Scheme) where
  /-- The height of the latest instance started or of the latest decision known. -/
  height : Option Height
  /-- The latest instances. -/
  instances : Recent (Instance S)
  /-- What the node counts. -/
  metrics : Metrics
  /-- What the node has stored. -/
  archive : Archive S

/-- What surrounds a node while an operation runs. -/
structure Surroundings (S : Scheme) where
  network : Network S
  disk : Disk

/-- Surroundings in which nothing fails. -/
def Surroundings.reliable (S : Scheme) : Surroundings S := ⟨Network.reliable S, Disk.reliable⟩

namespace Node

variable {S : Scheme}

/-- A decision of one of the instances, with the side effects that failed. -/
structure Decided (S : Scheme) where
  height : Height
  value : Value S
  commit : SignedMessage S
  sideEffectErrors : List SideEffectError
  deriving DecidableEq

/-- A node that keeps the given number of instances, before its first start. -/
def new (capacity : Nat) (archive : Archive S) : Node S where
  height := none
  instances := Recent.empty capacity
  metrics := Metrics.empty
  archive

/-- A node before its first start, if there is room for the instances it is to keep. How many bytes
an instance takes depends on its layout in memory; its height and its round alone take sixteen. -/
def create (capacity : Nat) (archive : Archive S) (instanceBytes : Nat := 16) :
    Except Fault (Node S) := do
  let instances ← Recent.create capacity instanceBytes
  return { new capacity archive with instances }

/-- A node after a restart: only what it has stored is left. -/
def restart (n : Node S) : Node S := new n.instances.capacity n.archive

/-- The instance of a height, if it is kept. -/
def instanceAt? (n : Node S) (height : Height) : Option (Instance S) :=
  n.instances.find? fun s => s.height = height

/-- The node with a new state of the instance of a height. -/
def setInstance (n : Node S) (height : Height) (s : Instance S) : Node S :=
  { n with instances := n.instances.update (fun t => t.height = height) fun _ => s }

/-! ### Start -/

/-- Begins the instance of the next height with the value to propose. The instance of the height
before must have decided, if it is kept. If the proposal is not sent, the instance is started
nevertheless. -/
def start (seat : Seat S) (env : Surroundings S) (n : Node S) (value : Value S) :
    Step S (Node S) Error Height :=
  match n.height.bind fun h => (n.instanceAt? h).filter fun s => ¬ s.isDecided with
  | some running => .refuse n (.previousNotDecided running.height)
  | none =>
    match seat.context.checkValue value with
    | .error e => .refuse n (.invalidValue e)
    | .ok () =>
      match n.height.elim (.ok Height.first) Height.next? with
      | .error e => .refuse n (.fault e)
      | .ok height =>
        let begun := (Instance.new height).start seat env.network value
        -- the instance is kept whether or not its proposal was sent
        { state :=
            { n with
              height := some height
              instances := n.instances.push begun.state
              metrics := (n.metrics.instanceStarted height).setHeight height }
          effects := begun.effects
          answer := (begun.answer.map fun _ => height).mapError .rejected }

/-! ### Messages -/

/-- The kind under which a message is counted and handled. -/
def messageKind (committee : Committee S) (m : SignedMessage S) : MessageKind :=
  match m.type with
  | .propose => .propose
  | .prepare => .prepare
  | .commit => if committee.quorum ≤ m.signers.length then .decided else .commit
  | .roundChange => .roundChange

/-- Whether a decision of a height is above the stored one. -/
def isHighest (seat : Seat S) (disk : Disk) (n : Node S) (height : Height) :
    Except StorageError Bool :=
  (n.archive.load disk seat.identifier).map fun stored =>
    stored.all fun m => m.height < height

/-- The node after a side effect failed. -/
def countFailure (n : Node S) (effect : SideEffect) : Node S :=
  { n with metrics := n.metrics.sideEffectFailed effect }

/-- Stores a decision. -/
def save (seat : Seat S) (disk : Disk) (n : Node S) (commit : SignedMessage S) :
    Step S (Node S) StorageError Unit :=
  match disk.write with
  | .ok () =>
    ⟨{ n with archive := n.archive.put seat.identifier commit }, [.save commit], .ok ()⟩
  | .error e => ⟨n, [.save commit], .error e⟩

/-- Stores a decision, provided that it is above the stored one. -/
def saveIfHighest (seat : Seat S) (disk : Disk) (n : Node S) (height : Height)
    (commit : SignedMessage S) : Step S (Node S) StorageError Unit :=
  match n.isHighest seat disk height with
  | .error e => .refuse n e
  | .ok false => .done n ()
  | .ok true => n.save seat disk commit

/-- The node and the list of failures after an attempt to store a decision. -/
def noteSave (s : Step S (Node S) StorageError Unit) : Node S × List SideEffectError :=
  match s.answer with
  | .ok () => (s.state, [])
  | .error e => (s.state.countFailure .persist, [.persist e])

/-- The node and the list of failures after an attempt to announce a decision. -/
def noteAnnouncement (answer : Except NetworkError Unit) (n : Node S)
    (errors : List SideEffectError) : Node S × List SideEffectError :=
  match answer with
  | .ok () => (n, errors)
  | .error e => (n.countFailure .broadcast, errors ++ [.broadcast e])

/-- Stores and announces a decision that an instance has reached. -/
def conclude (seat : Seat S) (env : Surroundings S) (n : Node S) (height : Height)
    (decision : Decision S) : Step S (Node S) Error (Option (Decided S)) :=
  let n := { n with metrics := n.metrics.decided decision.commit.round }
  let saved := n.saveIfHighest seat env.disk height decision.commit
  let noted := noteSave saved
  let noted := noteAnnouncement (env.network.announce decision.commit) noted.1 noted.2
  { state := noted.1
    effects := saved.effects ++ [.announce decision.commit]
    answer := .ok (some ⟨height, decision.value, decision.commit, noted.2⟩) }

/-- Passes a message on to the instance of its height. -/
def receivePlain (seat : Seat S) (env : Surroundings S) (n : Node S) (m : SignedMessage S) :
    Step S (Node S) Error (Option (Decided S)) :=
  if m.identifier ≠ seat.identifier then .refuse n .wrongIdentifier
  else
    match n.instanceAt? m.height with
    | none => .refuse n (.instanceNotFound m.height)
    | some s =>
      let moved := s.receive seat env.network m
      let n := n.setInstance m.height moved.state
      match moved.answer with
      | .error e => ⟨n, moved.effects, .error (.rejected e)⟩
      | .ok none => ⟨n, moved.effects, .ok none⟩
      | .ok (some decision) => (n.conclude seat env m.height decision).after moved.effects

/-- Checks that a decided message is signed by a quorum. -/
def validateDecided (seat : Seat S) (m : SignedMessage S) : Except Error Unit := do
  if m.identifier ≠ seat.identifier then
    throw .wrongIdentifier
  (checkSigners m.signers).mapError (.invalidDecided ∘ .signature)
  if m.signers.length < seat.committee.quorum then
    throw (.invalidDecided (.noQuorum m.signers.length seat.committee.quorum))
  (m.verify seat.committee seat.context.domain).mapError (.invalidDecided ∘ .signature)

/-- The node at a height, if it is not above it already. -/
def advanceTo (n : Node S) (height : Height) : Node S :=
  if n.height.all fun current => current < height then
    { n with height := some height, metrics := n.metrics.setHeight height }
  else n

/-- Applies a decided message: it is stored if it is above the stored decision, the node advances to
its height, and the instance of the height decides if it has accepted the value. -/
def receiveDecided (seat : Seat S) (env : Surroundings S) (n : Node S) (m : SignedMessage S) :
    Step S (Node S) Error (Option (Decided S)) :=
  match validateDecided seat m with
  | .error e => .refuse n e
  | .ok () =>
    match n.isHighest seat env.disk m.height with
    | .error e => .refuse n (.storage e)
    | .ok isHigher =>
      let saved := if isHigher then n.save seat env.disk m else .done n ()
      let noted := noteSave saved
      let n := noted.1.advanceTo m.height
      match n.instanceAt? m.height with
      | none => ⟨n, saved.effects, .ok none⟩
      | some s =>
        let moved := s.learn m
        let n := n.setInstance m.height moved.state
        let effects := saved.effects ++ moved.effects
        match moved.answer with
        | .error e => ⟨n, effects, .error (.rejected e)⟩
        | .ok none => ⟨n, effects, .ok none⟩
        | .ok (some decision) =>
          { state := { n with metrics := n.metrics.decided decision.commit.round }
            effects
            answer := .ok (some ⟨m.height, decision.value, decision.commit, noted.2⟩) }

/-- The node after it has counted the outcome of a message. -/
def countMessage (kind : MessageKind) (s : Step S (Node S) Error (Option (Decided S))) :
    Step S (Node S) Error (Option (Decided S)) :=
  let metrics :=
    match s.answer with
    | .ok _ => s.state.metrics.messageProcessed kind
    | .error _ => s.state.metrics.messageRejected kind
  { s with state := { s.state with metrics } }

/-- Takes a message. A decision is the answer the first time an instance decides. -/
def receive (seat : Seat S) (env : Surroundings S) (n : Node S) (m : SignedMessage S) :
    Step S (Node S) Error (Option (Decided S)) :=
  let kind := messageKind seat.committee m
  countMessage kind
    (if kind = .decided then n.receiveDecided seat env m else n.receivePlain seat env m)

/-! ### Timeouts and restarts -/

/-- Delivers the timeout of a round to the instance of a height. -/
def timeout (seat : Seat S) (env : Surroundings S) (n : Node S) (height : Height) (round : Round) :
    Step S (Node S) Error Unit :=
  match n.instanceAt? height with
  | none => .refuse n (.instanceNotFound height)
  | some s =>
    let moved := s.timeout seat env.network round
    ⟨n.setInstance height moved.state, moved.effects, moved.answer.mapError .rejected⟩

/-- Resumes from the stored decision: the next instance is of the height after it. -/
def load (seat : Seat S) (env : Surroundings S) (n : Node S) :
    Step S (Node S) Error (Option (SignedMessage S)) :=
  match n.archive.load env.disk seat.identifier with
  | .error e => .refuse n (.storage e)
  | .ok none => .done n none
  | .ok (some m) => .done (n.advanceTo m.height) (some m)

/-! ### Runs -/

/-- What can happen to a node. -/
inductive Event (S : Scheme)
  | start (value : Value S)
  | receive (message : SignedMessage S)
  | timeout (height : Height) (round : Round)
  | load

/-- What the answers to the different events hold. -/
inductive Answer (S : Scheme)
  | started (height : Height)
  | received (decided : Option (Decided S))
  | timedOut
  | loaded (commit : Option (SignedMessage S))

/-- What a node does on an event. -/
def step (seat : Seat S) (env : Surroundings S) (n : Node S) :
    Event S → Step S (Node S) Error (Answer S)
  | .start value => (n.start seat env value).mapAnswer .started
  | .receive m => (n.receive seat env m).mapAnswer .received
  | .timeout height round => (n.timeout seat env height round).mapAnswer fun _ => .timedOut
  | .load => (n.load seat env).mapAnswer .loaded

end Node
end Conclave
