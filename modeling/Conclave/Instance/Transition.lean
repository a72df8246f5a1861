import Conclave.Instance.Validation

/-!
# Transitions of an instance

What an instance does when it is started, receives a message, is told that a round timed out, or
learns of a decision. Every transition is a function of the state and of what the network takes
while it runs; it yields the next state, the effects and an answer.

* `start` proposes if this member leads the first round;
* `receive` validates a message and acts on it, which may yield a decision;
* `timeout` moves to the next round;
* `learn` decides from the aggregated commit of a quorum;
* `Event` and `step` put these together.

A message that is rejected has no effect. A failure of the network changes the answer and nothing
else.
-/

namespace Conclave
namespace Instance

variable {S : Scheme}

/-! ### What an instance sends -/

/-- A message of this member in a round. -/
def sign (seat : Seat S) (s : Instance S) (round : Round) (body : Body S (SignedMessage S)) :
    SignedMessage S :=
  seat.signer.signMessage seat.context.domain ⟨seat.identifier, s.height, round, body⟩

/-- The round change of this member for a round. It reports the last preparation, with the prepares
that were seen for it. -/
def roundChange (seat : Seat S) (s : Instance S) (round : Round) : SignedMessage S :=
  let prepares :=
    match s.prepared with
    | none => []
    | some p => (s.prepares.uniqueSigners p.round p.value.root).messages
  sign seat s round (.roundChange s.prepared prepares)

/-- What is asked of the timer after a change of the round: the timeout of the round, unless the
instance has stopped. -/
def timerCall (seat : Seat S) (s : Instance S) : Effect S :=
  if s.stopped seat then .cancel s.height else .schedule s.height s.round

/-- The end of a transition that sends a message. -/
def send (net : Network S) (s : Instance S) (m : SignedMessage S) :
    Step S (Instance S) Error Unit :=
  ⟨s, [.broadcast m], (net.broadcast m).mapError .broadcast⟩

/-- The end of a transition that asks for the timeout of a new round and sends a message. -/
def enterAndSend (seat : Seat S) (net : Network S) (s : Instance S) (m : SignedMessage S) :
    Step S (Instance S) Error Unit :=
  (send net s m).after [timerCall seat s]

/-- Whether this member leads a round. -/
def isLeader (seat : Seat S) (s : Instance S) (round : Round) : Except Error Bool := do
  return decide ((← leader seat s round) = seat.signer.id)

/-- The value of a decision becomes final, and the pending timeout is cancelled. -/
def decide (s : Instance S) (value : Value S) (commit : SignedMessage S) :
    Step S (Instance S) Error (Option (Decision S)) :=
  ⟨{ s with decided := some value }, [.cancel s.height], .ok (some ⟨value, commit⟩)⟩

/-! ### Start -/

/-- Starts the instance with the value to propose. Only the first start has an effect. -/
def start (seat : Seat S) (net : Network S) (s : Instance S) (value : Value S) :
    Step S (Instance S) Error Unit :=
  if s.started then .done s ()
  else
    let s := { s with startValue := some value }
    let proposal := sign seat s s.round (.propose value [] [])
    let rest : Step S (Instance S) Error Unit :=
      if s.round = Round.first then
        match isLeader seat s s.round with
        | .error e => .refuse s e
        | .ok true => send net s proposal
        | .ok false => .done s ()
      else .done s ()
    rest.after [timerCall seat s]

/-! ### Messages -/

/-- A proposal: it is accepted and its value prepared. One for a higher round moves the instance to
that round. -/
def onPropose (seat : Seat S) (net : Network S) (s : Instance S) (m : SignedMessage S) :
    Step S (Instance S) Error Unit :=
  match validateProposal seat s m with
  | .error e => .refuse s e
  | .ok () =>
    match m.message.value? with
    | none => .refuse s .missingProposal
    | some value =>
      let stored := { s with proposes := (s.proposes.addFirst? m).getD s.proposes }
      let vote := sign seat s m.round (.prepare value.root)
      if s.round < m.round then
        let moved := stored.moveTo m.round
        (send net { moved with accepted := some m } vote).after [timerCall seat moved]
      else send net { stored with accepted := some m } vote

/-- A prepare: it is stored, and the first quorum in a round for the accepted value makes this
member prepare the value and vote to decide on it. -/
def onPrepare (seat : Seat S) (net : Network S) (s : Instance S) (m : SignedMessage S) :
    Step S (Instance S) Error Unit :=
  match validateVote seat s m with
  | .error e => .refuse s e
  | .ok () =>
    match s.prepares.addFirst? m with
    | none => .done s ()
    | some prepares =>
      let s := { s with prepares }
      match s.acceptedValue? with
      | none => .refuse s .missingProposal
      | some value =>
        if s.prepared = some ⟨m.round, value⟩ then .done s ()
        else if seat.committee.thresholds.isQuorum
            (s.prepares.uniqueSigners m.round value.root).size then
          send net { s with prepared := some ⟨m.round, value⟩ }
            (sign seat s m.round (.commit value.root))
        else .done s ()

/-- A commit: it is stored, and the first quorum for the accepted value decides. -/
def onCommit (seat : Seat S) (s : Instance S) (m : SignedMessage S) :
    Step S (Instance S) Error (Option (Decision S)) :=
  match validateVote seat s m with
  | .error e => .refuse s e
  | .ok () =>
    match s.commits.addFirst? m with
    | none => .done s none
    | some commits =>
      let s := { s with commits }
      if s.isDecided then .done s none
      else
        match s.acceptedValue? with
        | none => .refuse s .missingProposal
        | some value =>
          let committed := s.commits.uniqueSigners m.round value.root
          if seat.committee.thresholds.isQuorum committed.size then
            match SignedMessage.aggregate committed.messages with
            | .error e => .refuse s (.aggregation e)
            | .ok commit => decide s value commit
          else .done s none

/-- What the leader of a round proposes to a quorum that asks for it: the value prepared last with
its prepares, or else the value given at the start. -/
def proposalFor (s : Instance S) (roundChanges : List (SignedMessage S)) :
    Except Error (Option (Value S × List (SignedMessage S))) :=
  match highestPrepared? roundChanges with
  | some highest =>
    match highest.message.value? with
    | some value => .ok (some (value, highest.message.prepares))
    | none => .error .missingProposal
  | none => .ok (s.startValue.map fun value => (value, []))

/-- Proposes in a round that this member leads, once a quorum asks for it with round changes that a
proposal may be built on. -/
def proposeOnQuorum (seat : Seat S) (net : Network S) (s : Instance S) (round : Round) :
    Step S (Instance S) Error Unit :=
  if round < s.round ∨ s.proposedRound = some round then .done s ()
  else
    match isLeader seat s round with
    | .error e => .refuse s e
    | .ok false => .done s ()
    | .ok true =>
      let roundChanges := (s.roundChanges.ofRound round).filter (isJustified seat s)
      if ¬ seat.committee.thresholds.isQuorum (distinctSigners roundChanges) then .done s ()
      else
        match proposalFor s roundChanges with
        | .error e => .refuse s e
        | .ok none => .done s ()
        | .ok (some (value, prepares)) =>
          let proposing := { s with proposedRound := some round }
          let proposal := sign seat s round (.propose value roundChanges prepares)
          if s.round < round then enterAndSend seat net (proposing.moveTo round) proposal
          else send net proposing proposal

/-- The lowest round among messages. -/
def lowestRound? : List (SignedMessage S) → Option Round
  | [] => none
  | m :: rest =>
    match lowestRound? rest with
    | none => some m.round
    | some round => some (if m.round ≤ round then m.round else round)

/-- Follows a partial quorum that asks for higher rounds, to the lowest of these. -/
def skipAhead (seat : Seat S) (net : Network S) (s : Instance S) :
    Step S (Instance S) Error Unit :=
  match s.roundChanges.aboveRound? s.round with
  | .error e => .refuse s (.fault e)
  | .ok above =>
    if ¬ seat.committee.thresholds.isPartialQuorum (distinctSigners above) then .done s ()
    else
      match lowestRound? above with
      | none => .done s ()
      | some round =>
        let moved := s.moveTo round
        enterAndSend seat net moved (roundChange seat moved round)

/-- Two transitions in a row. The first failure is the answer, except that nothing happens after
the instance went down. -/
def both (first : Step S (Instance S) Error Unit)
    (second : Instance S → Step S (Instance S) Error Unit) : Step S (Instance S) Error Unit :=
  match first.answer with
  | .error (.fault _) => first
  | answer =>
    -- the first transition may have moved the instance, so the second starts from its state
    let next := second first.state
    { next with
      effects := first.effects ++ next.effects
      answer :=
        match next.answer, answer with
        | .error (.fault e), _ => .error (.fault e)
        | _, .error e => .error e
        | result, .ok () => result }

/-- A round change: it is stored; then this member proposes if a quorum now asks for a round that
it leads, and follows a partial quorum that asks for higher rounds. -/
def onRoundChange (seat : Seat S) (net : Network S) (s : Instance S) (m : SignedMessage S) :
    Step S (Instance S) Error Unit :=
  match validateRoundChange seat s m m.round with
  | .error e => .refuse s e
  | .ok () =>
    match s.roundChanges.addFirst? m with
    | none => .done s ()
    | some roundChanges =>
      let s := { s with roundChanges }
      if s.isDecided then .done s ()
      else both (proposeOnQuorum seat net s m.round) (skipAhead seat net)

/-- A transition that decides nothing. -/
def undecided (s : Step S (Instance S) Error Unit) :
    Step S (Instance S) Error (Option (Decision S)) :=
  s.mapAnswer fun _ => none

/-- Validates a message and acts on it. The decision is the answer the first time the instance
decides. -/
def receive (seat : Seat S) (net : Network S) (s : Instance S) (m : SignedMessage S) :
    Step S (Instance S) Error (Option (Decision S)) :=
  if s.stopped seat then .refuse s .stopped
  else
    match validateBase seat s m with
    | .error e => .refuse s e
    | .ok () =>
      match m.type with
      | .propose => undecided (onPropose seat net s m)
      | .prepare => undecided (onPrepare seat net s m)
      | .commit => onCommit seat s m
      | .roundChange => undecided (onRoundChange seat net s m)

/-! ### Timeouts and decisions of others -/

/-- Moves to the next round and asks the others to follow, if it is the current round that timed
out and nothing is decided. -/
def timeout (seat : Seat S) (net : Network S) (s : Instance S) (round : Round) :
    Step S (Instance S) Error Unit :=
  if s.stopped seat then .refuse s .stopped
  else if s.isDecided ∨ round ≠ s.round then .done s ()
  else
    match round.next? with
    | .error e => .refuse s (.fault e)
    | .ok next =>
      let moved := s.moveTo next
      enterAndSend seat net moved (roundChange seat moved next)

/-- Applies a validated decision, that is, the aggregated commit of a quorum: the instance decides
if it is for the proposal accepted in the current round. -/
def learn (s : Instance S) (commit : SignedMessage S) :
    Step S (Instance S) Error (Option (Decision S)) :=
  if s.isDecided then .done s none
  else
    match s.acceptedValue? with
    | none => .done s none
    | some value =>
      if commit.message.valueRoot? ≠ some value.root then .done s none
      else decide { s with commits := s.commits.add commit } value commit

/-! ### Runs -/

/-- What can happen to an instance. -/
inductive Event (S : Scheme)
  | start (value : Value S)
  | receive (message : SignedMessage S)
  | timeout (round : Round)
  | learn (commit : SignedMessage S)

/-- What an instance does on an event. -/
def step (seat : Seat S) (net : Network S) (s : Instance S) :
    Event S → Step S (Instance S) Error (Option (Decision S))
  | .start value => undecided (start seat net s value)
  | .receive m => receive seat net s m
  | .timeout round => undecided (timeout seat net s round)
  | .learn commit => learn s commit

end Instance
end Conclave
