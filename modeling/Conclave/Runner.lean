import Conclave.Node.Basic
import Conclave.Timer

/-!
# Runners

A runner drives a node: it takes requests one at a time, hands the timer calls of the node to a
timer, and passes timeouts on to the node when they fire. It runs until it is stopped or the node
goes down; a request to a stopped runner fails.

* `start`, `receive` and `load` are requests that are answered;
* `timeout` is a request without an answer: its failure is dropped;
* `advance` lets time pass. Each timeout is processed at its own time, so that it can schedule
  another one that fires within the same span.
-/

namespace Conclave

/-- A node with its timer. -/
structure Runner (S : Scheme) where
  node : Node S
  timer : Timer
  running : Bool

namespace Runner

variable {S : Scheme}

/-- Why a request failed. -/
inductive Error
  | node (cause : Node.Error)
  | stopped
  deriving DecidableEq

/-- The text of an error. -/
def Error.message : Error → String
  | .node cause => s!"consensus error: {cause.message}"
  | .stopped => "consensus task stopped"

/-- A running node. -/
def new (node : Node S) (timeouts : Timeouts) (sleep : Sleep := .thirtyYears) : Runner S :=
  ⟨node, Timer.new timeouts sleep, true⟩

/-- The runner after it was stopped. -/
def stop (r : Runner S) : Runner S := { r with running := false }

/-- The runner after a step of its node, which handed its calls to the timer. A node that went down
stops the runner and answers nothing. -/
def absorb {α : Type} (r : Runner S) (s : Step S (Node S) Node.Error α) :
    Step S (Runner S) Error α where
  state :=
    { node := s.state
      timer := r.timer.apply s.effects
      running :=
        match s.answer with
        | .error e => e.fault?.isNone
        | .ok _ => true }
  effects := s.effects
  answer :=
    match s.answer with
    | .ok a => .ok a
    | .error e => if e.fault?.isSome then .error .stopped else .error (.node e)

/-- A request to the node. -/
def request {α : Type} (r : Runner S) (op : Node S → Step S (Node S) Node.Error α) :
    Step S (Runner S) Error α :=
  if r.running then r.absorb (op r.node) else .refuse r .stopped

/-- Begins the instance of the next height. -/
def start (seat : Seat S) (env : Surroundings S) (r : Runner S) (value : Value S) :
    Step S (Runner S) Error Height :=
  r.request fun n => n.start seat env value

/-- Takes a message. -/
def receive (seat : Seat S) (env : Surroundings S) (r : Runner S) (m : SignedMessage S) :
    Step S (Runner S) Error (Option (Node.Decided S)) :=
  r.request fun n => n.receive seat env m

/-- Resumes from the stored decision. -/
def load (seat : Seat S) (env : Surroundings S) (r : Runner S) :
    Step S (Runner S) Error (Option (SignedMessage S)) :=
  r.request fun n => n.load seat env

/-- Delivers a timeout. Only that the runner has stopped is reported. -/
def timeout (seat : Seat S) (env : Surroundings S) (r : Runner S) (height : Height)
    (round : Round) : Step S (Runner S) Error Unit :=
  if r.running then
    { r.request (fun n => n.timeout seat env height round) with answer := .ok () }
  else .refuse r .stopped

/-- The timeouts that fire by a time, at most `limit` of them, each processed when it fires. -/
def fireUntil (seat : Seat S) (env : Surroundings S) (time : Nat) :
    Nat → Runner S → Runner S × List (Effect S)
  | 0, r => (r, [])
  | limit + 1, r =>
    match r.timer.fire? time with
    | none => (r, [])
    | some (alarm, timer) =>
      let fired := { r with timer }.timeout seat env alarm.height alarm.round
      let rest := fireUntil seat env time limit fired.state
      (rest.1, fired.effects ++ rest.2)

/-- Lets time pass up to a moment. A timeout that has an effect moves its instance to a higher
round, so that there are no more of them in a row than rounds below the cutoff. -/
def advanceTo (seat : Seat S) (env : Surroundings S) (r : Runner S) (time : Nat) :
    Runner S × List (Effect S) :=
  let fired := fireUntil seat env time (seat.cutoff.toNat + 1) r
  ({ fired.1 with timer := (fired.1.timer.advanceTo time).1 }, fired.2)

/-- Lets a span of time pass. -/
def advance (seat : Seat S) (env : Surroundings S) (r : Runner S) (span : Duration) :
    Runner S × List (Effect S) :=
  r.advanceTo seat env (r.timer.now + span.nanoseconds)

end Runner
end Conclave
