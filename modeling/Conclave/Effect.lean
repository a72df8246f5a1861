import Conclave.Message.Basic

/-!
# Effects

What an operation of a node asks of its surroundings: to send a message, to announce a decision, to
store one, to wake it up later. An operation is a function of the state that yields the next state,
the effects in the order in which they were asked for, and an answer. Whether the network takes a
message is known to the operation while it runs, since a failure changes its answer.
-/

namespace Conclave

/-- Why the network did not take a message. -/
structure NetworkError where
  reason : String
  deriving DecidableEq

/-- The text of an error. -/
def NetworkError.message (e : NetworkError) : String := s!"network error: {e.reason}"

/-- What is asked of the surroundings of a node. An effect is listed whether or not it succeeds. -/
inductive Effect (S : Scheme)
  /-- Send a message to all members. -/
  | broadcast (message : SignedMessage S)
  /-- Announce a decision by its aggregated commit. -/
  | announce (commit : SignedMessage S)
  /-- Store the aggregated commit of a decision. -/
  | save (commit : SignedMessage S)
  /-- Deliver the timeout of a round later, in place of any earlier one. -/
  | schedule (height : Height) (round : Round)
  /-- Forget the timeout that is pending for a height. -/
  | cancel (height : Height)
  deriving DecidableEq

/-- The network while an operation runs: which messages it takes. -/
structure Network (S : Scheme) where
  broadcast : SignedMessage S → Except NetworkError Unit
  announce : SignedMessage S → Except NetworkError Unit

/-- The network that takes every message. -/
def Network.reliable (S : Scheme) : Network S := ⟨fun _ => .ok (), fun _ => .ok ()⟩

namespace Network

variable {S : Scheme}

/-- The messages among effects that the network takes and sends. -/
def sent (net : Network S) (effects : List (Effect S)) : List (SignedMessage S) :=
  effects.filterMap fun
    | .broadcast m => (net.broadcast m).toOption.map fun _ => m
    | _ => none

/-- The decisions among effects that the network takes and announces. -/
def announced (net : Network S) (effects : List (Effect S)) : List (SignedMessage S) :=
  effects.filterMap fun
    | .announce m => (net.announce m).toOption.map fun _ => m
    | _ => none

end Network

/-- The outcome of an operation: the state after it, the effects it asked for, in order, and the
answer. -/
structure Step (S : Scheme) (σ ε α : Type) where
  state : σ
  effects : List (Effect S)
  answer : Except ε α

namespace Step

variable {S : Scheme} {σ ε α : Type}

/-- An operation that ends without an effect. -/
def done (state : σ) (answer : α) : Step S σ ε α := ⟨state, [], .ok answer⟩

/-- An operation that is refused; it has no effect. -/
def refuse (state : σ) (error : ε) : Step S σ ε α := ⟨state, [], .error error⟩

/-- The outcome with effects that precede its own. -/
def after (effects : List (Effect S)) (s : Step S σ ε α) : Step S σ ε α :=
  { s with effects := effects ++ s.effects }

/-- The outcome with another form of the answer. -/
def mapAnswer {β : Type} (f : α → β) (s : Step S σ ε α) : Step S σ ε β :=
  { s with answer := s.answer.map f }

end Step
end Conclave
