import Conclave.Context.Basic
import Conclave.Tally

/-!
# The state of an instance

An instance decides on one value at one height, in rounds. A `Seat` is what does not change while
it does: whose instance it is and by which rules it goes. An `Instance` is what changes.
-/

namespace Conclave

/-- A member's place in a stream of decisions. -/
structure Seat (S : Scheme) where
  /-- The name of the stream. -/
  identifier : ByteArray
  /-- The members that decide. -/
  committee : Committee S
  /-- The rules they decide by. -/
  context : Context S
  /-- The member whose place this is. -/
  signer : Signer S
  /-- The round from which on an instance has stopped. -/
  cutoff : Round

/-- The state of an instance. -/
structure Instance (S : Scheme) where
  /-- The height that is decided. -/
  height : Height
  /-- The current round. -/
  round : Round
  /-- The last preparation of this member: a quorum of prepares was seen in its round. -/
  prepared : Option (Prepared S)
  /-- The proposal accepted in the current round. -/
  accepted : Option (SignedMessage S)
  /-- The decided value. -/
  decided : Option (Value S)
  /-- The value given at the start, proposed where no value is prepared. -/
  startValue : Option (Value S)
  /-- The proposals received. -/
  proposes : Tally S
  /-- The prepares received. -/
  prepares : Tally S
  /-- The commits received. -/
  commits : Tally S
  /-- The round changes received. -/
  roundChanges : Tally S
  /-- The last round in which this member proposed because a quorum asked for the round. -/
  proposedRound : Option Round

/-- A decision: the value and the commits of a quorum, combined into one message. -/
structure Decision (S : Scheme) where
  value : Value S
  commit : SignedMessage S
  deriving DecidableEq

namespace Instance

variable {S : Scheme}

/-- The instance of a height before its start. -/
def new (height : Height) : Instance S where
  height
  round := Round.first
  prepared := none
  accepted := none
  decided := none
  startValue := none
  proposes := Tally.empty
  prepares := Tally.empty
  commits := Tally.empty
  roundChanges := Tally.empty
  proposedRound := none

/-- Whether the instance was started. -/
def started (s : Instance S) : Bool := s.startValue.isSome

/-- Whether the instance has decided. -/
def isDecided (s : Instance S) : Bool := s.decided.isSome

/-- Whether the round has reached the cutoff. -/
def stopped (seat : Seat S) (s : Instance S) : Bool := seat.cutoff ≤ s.round

/-- The value of the accepted proposal. -/
def acceptedValue? (s : Instance S) : Option (Value S) :=
  s.accepted.bind fun proposal => proposal.message.value?

/-- The instance in another round, in which no proposal is accepted yet. -/
def moveTo (s : Instance S) (round : Round) : Instance S :=
  { s with round, accepted := none }

end Instance
end Conclave
