/-!
# Faults

A fault is a state of affairs no caller is meant to bring about: a number would leave its range, a
committee has no members, more memory is asked for than can be addressed. An operation that runs
into one has no further answer, and the node that runs it goes down.
-/

namespace Conclave

/-- What can go wrong outside the protocol. -/
inductive Fault
  /-- A sum is above the largest 64-bit number. -/
  | additionOverflow
  /-- A difference is below zero. -/
  | subtractionOverflow
  /-- A proposer is asked of a committee without members. -/
  | emptyCommittee
  /-- A part of an encoding is asked outside its bounds. -/
  | outOfBounds
  /-- Justifications are nested deeper than any admitted message. -/
  | tooDeep
  /-- A duration is above the longest one. -/
  | durationOverflow
  /-- Room is asked for more bytes than can be addressed. -/
  | capacityOverflow
  deriving DecidableEq, Inhabited

/-- The text of a fault. -/
def Fault.message : Fault → String
  | .additionOverflow => "attempt to add with overflow"
  | .subtractionOverflow => "attempt to subtract with overflow"
  | .emptyCommittee => "empty committee"
  | .outOfBounds => "range out of bounds"
  | .tooDeep => "justifications nested too deep"
  | .durationOverflow => "overflow in Duration::new"
  | .capacityOverflow => "capacity overflow"

/-- The sum of two 64-bit numbers, if it is in range. -/
def sum? (m n : UInt64) : Except Fault UInt64 :=
  if m.toNat + n.toNat < UInt64.size then .ok (m + n) else .error .additionOverflow

/-- The difference of two 64-bit numbers, if it is in range. -/
def difference? (m n : UInt64) : Except Fault UInt64 :=
  if n.toNat ≤ m.toNat then .ok (m - n) else .error .subtractionOverflow

/-- Room for a number of entries of the given size in bytes, if it can be addressed. -/
def room? (count entryBytes : Nat) : Except Fault Unit :=
  if count * entryBytes ≤ Int64.maxValue.toInt then .ok () else .error .capacityOverflow

end Conclave
