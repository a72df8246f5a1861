import Conclave.Context.Basic

/-!
# The round-robin context

Members propose in turn: the first member in round one of height zero, and the next one with each
round and each height. A value may be decided on unless it is empty or the one payload that is
declared invalid.
-/

namespace Conclave
namespace Context

variable {S : Scheme}

/-- The position of the proposer among `size` members: `height + round - 1` modulo the size,
provided that neither the sum nor the difference leaves the 64-bit numbers. -/
def turn (size : Nat) (height : Height) (round : Round) : Except Fault Nat := do
  let sum ← sum? height.word round.word
  let index ← difference? sum 1
  return index.toNat % size

/-- The member whose turn it is. -/
def proposerInTurn (committee : Committee S) (height : Height) (round : Round) :
    Except Fault OperatorId := do
  if committee.size = 0 then
    throw .emptyCommittee
  let index ← turn committee.size height round
  match committee.at? index with
  | some member => return member.id
  | none => throw .emptyCommittee

/-- The payload that no committee may decide on. -/
def invalidPayload : ByteArray := "invalid".toUTF8

/-- Rejects the empty value and the invalid payload. -/
def checkPayload (value : Value S) : Except ValueError Unit :=
  if value.data.size = 0 then .error ⟨"empty value"⟩
  else if value.data = invalidPayload then .error ⟨"value rejected by the value check"⟩
  else .ok ()

/-- The context in which members propose in turn. -/
def roundRobin (domain : Domain) : Context S where
  proposer := proposerInTurn
  checkValue := checkPayload
  domain := domain

end Context
end Conclave
