import Conclave.Message.Basic

/-!
# Aggregation

Several members sign one message on their own; `aggregate` combines what they signed into one
message with all their signatures, in ascending order of the signers.
-/

namespace Conclave

/-- The causes for which messages cannot be combined. -/
inductive AggregationError
  | nothingToAggregate
  | differentMessages
  | overlappingSigners
  deriving DecidableEq

/-- The text of an error. -/
def AggregationError.message : AggregationError → String
  | .nothingToAggregate => "nothing to aggregate"
  | .differentMessages => "cannot aggregate signatures over different messages"
  | .overlappingSigners => "cannot aggregate overlapping signer sets"

namespace SignedMessage

variable {S : Scheme}

/-- The signers of all given messages with their signatures, in ascending order of the signers. -/
def sortedPairs (ms : List (SignedMessage S)) : List (OperatorId × S.Signature) :=
  (ms.flatMap pairs).mergeSort fun a b => decide (a.1 ≤ b.1)

/-- Whether two neighbours in a list of signers are the same. -/
def hasEqualNeighbours (ids : List OperatorId) : Bool :=
  (ids.zip ids.tail).any fun p => p.1 = p.2

/-- The message with the signatures of all given ones, which must be over the same message and by
different signers: in ascending order no two neighbours may be the same. -/
def aggregate (ms : List (SignedMessage S)) : Except AggregationError (SignedMessage S) :=
  match ms with
  | [] => .error .nothingToAggregate
  | first :: rest =>
    if rest.any fun m => m.message ≠ first.message then .error .differentMessages
    else
      let all := sortedPairs ms
      if hasEqualNeighbours (all.map Prod.fst) then .error .overlappingSigners
      else .ok ⟨first.message, all.map Prod.fst, all.map Prod.snd⟩

end SignedMessage
end Conclave
