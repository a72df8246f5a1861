import Conclave.Committee
import Conclave.Value

/-!
# Contexts

The rules of a deployment that the protocol leaves open: who proposes in a round, which values may
be decided on, and the domain that signatures are bound to. All members of a committee use the same
rules.
-/

namespace Conclave

/-- Why a value may not be decided on. -/
structure ValueError where
  reason : String
  deriving DecidableEq

/-- The text of an error. -/
def ValueError.message (e : ValueError) : String := e.reason

/-- The rules of a deployment. -/
structure Context (S : Scheme) where
  /-- The proposer of a round. -/
  proposer : Committee S → Height → Round → Except Fault OperatorId
  /-- Checks that a value may be decided on. -/
  checkValue : Value S → Except ValueError Unit
  /-- The domain of all signatures. -/
  domain : Domain

end Conclave
