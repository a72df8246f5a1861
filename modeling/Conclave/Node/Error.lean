import Conclave.Instance.Error
import Conclave.Node.Archive

/-!
# Errors of a node

Why a node refuses an operation, and which side effects of a decision failed.
-/

namespace Conclave
namespace Node

/-- The causes for which a decided message is rejected. -/
inductive DecidedError
  /-- The signers are no quorum. -/
  | noQuorum (signers quorum : Nat)
  /-- The signers or the signatures are invalid. -/
  | signature (cause : VerificationError)
  deriving DecidableEq

/-- The text of an error. -/
def DecidedError.message : DecidedError → String
  | .noQuorum signers quorum => s!"decided message has {signers} signers, quorum is {quorum}"
  | .signature cause => cause.message

/-- The causes for which a node refuses an operation. -/
inductive Error
  /-- The value to propose may not be decided on. -/
  | invalidValue (cause : ValueError)
  /-- The instance of the latest height has not decided. -/
  | previousNotDecided (height : Height)
  /-- The message belongs to another stream. -/
  | wrongIdentifier
  /-- No instance of the height is kept. -/
  | instanceNotFound (height : Height)
  /-- The decided message is invalid. -/
  | invalidDecided (cause : DecidedError)
  /-- The instance rejects the message. -/
  | rejected (cause : Instance.Error)
  /-- The stored decision cannot be read. -/
  | storage (cause : StorageError)
  /-- The node went down. -/
  | fault (cause : Fault)
  deriving DecidableEq

/-- The text of an error. -/
def Error.message : Error → String
  | .invalidValue _ => "invalid value"
  | .previousNotDecided height => s!"previous instance hasn't decided, height {height.toNat}"
  | .wrongIdentifier => "invalid identifier"
  | .instanceNotFound _ => "instance not found"
  | .invalidDecided cause => s!"invalid decided message: {cause.message}"
  | .rejected cause => cause.message
  | .storage cause => s!"failed to read highest decided: {cause.message}"
  | .fault cause => cause.message

/-- The fault that took the node down. -/
def Error.fault? : Error → Option Fault
  | .rejected cause => cause.fault?
  | .fault cause => some cause
  | _ => none

/-- A side effect of a decision that failed. The decision stands regardless. -/
inductive SideEffectError
  /-- The decision was not stored. -/
  | persist (cause : StorageError)
  /-- The decision was not announced. -/
  | broadcast (cause : NetworkError)
  deriving DecidableEq

/-- The text of an error. -/
def SideEffectError.message : SideEffectError → String
  | .persist cause => s!"failed to persist decision: {cause.message}"
  | .broadcast cause => s!"failed to broadcast decision: {cause.message}"

end Node
end Conclave
