import Conclave.Context.Basic
import Conclave.Effect
import Conclave.Message.Aggregate
import Conclave.Message.Verification

/-!
# Errors of an instance

Why an instance rejects a message, or what went wrong when it acted on one. `Error.message` is the
text of an error.
-/

namespace Conclave
namespace Instance

/-- The causes for which an instance rejects a message or fails to act on it. -/
inductive Error
  /-- The round has reached the cutoff. -/
  | stopped
  /-- The message belongs to another stream. -/
  | wrongIdentifier
  /-- The message belongs to another height. -/
  | wrongHeight
  /-- The round of the message is over. -/
  | pastRound
  /-- The message is for another round than the one it is needed for. -/
  | wrongRound
  /-- No proposal is accepted that a vote could be for. -/
  | noProposalForRound
  /-- The message is about another value. -/
  | dataMismatch
  /-- The message may only have one signer. -/
  | singleSignerRequired
  /-- The signers or the signatures are invalid. -/
  | signature (cause : VerificationError)
  /-- The proposal is not by the proposer of its round. -/
  | invalidLeader
  /-- A proposal is already accepted in the round, or the round is over. -/
  | staleProposal
  /-- The proposed value may not be decided on. -/
  | invalidValue (cause : ValueError)
  /-- The round changes of a proposal are not by a quorum. -/
  | roundChangeNoQuorum
  /-- A round change of a proposal is invalid. -/
  | invalidRoundChangeJustification (cause : Error)
  /-- A prepare of a justification is invalid. -/
  | invalidPrepareJustification (cause : Error)
  /-- The prepares of a proposal are not by a quorum. -/
  | prepareNoQuorum
  /-- The proposed value is not the one prepared last. -/
  | highestPreparedMismatch
  /-- A round change reports a preparation that is not below its own round. -/
  | invalidPreparedRound
  /-- A justification has the wrong kind. -/
  | unexpectedJustificationType (type : MessageType)
  /-- A value is missing where there must be one. -/
  | missingProposal
  /-- The commits of a quorum cannot be combined. -/
  | aggregation (cause : AggregationError)
  /-- The state has changed, but the message about it was not sent. -/
  | broadcast (cause : NetworkError)
  /-- The instance went down. -/
  | fault (cause : Fault)
  deriving DecidableEq

namespace Error

/-- The text of an error. -/
def message : Error → String
  | .stopped => "instance stopped processing messages"
  | .wrongIdentifier => "invalid identifier"
  | .wrongHeight => "wrong msg height"
  | .pastRound => "past round"
  | .wrongRound => "wrong msg round"
  | .noProposalForRound => "did not receive proposal for this round"
  | .dataMismatch => "proposed data mismatch"
  | .singleSignerRequired => "msg allows 1 signer"
  | .signature cause => cause.message
  | .invalidLeader => "proposal leader invalid"
  | .staleProposal => "proposal is not valid with current state"
  | .invalidValue _ => "invalid value"
  | .roundChangeNoQuorum => "change round has no quorum"
  | .invalidRoundChangeJustification _ => "round change justification invalid"
  | .invalidPrepareJustification _ => "prepare justification invalid"
  | .prepareNoQuorum => "prepare justification has no quorum"
  | .highestPreparedMismatch => "proposed data doesn't match highest prepared"
  | .invalidPreparedRound => "round change prepared round must be lower than its round"
  | .unexpectedJustificationType _ => "invalid message type for justification"
  | .missingProposal => "no accepted proposal for round"
  | .aggregation cause => s!"failed to aggregate commits: {cause.message}"
  | .broadcast cause => s!"failed to broadcast message: {cause.message}"
  | .fault cause => cause.message

/-- Whether an error was raised after the state changed. -/
def isSideEffect : Error → Bool
  | .broadcast _ => true
  | _ => false

/-- The fault that took the instance down. -/
def fault? : Error → Option Fault
  | .fault cause => some cause
  | _ => none

end Error
end Instance
end Conclave
