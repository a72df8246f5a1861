import Conclave.Instance.Error
import Conclave.Instance.State

/-!
# Validation of messages

Which messages an instance acts on. Nothing here changes the state; of several causes for a
rejection the first one in the order of the checks is reported.

* `validateProposal`, `validateVote`, `validateRoundChange` are the checks of the kinds of messages,
  after `validateBase`;
* `validateProposalJustification` and `validatePrepareJustification` check what a proposal or a
  round change carries to justify it;
* `isJustified` tells which round changes a leader may build a proposal on.
-/

namespace Conclave
namespace Instance

variable {S : Scheme}

/-- Checks that a message belongs to this instance and that its round is not over. -/
def validateBase (seat : Seat S) (s : Instance S) (m : SignedMessage S) : Except Error Unit :=
  if m.identifier ≠ seat.identifier then .error .wrongIdentifier
  else if m.height ≠ s.height then .error .wrongHeight
  else if m.round < s.round then .error .pastRound
  else .ok ()

/-- The only signer of a message. A malformed list of signers is reported before its length. -/
def checkSingleSigner (m : SignedMessage S) : Except Error OperatorId := do
  (checkSigners m.signers).mapError .signature
  match m.signer? with
  | some id => return id
  | none => throw .singleSignerRequired

/-- Verifies the signatures of a message. -/
def verifySignature (seat : Seat S) (m : SignedMessage S) : Except Error Unit :=
  (m.verify seat.committee seat.context.domain).mapError .signature

/-- Checks the kind of a justification. -/
def checkType (m : SignedMessage S) (type : MessageType) : Except Error Unit :=
  if m.type = type then .ok () else .error (.unexpectedJustificationType m.type)

/-- Checks a prepare that is to justify a preparation of the value with the given root. -/
def validatePrepareFor (seat : Seat S) (s : Instance S) (m : SignedMessage S) (round : Round)
    (root : Digest) : Except Error OperatorId := do
  let signer ← checkSingleSigner m
  verifySignature seat m
  if m.height ≠ s.height then
    throw .wrongHeight
  if m.round ≠ round then
    throw .wrongRound
  if m.message.valueRoot? ≠ some root then
    throw .dataMismatch
  return signer

/-- Checks prepares by signers other than those already seen, and counts all signers. -/
def countPrepares (seat : Seat S) (s : Instance S) (round : Round) (root : Digest) :
    List OperatorId → List (SignedMessage S) → Except Error Nat
  | seen, [] => .ok seen.length
  | seen, m :: rest => do
    let signer ← (do
      checkType m .prepare
      validatePrepareFor seat s m round root).mapError .invalidPrepareJustification
    if signer ∈ seen then
      throw (.invalidPrepareJustification (.signature .nonUniqueSigner))
    countPrepares seat s round root (signer :: seen) rest

/-- Checks the prepares that justify a preparation, which must have different signers, and yields
the number of the signers. -/
def validatePrepareJustification (seat : Seat S) (s : Instance S) (prepares : List (SignedMessage S))
    (round : Round) (root : Digest) : Except Error Nat :=
  countPrepares seat s round root [] prepares

/-- Checks a round change for a round. If it reports a preparation, it must carry prepares for it,
though not necessarily those of a quorum. -/
def validateRoundChange (seat : Seat S) (s : Instance S) (m : SignedMessage S) (round : Round) :
    Except Error Unit := do
  let _ ← checkSingleSigner m
  verifySignature seat m
  if m.height ≠ s.height then
    throw .wrongHeight
  if m.round ≠ round then
    throw .wrongRound
  match m.message.preparedRound? with
  | none => return ()
  | some preparedRound =>
    if round ≤ preparedRound then
      throw .invalidPreparedRound
    match m.message.valueRoot? with
    | none => throw .missingProposal
    | some root =>
      let _ ← validatePrepareJustification seat s m.message.prepares preparedRound root
      return ()

/-- The round change that reports the preparation of the highest round, the first one on ties, if
it is above the one found before. -/
def highestPreparedAbove (found : Option (Round × SignedMessage S)) :
    List (SignedMessage S) → Option (Round × SignedMessage S)
  | [] => found
  | m :: rest =>
    match m.message.preparedRound? with
    | none => highestPreparedAbove found rest
    | some round =>
      if found.all fun best => best.1 < round then highestPreparedAbove (some (round, m)) rest
      else highestPreparedAbove found rest

/-- The round change that reports the preparation of the highest round, the first one on ties. -/
def highestPrepared? (ms : List (SignedMessage S)) : Option (SignedMessage S) :=
  (highestPreparedAbove none ms).map Prod.snd

/-- The members of a list without repetitions. -/
def distinct : List OperatorId → List OperatorId
  | [] => []
  | id :: rest => if id ∈ rest then distinct rest else id :: distinct rest

/-- The number of different signers of messages. -/
def distinctSigners (ms : List (SignedMessage S)) : Nat :=
  (distinct (ms.flatMap SignedMessage.signers)).length

/-- Checks that a value may be proposed in a round. In the first round any admissible value may. In
a higher one a quorum must ask for the round; if one of them reports a preparation, the value must
be the one prepared last, with the prepares of a quorum. -/
def validateProposalJustification (seat : Seat S) (s : Instance S) (round : Round)
    (value : Value S) (roundChanges prepares : List (SignedMessage S)) : Except Error Unit := do
  (seat.context.checkValue value).mapError .invalidValue
  if round = Round.first then
    return ()
  roundChanges.forM fun m =>
    (do
      checkType m .roundChange
      validateRoundChange seat s m round).mapError .invalidRoundChangeJustification
  if distinctSigners roundChanges < seat.committee.quorum then
    throw .roundChangeNoQuorum
  match highestPrepared? roundChanges with
  | none => return ()
  | some highest =>
    match highest.message.preparedRound?, highest.message.valueRoot? with
    | some preparedRound, some root =>
      if value.root ≠ root then
        throw .highestPreparedMismatch
      let signers ← validatePrepareJustification seat s prepares preparedRound root
      if signers < seat.committee.quorum then
        throw .prepareNoQuorum
    | _, _ => throw .missingProposal

/-- The proposer of a round. -/
def leader (seat : Seat S) (s : Instance S) (round : Round) : Except Error OperatorId :=
  (seat.context.proposer seat.committee s.height round).mapError .fault

/-- Checks a proposal for the current or a higher round. -/
def validateProposal (seat : Seat S) (s : Instance S) (m : SignedMessage S) :
    Except Error Unit := do
  let signer ← checkSingleSigner m
  verifySignature seat m
  let leader ← leader seat s m.round
  if signer ≠ leader then
    throw .invalidLeader
  match m.message.value? with
  | none => throw .missingProposal
  | some value =>
    validateProposalJustification seat s m.round value m.message.roundChanges m.message.prepares
    if ¬ (m.round = s.round ∧ s.accepted.isNone) ∧ m.round ≤ s.round then
      throw .staleProposal

/-- Checks a prepare or a commit against the accepted proposal. A malformed list of signers is
reported before all else. -/
def validateVote (seat : Seat S) (s : Instance S) (m : SignedMessage S) : Except Error Unit := do
  (checkSigners m.signers).mapError .signature
  match s.accepted with
  | none => throw .noProposalForRound
  | some proposal =>
    if m.round ≠ proposal.round then
      throw .wrongRound
    if m.message.valueRoot? ≠ proposal.message.valueRoot? then
      throw .dataMismatch
    let _ ← checkSingleSigner m
    verifySignature seat m

/-- Whether a proposal may be built on a round change: it reports no preparation, or it carries the
prepares of a quorum for the value it reports. -/
def isJustified (seat : Seat S) (s : Instance S) (m : SignedMessage S) : Bool :=
  match m.message.preparedRound? with
  | none => true
  | some round =>
    match m.message.valueRoot? with
    | none => false
    | some root =>
      match validatePrepareJustification seat s m.message.prepares round root with
      | .ok signers => seat.committee.quorum ≤ signers
      | .error _ => false

end Instance
end Conclave
