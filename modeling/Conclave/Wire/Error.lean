import Conclave.Fault
import Conclave.Message.Basic

/-!
# Errors of the encoding

Why a message has no encoding, or why bytes are not the encoding of a message. `Error.message` is
the text of an error.
-/

namespace Conclave
namespace Wire

/-- The parts of a message that errors name. -/
inductive Field
  | message
  | signers
  | signatures
  | signature
  | identifier
  | value
  | root
  | preparedRound
  | justifications
  | justification
  | roundChangeJustification
  | prepareJustification
  deriving DecidableEq

/-- The name of a part. -/
def Field.name : Field → String
  | .message => "message"
  | .signers => "signers"
  | .signatures => "signatures"
  | .signature => "signature"
  | .identifier => "identifier"
  | .value => "value"
  | .root => "root"
  | .preparedRound => "prepared round"
  | .justifications => "justifications"
  | .justification => "justification"
  | .roundChangeJustification => "round change justification"
  | .prepareJustification => "prepare justification"

/-- The causes for which encoding or decoding fails. -/
inductive Error
  /-- The input ends before a part that must be there. -/
  | unexpectedEnd (needed got : Nat)
  /-- An offset lies before the part it follows, or outside the input. -/
  | invalidOffset (offset expected : Nat)
  /-- A part has a length that no list of its items has. -/
  | invalidLength (field : Field) (length : Nat)
  /-- A part is longer than it may be. -/
  | tooLong (field : Field) (length bound : Nat)
  /-- There is not one signature for each signer. -/
  | signerSignatureMismatch (signers signatures : Nat)
  /-- No kind of message has this number. -/
  | unknownType (tag : UInt8)
  /-- The scheme knows no signature with these bytes. -/
  | invalidSignature (reason : String)
  /-- The carried value has another root. -/
  | rootMismatch
  /-- A part is present that messages of this kind do not have. -/
  | unexpectedField (field : Field) (type : MessageType)
  /-- A fault, which no input brings about. -/
  | fault (cause : Fault)
  deriving DecidableEq

/-- The text of an error. -/
def Error.message : Error → String
  | .unexpectedEnd needed got => s!"unexpected end of input: need {needed} bytes, got {got}"
  | .invalidOffset offset expected => s!"invalid offset {offset}, expected {expected}"
  | .invalidLength field length => s!"invalid length {length} for {field.name}"
  | .tooLong field length bound => s!"{field.name} exceeds bound: {length} > {bound}"
  | .signerSignatureMismatch signers signatures =>
    s!"signers and signatures differ in length: {signers} signers, {signatures} signatures"
  | .unknownType tag => MessageType.unknownTagError tag
  | .invalidSignature reason => s!"invalid signature encoding: {reason}"
  | .rootMismatch => "root does not match the carried value"
  | .unexpectedField field type => s!"unexpected {field.name} in {type.name} message"
  | .fault cause => cause.message

/-- Fails if a length is above its bound. -/
def checkBound (field : Field) (length bound : Nat) : Except Error Unit :=
  if bound < length then .error (.tooLong field length bound) else .ok ()

end Wire
end Conclave
