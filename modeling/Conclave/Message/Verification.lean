import Conclave.Committee
import Conclave.Message.Root

/-!
# Verification of signed messages

A signed message is checked in two steps: the form of its list of signers, and each signature under
the key of its signer.

* `checkSigners` accepts the nonempty lists in strictly ascending order;
* `verify` accepts a message if in addition each signer is a member whose signature verifies.
-/

namespace Conclave

/-- The causes for which a signed message does not verify. -/
inductive VerificationError
  | noSigners
  | nonUniqueSigner
  | signersNotSorted
  | signatureCountMismatch
  | unknownSigner (id : OperatorId)
  | invalidSignature (id : OperatorId)
  deriving DecidableEq

/-- The text of an error. -/
def VerificationError.message : VerificationError → String
  | .noSigners => "no signers"
  | .nonUniqueSigner => "non unique signer"
  | .signersNotSorted => "signers not sorted"
  | .signatureCountMismatch => "signers and signatures differ in length"
  | .unknownSigner id => s!"unknown signer: {id.toNat}"
  | .invalidSignature _ => "msg signature invalid"

/-- Checks the form of a list of signers. A repeated signer is reported before a wrong order. -/
def checkSigners (signers : List OperatorId) : Except VerificationError Unit :=
  if signers = [] then .error .noSigners
  else if ¬ signers.Nodup then .error .nonUniqueSigner
  else if ¬ signers.Pairwise (fun a b => a < b) then .error .signersNotSorted
  else .ok ()

namespace SignedMessage

variable {S : Scheme}

/-- Checks that each signer is a member and that its signature over a digest verifies. -/
def verifyPairs (committee : Committee S) (signed : Digest) :
    List (OperatorId × S.Signature) → Except VerificationError Unit
  | [] => .ok ()
  | (id, signature) :: rest =>
    match committee.get? id with
    | none => .error (.unknownSigner id)
    | some member =>
      if S.verify member.publicKey signed signature then verifyPairs committee signed rest
      else .error (.invalidSignature id)

/-- Checks the signers of a message and their signatures under a domain. -/
def verify (committee : Committee S) (domain : Domain) (m : SignedMessage S) :
    Except VerificationError Unit := do
  checkSigners m.signers
  if m.signers.length ≠ m.signatures.length then
    throw .signatureCountMismatch
  verifyPairs committee (m.message.signingRoot domain) m.pairs

end SignedMessage
end Conclave
