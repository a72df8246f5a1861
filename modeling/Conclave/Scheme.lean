import Conclave.Digest
import Conclave.Number

/-!
# Signature schemes

What the protocol asks of cryptography: a hash of two digests, and signatures over digests. The
protocol is the same over every scheme; what it needs of one is said where it is needed.
-/

namespace Conclave

/-- The primitives that all members of a committee use. -/
structure Scheme where
  /-- The hash of the concatenation of two digests. -/
  hashPair : Digest → Digest → Digest
  /-- The signature of a single member. -/
  Signature : Type
  /-- The key that verifies the signatures of a member. -/
  PublicKey : Type
  /-- The key that a member signs with. -/
  PrivateKey : Type
  /-- Signatures can be compared. -/
  decideSignature : DecidableEq Signature
  /-- Verification keys can be compared. -/
  decidePublicKey : DecidableEq PublicKey
  /-- The bytes of a signature. -/
  encodeSignature : Signature → ByteArray
  /-- The signature with the given bytes, or the text of what is wrong with them. -/
  decodeSignature : ByteArray → Except String Signature
  /-- The signature over a digest. -/
  sign : PrivateKey → Digest → Signature
  /-- Whether a signature over a digest verifies. -/
  verify : PublicKey → Digest → Signature → Bool

instance (S : Scheme) : DecidableEq S.Signature := S.decideSignature
instance (S : Scheme) : DecidableEq S.PublicKey := S.decidePublicKey

/-- A signature domain: four bytes that keep the signatures of different networks apart. -/
structure Domain where
  word : UInt32
  deriving DecidableEq

/-- The digest that a domain contributes to what is signed. -/
def Domain.digest (d : Domain) : Digest := Digest.ofUInt64 d.word.toUInt64

/-- Who signs: a member's name and the key it signs with. -/
structure Signer (S : Scheme) where
  id : OperatorId
  key : S.PrivateKey

end Conclave
