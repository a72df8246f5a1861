import Conclave.Ed25519.Signature
import Conclave.Hash.Sha3
import Conclave.Scheme

/-!
# The scheme of Ed25519 and SHA3-256

Ed25519 cannot combine signatures, so the signature of a set of members is the list of theirs. A
digest is signed as its 32 bytes.
-/

namespace Conclave

/-- Ed25519 signatures over Merkle roots by SHA3-256. -/
abbrev ed25519 : Scheme where
  hashPair := Sha3.hashPair
  Signature := Ed25519.Signature
  PublicKey := Ed25519.PublicKey
  PrivateKey := Ed25519.SigningKey
  decideSignature := inferInstance
  decidePublicKey := inferInstance
  encodeSignature := Ed25519.Signature.bytes
  decodeSignature := Ed25519.Signature.ofBytes
  sign key d := key.sign d.toBytes
  verify key d signature := key.verify d.toBytes signature

end Conclave
