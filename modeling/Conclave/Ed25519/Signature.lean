import Conclave.Ed25519.Point
import Conclave.Hash.Sha512

/-!
# Ed25519 signatures

A signing key is derived from a seed of 32 bytes; a verification key is the encoding of a point; a
signature is the encoding of a point `R` followed by a number `s`, 64 bytes in all.

Any encoding of a point that `Point.decode?` takes is admitted in verification, `s` must be below
the group order, and the equation is checked up to the cofactor eight. So whether a signature
verifies does not depend on how an implementation batches the check.

Every 64 bytes are a `Signature`, and they decide its equality.
-/

namespace Conclave
namespace Ed25519

/-- A signature: 64 bytes. -/
structure Signature where
  bytes : ByteArray
  size_eq : bytes.size = 64
  deriving DecidableEq

/-- A verification key: 32 bytes that encode a point. -/
structure PublicKey where
  bytes : ByteArray
  point : Point
  size_eq : bytes.size = 32
  point_eq : Point.decode? bytes 0 = some point
  deriving DecidableEq

/-- The number, below the group order, that a hash of 64 bytes stands for. -/
def scalarOfHash (h : ByteArray) : Nat :=
  (Point.numberAt h 0 + Nat.pow 2 256 * Point.numberAt h 32) % order

/-- The number bound to a signature's point, a key and a message. -/
def challenge (r key message : ByteArray) : Nat :=
  scalarOfHash (Sha512.hash (r ++ key ++ message))

namespace Signature

/-- The text of a byte string that is not a signature. -/
def lengthError (length : Nat) : String :=
  s!"invalid signature length: expected 64, got {length}"

/-- A byte string as a signature, if it has 64 bytes. -/
def ofBytes (b : ByteArray) : Except String Signature :=
  if h : b.size = 64 then .ok ⟨b, h⟩ else .error (lengthError b.size)

end Signature

namespace PublicKey

/-- The key of 32 bytes, if they encode a point. -/
def ofBytes? (b : ByteArray) : Option PublicKey :=
  if h : b.size = 32 then
    match hp : Point.decode? b 0 with
    | some p => some ⟨b, p, h, hp⟩
    | none => none
  else none

/-- Whether a signature of a message verifies under a key. -/
def verify (key : PublicKey) (message : ByteArray) (signature : Signature) : Bool :=
  let s := Point.numberAt signature.bytes 32
  if s < order then
    match Point.decode? signature.bytes 0 with
    | none => false
    | some r =>
      let k := challenge (signature.bytes.extract 0 32) key.bytes message
      -- `s B - k A - R`, which is a point of small order if the signature verifies
      let rest := (Point.mulBase s).add ((Point.mul k key.point.neg).add r.neg)
      rest.double.double.double.isZero
  else false

end PublicKey

/-- A signing key: its secret number, the secret that its nonces are derived from, and the bytes of
its verification key. -/
structure SigningKey where
  scalar : Nat
  nonceSeed : ByteArray
  publicBytes : ByteArray

namespace SigningKey

/-- The signing key of a seed. The secret number has its three lowest bits and its highest bit
cleared and the bit below that set. -/
def ofSeed (seed : ByteArray) : SigningKey :=
  let h := Sha512.hash seed
  let high := Nat.pow 2 254
  let scalar := high + Point.numberAt h 0 % high / 8 * 8
  { scalar
    nonceSeed := h.extract 32 64
    publicBytes := (Point.mulBase scalar).encode }

/-- The signature of a message. -/
def sign (key : SigningKey) (message : ByteArray) : Signature :=
  let nonce := scalarOfHash (Sha512.hash (key.nonceSeed ++ message))
  let r := (Point.mulBase nonce).encode
  let k := challenge r key.publicBytes message
  ⟨r ++ Point.numberBytes ((nonce + k * key.scalar) % order), by simp [r]⟩

end SigningKey
end Ed25519
end Conclave
