import Conclave.Ed25519.Signature
import Conclave.Value

/-!
# Descriptions

Short texts about values and keys, for logs. Of keys and signatures they show the first eight bytes,
and nothing of a signing key.
-/

namespace Conclave

/-- The text about a digest. -/
def Digest.describe (d : Digest) : String := s!"Hash({d.hex})"

/-- The text about a value: its length and its root. -/
def Value.describe {S : Scheme} (v : Value S) : String :=
  "Value \x7b len: " ++ Nat.repr v.data.size ++ ", root: " ++ v.root.describe ++ " \x7d"

/-- The text about the name of a stream. -/
def describeIdentifier (identifier : ByteArray) : String :=
  s!"Identifier({Hex.encode identifier})"

namespace Ed25519

/-- The first eight bytes of a longer byte string. -/
def abridge (b : ByteArray) : String := Hex.encode (b.extract 0 8) ++ ".."

/-- The text about a signing key. -/
def SigningKey.describe (_ : SigningKey) : String := "PrivateKey(..)"

/-- The text about a verification key. -/
def PublicKey.describe (key : PublicKey) : String := s!"PublicKey({abridge key.bytes})"

/-- The text about a signature. -/
def Signature.describe (signature : Signature) : String :=
  s!"Signature({abridge signature.bytes})"

end Ed25519
end Conclave
