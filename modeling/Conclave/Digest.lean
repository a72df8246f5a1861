import Conclave.Bytes.LittleEndian
import Conclave.Bytes.Hex

/-!
# Digests

A digest is 32 bytes. It is held as four 64-bit words, each of them eight bytes in little-endian
order, which is the form the hash function works on. Digests are also the leaves of a Merkle tree.
-/

namespace Conclave

/-- A digest of 32 bytes, as four little-endian words. -/
structure Digest where
  word0 : UInt64
  word1 : UInt64
  word2 : UInt64
  word3 : UInt64
  deriving DecidableEq

namespace Digest

/-- The number of bytes of a digest. -/
def length : Nat := 32

/-- The digest of 32 zero bytes. -/
def zero : Digest := ⟨0, 0, 0, 0⟩

instance : Inhabited Digest := ⟨zero⟩

/-- The digest whose first eight bytes are a number and whose other bytes are zero. -/
def ofUInt64 (n : UInt64) : Digest := ⟨n, 0, 0, 0⟩

/-- The 32 bytes from position `i` on; bytes past the end of the array are zero. -/
def ofBytesAt (b : ByteArray) (i : Nat) : Digest :=
  ⟨LittleEndian.uint64At b i, LittleEndian.uint64At b (i + 8),
    LittleEndian.uint64At b (i + 16), LittleEndian.uint64At b (i + 24)⟩

/-- The digest with the given first bytes, filled up with zeros. -/
def ofBytes (b : ByteArray) : Digest := ofBytesAt b 0

/-- The 32 bytes of a digest. -/
def toBytes (d : Digest) : ByteArray :=
  LittleEndian.ofUInt64 d.word0 ++ LittleEndian.ofUInt64 d.word1 ++
    LittleEndian.ofUInt64 d.word2 ++ LittleEndian.ofUInt64 d.word3

@[simp] theorem size_toBytes (d : Digest) : d.toBytes.size = 32 := by
  simp [toBytes]

/-- The text of a digest: its bytes in hexadecimal. -/
def hex (d : Digest) : String := Hex.encode d.toBytes

instance : ToString Digest := ⟨hex⟩

end Digest
end Conclave
