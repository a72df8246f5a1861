import Conclave.Digest
import Conclave.Fault

/-!
# Merkle roots

Protocol data is reduced to digests, the leaves of a binary tree. A tree has room for a power of
two of leaves, the least one that is not below a limit; places without a leaf hold zeros.

* `root` is the root of such a tree. Only the layers' beginnings are kept: everything behind the
  last leaf is a subtree of zeros, known by its height alone.
* `mixLength` binds the number of items to a root, so that two lists that differ in the number of
  zero items at the end have different roots.
* `bytesRoot`, `listRoot`, `containerRoot` are the roots of bytes, of a list of bounded length and
  of a record of fixed size; `signingRoot` binds a root to a signature domain.

The hash function `hashPair` of the inner nodes is a parameter.
-/

namespace Conclave
namespace Merkle

/-- The number of bytes of a leaf. -/
def chunkSize : Nat := 32

/-- The leaves of a byte string, the last one filled up with zeros. -/
def pack (b : ByteArray) : Array Digest :=
  Array.ofFn fun i : Fin ((b.size + 31) / 32) => Digest.ofBytesAt b (32 * i)

/-- The height of the least tree with room for a limit and for the given number of leaves. -/
def depth (limit leaves : Nat) : Nat :=
  let places := max limit (max leaves 1)
  if Nat.pow 2 places.log2 < places then places.log2 + 1 else places.log2

section

variable (hashPair : Digest → Digest → Digest)

/-- The layer above a layer; `zero` stands for all nodes behind those that are kept. -/
def layerAbove (zero : Digest) (layer : Array Digest) : Array Digest :=
  Array.ofFn fun i : Fin ((layer.size + 1) / 2) =>
    hashPair (layer.getD (2 * i) zero) (layer.getD (2 * i + 1) zero)

/-- The first node of the layer `n` steps above a layer. -/
def climb : Nat → Digest → Array Digest → Digest
  | 0, zero, layer => layer.getD 0 zero
  | n + 1, zero, layer => climb n (hashPair zero zero) (layerAbove hashPair zero layer)

/-- The root of the tree with the given leaves and with room for at least `limit` leaves. -/
def root (leaves : Array Digest) (limit : Nat) : Digest :=
  climb hashPair (depth limit leaves.size) Digest.zero leaves

/-- The root, for a limit that may be out of range: more than `2 ^ 63` leaves have no power of two
above them among the 64-bit numbers. -/
def root? (leaves : Array Digest) (limit : Nat) : Except Fault Digest :=
  if max limit leaves.size ≤ Nat.pow 2 63 then .ok (root hashPair leaves limit)
  else .error .additionOverflow

/-- The root of a sequence bound to its length. -/
def mixLength (root : Digest) (length : Nat) : Digest :=
  hashPair root (Digest.ofUInt64 (UInt64.ofNat length))

/-- The root of a byte string of at most `maxLength` bytes. -/
def bytesRoot (b : ByteArray) (maxLength : Nat) : Digest :=
  mixLength hashPair (root hashPair (pack b) ((maxLength + 31) / 32)) b.size

/-- The root of a list of at most `maxLength` items, given by their roots. -/
def listRoot (items : List Digest) (maxLength : Nat) : Digest :=
  mixLength hashPair (root hashPair items.toArray maxLength) items.length

/-- The root of a list, for a bound that may be out of range. -/
def listRoot? (items : List Digest) (maxLength : Nat) : Except Fault Digest :=
  (root? hashPair items.toArray maxLength).map fun r => mixLength hashPair r items.length

/-- The root of a record, given by the roots of its fields. -/
def containerRoot (fields : List Digest) : Digest :=
  root hashPair fields.toArray fields.length

end

end Merkle
end Conclave
