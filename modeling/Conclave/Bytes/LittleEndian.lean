import Conclave.Bytes.Equality

/-!
# Little-endian words

The byte forms of 32-bit and 64-bit words, least significant byte first:

* `ofUInt32`, `ofUInt64` write a word as four or eight bytes;
* `uint32At`, `uint64At` read the word that starts at a position.

A byte outside the array reads as zero, which is also how a last, incomplete word is padded.
-/

namespace Conclave
namespace LittleEndian

/-- The byte at position `i`, or zero outside the array. -/
@[inline] def byteAt (b : ByteArray) (i : Nat) : UInt8 :=
  if h : i < b.size then b[i] else 0

/-- The four bytes of a word. -/
def ofUInt32 (w : UInt32) : ByteArray :=
  ((((ByteArray.emptyWithCapacity 4).push w.toUInt8).push (w >>> 8).toUInt8).push
    (w >>> 16).toUInt8).push (w >>> 24).toUInt8

/-- The eight bytes of a word. -/
def ofUInt64 (w : UInt64) : ByteArray :=
  ((((((((ByteArray.emptyWithCapacity 8).push w.toUInt8).push (w >>> 8).toUInt8).push
    (w >>> 16).toUInt8).push (w >>> 24).toUInt8).push (w >>> 32).toUInt8).push
    (w >>> 40).toUInt8).push (w >>> 48).toUInt8).push (w >>> 56).toUInt8

/-- The word whose four bytes start at position `i`. -/
def uint32At (b : ByteArray) (i : Nat) : UInt32 :=
  (byteAt b i).toUInt32 + 256 * ((byteAt b (i + 1)).toUInt32 +
    256 * ((byteAt b (i + 2)).toUInt32 + 256 * (byteAt b (i + 3)).toUInt32))

/-- The word whose eight bytes start at position `i`. -/
def uint64At (b : ByteArray) (i : Nat) : UInt64 :=
  (byteAt b i).toUInt64 + 256 * ((byteAt b (i + 1)).toUInt64 +
    256 * ((byteAt b (i + 2)).toUInt64 + 256 * ((byteAt b (i + 3)).toUInt64 +
    256 * ((byteAt b (i + 4)).toUInt64 + 256 * ((byteAt b (i + 5)).toUInt64 +
    256 * ((byteAt b (i + 6)).toUInt64 + 256 * (byteAt b (i + 7)).toUInt64))))))

@[simp] theorem size_ofUInt32 (w : UInt32) : (ofUInt32 w).size = 4 := rfl

@[simp] theorem size_ofUInt64 (w : UInt64) : (ofUInt64 w).size = 8 := rfl

end LittleEndian
end Conclave
