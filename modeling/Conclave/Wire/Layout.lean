import Conclave.Bytes.LittleEndian
import Conclave.Wire.Error

/-!
# Layout of the encoding

Parts of variable size follow a fixed part in order. The fixed part holds the offset of each of
them, a 32-bit number counted from the beginning of the container. A list of items of variable size
is a table of their offsets followed by the items, and an empty list takes no bytes.

```text
SignedMessage := signers:u32 signatures:u32 message:u32
                 [u64] [bytes] Message
Message       := type:u8 height:u64 round:u64 identifier:u32 root:[u8; 32]
                 preparedRound:u64 value:u32 roundChanges:u32 prepares:u32
                 bytes bytes [SignedMessage] [SignedMessage]
```

`offsets` and `concat` write the two halves, `split` cuts a container at its offsets, and
`splitList` reads a list of items of variable size.
-/

namespace Conclave
namespace Wire

/-- The number of bytes of an offset. -/
def offsetSize : Nat := 4

/-- The number of bytes before the variable parts of a signed message. -/
def signedMessageHead : Nat := 12

/-- The number of bytes before the variable parts of a message. -/
def messageHead : Nat := 73

/-! ### Writing -/

/-- The concatenation of all parts. -/
def concat : List ByteArray → ByteArray
  | [] => ByteArray.empty
  | part :: rest => part ++ concat rest

/-- The encoding of an offset. -/
def offset (n : Nat) : ByteArray := LittleEndian.ofUInt32 (UInt32.ofNat n)

/-- The offsets of parts that begin at `start`. -/
def offsets (start : Nat) : List ByteArray → ByteArray
  | [] => ByteArray.empty
  | part :: rest => offset start ++ offsets (start + part.size) rest

/-- A list of items of variable size. -/
def joinList (items : List ByteArray) : ByteArray :=
  offsets (offsetSize * items.length) items ++ concat items

/-! ### Reading -/

/-- The bytes from `start` up to `stop`; both must lie within. -/
def slice (b : ByteArray) (start stop : Nat) : Except Error ByteArray :=
  if start ≤ stop ∧ stop ≤ b.size then .ok (b.extract start stop)
  else .error (.fault .outOfBounds)

/-- The byte at a position, which must lie within. -/
def byteAt (b : ByteArray) (i : Nat) : Except Error UInt8 :=
  if h : i < b.size then .ok b[i] else .error (.fault .outOfBounds)

/-- The 64-bit number at a position; its bytes must lie within. -/
def uint64At (b : ByteArray) (i : Nat) : Except Error UInt64 :=
  if i + 8 ≤ b.size then .ok (LittleEndian.uint64At b i) else .error (.fault .outOfBounds)

/-- The digest at a position; its bytes must lie within. -/
def digestAt (b : ByteArray) (i : Nat) : Except Error Digest :=
  if i + 32 ≤ b.size then .ok (Digest.ofBytesAt b i) else .error (.fault .outOfBounds)

/-- The offset at a position, where the input may end too early. -/
def offsetAt (b : ByteArray) (i : Nat) : Except Error Nat :=
  if i + offsetSize ≤ b.size then .ok (LittleEndian.uint32At b i).toNat
  else .error (.unexpectedEnd (i + offsetSize) b.size)

/-- The parts that begin at the given offsets, each of them up to the next; none of the offsets may
be below `least`. -/
def splitFrom (b : ByteArray) (least : Nat) : List Nat → Except Error (List ByteArray)
  | [] => .ok []
  | start :: rest => do
    if start < least ∨ b.size < start then
      throw (.invalidOffset start least)
    let stop := rest.headD b.size
    if stop < start ∨ b.size < stop then
      throw (.invalidOffset stop start)
    let part ← slice b start stop
    return part :: (← splitFrom b start rest)

/-- The parts of a container; the first must follow the fixed part of the given size. -/
def split (b : ByteArray) (head : Nat) (starts : List Nat) : Except Error (List ByteArray) :=
  match starts with
  | [] => .ok []
  | start :: _ =>
    if start ≠ head then .error (.invalidOffset start head) else splitFrom b head starts

/-- The items of a list of items of variable size. -/
def splitList (b : ByteArray) (field : Field) (bound : Nat) : Except Error (List ByteArray) := do
  if b.size = 0 then
    return []
  let first ← offsetAt b 0
  if first = 0 ∨ first % offsetSize ≠ 0 ∨ b.size < first then
    throw (.invalidLength field first)
  let count := first / offsetSize
  checkBound field count bound
  let starts ← (List.range count).mapM fun i => offsetAt b (i * offsetSize)
  split b first starts

end Wire
end Conclave
