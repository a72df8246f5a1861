/-!
# Hexadecimal text

Bytes as lower-case hexadecimal digits, two for each byte, high digit first.
-/

namespace Conclave
namespace Hex

/-- The digit of a number below sixteen. -/
def digit (n : UInt8) : Char :=
  Char.ofNat (if n < 10 then 48 + n.toNat else 87 + n.toNat)

/-- The digits of one byte appended to a text. -/
def push (s : String) (b : UInt8) : String :=
  (s.push (digit (b >>> 4))).push (digit (b &&& 15))

/-- The digits of all bytes. -/
def encode (b : ByteArray) : String :=
  b.foldl push ""

end Hex
end Conclave
