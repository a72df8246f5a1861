/-!
# Equality of byte strings

Byte strings are compared in many places. The test is named here once, so that all comparisons use
the same one.
-/

namespace Conclave

/-- Byte strings with the same bytes are equal. -/
instance decideBytesEq : DecidableEq ByteArray := ByteArray.instDecidableEq

end Conclave
