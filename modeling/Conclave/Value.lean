import Conclave.Bounds
import Conclave.Merkle
import Conclave.Scheme

/-!
# Values

What a committee decides on: bytes without a meaning to the protocol, together with their root.
Votes name a value by its root alone.
-/

namespace Conclave

/-- A value: its bytes and the root of the bytes. -/
structure Value (S : Scheme) where
  data : ByteArray
  root : Digest
  root_eq : root = Merkle.bytesRoot S.hashPair data Bounds.value

namespace Value

variable {S : Scheme}

/-- The value with the given bytes. -/
def ofBytes (data : ByteArray) : Value S := ⟨data, _, rfl⟩

@[ext] theorem ext {a b : Value S} (h : a.data = b.data) : a = b := by
  obtain ⟨d, r, hr⟩ := a
  obtain ⟨d', r', hr'⟩ := b
  obtain rfl : d = d' := h
  obtain rfl : r = r' := hr.trans hr'.symm
  rfl

instance : DecidableEq (Value S) := fun a b =>
  if h : a.root = b.root ∧ a.data = b.data then .isTrue (ext h.2)
  else .isFalse fun e => h (e ▸ ⟨rfl, rfl⟩)

end Value
end Conclave
