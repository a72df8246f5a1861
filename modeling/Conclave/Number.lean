import Conclave.Fault

/-!
# Heights, rounds and operators

The three kinds of 64-bit numbers that messages carry. They are types of their own, so that none
can stand for another; all are ordered by their value.

* `Height` is a decision slot: one instance of consensus runs at each height.
* `Round` is an attempt within an instance. Rounds start at one; zero stands for "no round" in an
  encoding.
* `OperatorId` names a member of a committee, that is, a signer.
-/

namespace Conclave

/-- A decision slot. -/
structure Height where
  word : UInt64
  deriving DecidableEq

namespace Height

/-- The value of a height. -/
def toNat (h : Height) : Nat := h.word.toNat

instance : LT Height := ⟨fun a b => a.word < b.word⟩
instance : LE Height := ⟨fun a b => a.word ≤ b.word⟩
instance (a b : Height) : Decidable (a < b) := inferInstanceAs (Decidable (a.word < b.word))
instance (a b : Height) : Decidable (a ≤ b) := inferInstanceAs (Decidable (a.word ≤ b.word))

instance : ToString Height := ⟨fun h => toString h.toNat⟩

/-- The first height. -/
def first : Height := ⟨0⟩

/-- The next height. -/
def next? (h : Height) : Except Fault Height := (sum? h.word 1).map Height.mk

/-- The height before, if there is one. -/
def previous? (h : Height) : Option Height :=
  if h.word = 0 then none else some ⟨h.word - 1⟩

end Height

/-- An attempt within an instance. -/
structure Round where
  word : UInt64
  deriving DecidableEq

namespace Round

/-- The value of a round. -/
def toNat (r : Round) : Nat := r.word.toNat

instance : LT Round := ⟨fun a b => a.word < b.word⟩
instance : LE Round := ⟨fun a b => a.word ≤ b.word⟩
instance (a b : Round) : Decidable (a < b) := inferInstanceAs (Decidable (a.word < b.word))
instance (a b : Round) : Decidable (a ≤ b) := inferInstanceAs (Decidable (a.word ≤ b.word))

instance : ToString Round := ⟨fun r => toString r.toNat⟩

/-- The round every instance starts in. -/
def first : Round := ⟨1⟩

/-- The next round. -/
def next? (r : Round) : Except Fault Round := (sum? r.word 1).map Round.mk

end Round

/-- The name of a committee member. -/
structure OperatorId where
  word : UInt64
  deriving DecidableEq

namespace OperatorId

/-- The value of a name. -/
def toNat (i : OperatorId) : Nat := i.word.toNat

instance : LT OperatorId := ⟨fun a b => a.word < b.word⟩
instance : LE OperatorId := ⟨fun a b => a.word ≤ b.word⟩
instance (a b : OperatorId) : Decidable (a < b) := inferInstanceAs (Decidable (a.word < b.word))
instance (a b : OperatorId) : Decidable (a ≤ b) := inferInstanceAs (Decidable (a.word ≤ b.word))

instance : ToString OperatorId := ⟨fun i => toString i.toNat⟩

end OperatorId
end Conclave
