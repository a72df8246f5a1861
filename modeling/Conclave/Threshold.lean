/-!
# Quorum sizes

A committee of `n` members tolerates `f = (n - 1) / 3` faulty ones. A quorum has `n - f` members,
so that any two quorums share a member that is not faulty; a partial quorum has `f + 1`, so that it
has such a member.
-/

namespace Conclave

/-- The sizes of the quorums of a committee. -/
structure Thresholds where
  quorum : Nat
  partialQuorum : Nat
  deriving DecidableEq

namespace Thresholds

/-- The sizes for a committee of `n` members. -/
def ofSize (n : Nat) : Thresholds :=
  let faulty := (n - 1) / 3
  ⟨n - faulty, faulty + 1⟩

/-- The number of faulty members that are tolerated. -/
def faulty (t : Thresholds) : Nat := t.partialQuorum - 1

/-- Whether a number of members makes a quorum. -/
def isQuorum (t : Thresholds) (members : Nat) : Bool := t.quorum ≤ members

/-- Whether a number of members makes a partial quorum. -/
def isPartialQuorum (t : Thresholds) (members : Nat) : Bool := t.partialQuorum ≤ members

end Thresholds
end Conclave
