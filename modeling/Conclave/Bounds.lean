/-!
# Bounds

The bounds on the parts of a message. They fix the heights of the Merkle trees, hence the digests
that are signed.
-/

namespace Conclave
namespace Bounds

/-- The most messages in a list of justifications. -/
def justifications : Nat := 13

/-- The most signers of a message. -/
def signers : Nat := 13

/-- The most bytes of the name of a stream. -/
def identifier : Nat := 56

/-- The most bytes of a value. -/
def value : Nat := 4194304

/-- The most bytes of an encoded signature. -/
def signature : Nat := 96

/-- The most bytes of an encoded message. -/
def encoding : Nat := 4 * value

end Bounds
end Conclave
