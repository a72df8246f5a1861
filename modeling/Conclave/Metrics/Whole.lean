/-!
# Whole numbers in double precision

Sums of rounds are kept as whole numbers of the binary64 format: a natural number is rounded to 53
significant bits, to the even neighbour on ties.
-/

namespace Conclave
namespace Whole

/-- The distance of a number of the format to the next one above. -/
def unit (n : Nat) : Nat := Nat.pow 2 (n.log2 - 52)

/-- The number of the format nearest to `n`. -/
def round (n : Nat) : Nat :=
  let u := unit n
  let q := n / u
  let twice := 2 * (n % u)
  if u < twice ∨ (twice = u ∧ q % 2 = 1) then (q + 1) * u else q * u

/-- The sum of two numbers of the format. -/
def add (a b : Nat) : Nat := round (a + b)

end Whole
end Conclave
