/-!
# The field of the curve

Arithmetic modulo the prime `2 ^ 255 - 19`, on natural numbers. A reduced number is below the
prime; sums are left unreduced where the next product reduces them.
-/

namespace Conclave
namespace Ed25519

/-- The prime `2 ^ 255 - 19`. -/
def prime : Nat := 0x7fffffffffffffffffffffffffffffffffffffffffffffffffffffffffffffed

namespace Field

/-- The product, reduced. -/
@[inline] def mul (a b : Nat) : Nat := a * b % prime

/-- The difference of two reduced numbers, not reduced but nonnegative. -/
@[inline] def sub (a b : Nat) : Nat := a + (prime - b)

/-- The opposite of a reduced number. -/
def neg (a : Nat) : Nat := (prime - a) % prime

/-- The power, by squaring. -/
def pow (a e : Nat) : Nat :=
  if e = 0 then 1
  else
    let square := pow (mul a a) (e / 2)
    if e % 2 = 1 then mul square a else square
  termination_by e

/-- The inverse of a nonzero number, and zero for zero. -/
def inv (a : Nat) : Nat := pow a (prime - 2)

/-- A square root of minus one. -/
def sqrtMinusOne : Nat := 0x2b8324804fc1df0b2b4d00993dfbd7a72f431806ad2fe478c4ee1b274a0ea0b0

/-- The even square root of `u / v`, for a nonzero `v`, if there is one. -/
def sqrtRatio? (u v : Nat) : Option Nat :=
  let v3 := mul (mul v v) v
  let r := mul (mul u v3) (pow (mul u (mul (mul v3 v3) v)) ((prime - 5) / 8))
  -- `v r²` is `u` up to a fourth root of unity if there is a root at all
  let check := mul v (mul r r)
  let even (x : Nat) : Nat := if x % 2 = 0 then x else prime - x
  if check = u then some (even r)
  else if check = neg u then some (even (mul r sqrtMinusOne))
  else none

end Field
end Ed25519
end Conclave
