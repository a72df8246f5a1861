import Conclave.Ed25519.Field
import Conclave.Bytes.LittleEndian

/-!
# Points of the curve

The twisted Edwards curve `-x² + y² = 1 + d x² y²`, in extended coordinates `(x : y : z : t)` with
`x y = z t`. A point is encoded in 32 bytes: the `y` coordinate in little-endian order, with the
parity of the `x` coordinate as the highest bit.

* `add`, `double`, `neg` are the group operations, and `add` is complete;
* `Point.mul` and `mulBase` are multiples of a point and of the base point;
* `encode` and `decode?` convert a point to its bytes and back.

Decoding takes the `y` coordinate modulo the prime, so that some points have encodings that
`encode` never yields, and takes a parity of one together with the `x` coordinate zero.
-/

namespace Conclave
namespace Ed25519

/-- The order of the base point. -/
def order : Nat := 0x1000000000000000000000000000000014def9dea2f79cd65812631a5cf5d3ed

/-- The coefficient `d` of the curve. -/
def coefficient : Nat := 0x52036cee2b6ffe738cc740797779e89800700a4d4141d8ab75eb4dca135978a3

/-- Twice the coefficient `d`, reduced. -/
def twiceCoefficient : Nat := 2 * coefficient % prime

/-- A point in extended coordinates. -/
structure Point where
  x : Nat
  y : Nat
  z : Nat
  t : Nat
  deriving DecidableEq, Inhabited

namespace Point

open Conclave.Ed25519.Field

/-- The neutral element. -/
def zero : Point := ⟨0, 1, 1, 0⟩

/-- The base point. -/
def base : Point :=
  ⟨0x216936d3cd6e53fec0a4e231fdd6dc5c692cc7609525a7b2c9562d608f25d51a,
    0x6666666666666666666666666666666666666666666666666666666666666658, 1,
    0x67875f0fd78b766566ea4e8e64abe37d20f09f80775152f56dde8ab3a5b7dda3⟩

/-- The sum of two points. -/
def add (p q : Point) : Point :=
  let a := Field.mul (sub p.y p.x) (sub q.y q.x)
  let b := Field.mul (p.y + p.x) (q.y + q.x)
  let c := Field.mul (Field.mul p.t twiceCoefficient) q.t
  let d := Field.mul (2 * p.z) q.z
  let e := sub b a
  let f := sub d c
  let g := d + c
  let h := b + a
  ⟨Field.mul e f, Field.mul g h, Field.mul f g, Field.mul e h⟩

/-- The sum of a point with itself. -/
def double (p : Point) : Point :=
  let a := Field.mul p.x p.x
  let b := Field.mul p.y p.y
  let c := 2 * Field.mul p.z p.z
  let s := p.x + p.y
  let h := a + b
  let e := h + (prime - Field.mul s s)
  let g := sub a b
  let f := c + g
  ⟨Field.mul e f, Field.mul g h, Field.mul f g, Field.mul e h⟩

/-- The opposite of a point. -/
def neg (p : Point) : Point :=
  ⟨Field.neg p.x, p.y, p.z, Field.neg p.t⟩

/-- Whether a point is the neutral element. -/
def isZero (p : Point) : Bool := p.x == 0 && p.y == p.z

/-- The multiples of a point by 0, …, 15. -/
def multiples (p : Point) : Array Point :=
  (List.range 15).foldl (fun table i => table.push ((table.getD i zero).add p)) #[zero]

/-- The `i`-th hexadecimal digit of a number, the least significant one being the zeroth. -/
@[inline] def digit (k i : Nat) : Nat := (k >>> (4 * i)) % 16

/-- The multiple of a point by a number below `2 ^ 256`, digit by digit from the highest one. -/
def mul (k : Nat) (p : Point) : Point :=
  let table := p.multiples
  (List.range 64).foldl
    (fun sum i => sum.double.double.double.double.add (table.getD (digit k (63 - i)) zero)) zero

/-- The multiples by 0, …, 15 of the base point, of 16 times the base point, and so on. -/
def baseMultiples : Array (Array Point) :=
  ((List.range 64).foldl
    (fun (rows, p) _ => (rows.push p.multiples, p.double.double.double.double))
    ((#[] : Array (Array Point)), base)).1

/-- The multiple of the base point by a number below `2 ^ 256`. -/
def mulBase (k : Nat) : Point :=
  (List.range 64).foldl
    (fun sum i => sum.add ((baseMultiples.getD i #[]).getD (digit k i) zero)) zero

/-- The number whose little-endian bytes are the 32 bytes from position `i` on. -/
def numberAt (b : ByteArray) (i : Nat) : Nat :=
  (LittleEndian.uint64At b i).toNat + UInt64.size * ((LittleEndian.uint64At b (i + 8)).toNat +
    UInt64.size * ((LittleEndian.uint64At b (i + 16)).toNat +
      UInt64.size * (LittleEndian.uint64At b (i + 24)).toNat))

/-- The 32 little-endian bytes of a number below `2 ^ 256`. -/
def numberBytes (n : Nat) : ByteArray :=
  LittleEndian.ofUInt64 (UInt64.ofNat n) ++ LittleEndian.ofUInt64 (UInt64.ofNat (n >>> 64)) ++
    LittleEndian.ofUInt64 (UInt64.ofNat (n >>> 128)) ++
    LittleEndian.ofUInt64 (UInt64.ofNat (n >>> 192))

@[simp] theorem size_numberBytes (n : Nat) : (numberBytes n).size = 32 := by
  simp [numberBytes]

/-- The encoding of a point. -/
def encode (p : Point) : ByteArray :=
  let i := inv p.z
  numberBytes (Field.mul p.y i + Nat.pow 2 255 * (Field.mul p.x i % 2))

@[simp] theorem size_encode (p : Point) : p.encode.size = 32 := by
  simp [encode]

/-- The point that the 32 bytes from position `i` on encode, if they encode one. -/
def decode? (b : ByteArray) (i : Nat) : Option Point :=
  let n := numberAt b i
  let parity := n / Nat.pow 2 255
  let y := n % Nat.pow 2 255 % prime
  let yy := Field.mul y y
  let u := (yy + (prime - 1)) % prime
  let v := (Field.mul coefficient yy + 1) % prime
  (sqrtRatio? u v).map fun root =>
    let x := if parity = 0 then root else Field.neg root
    ⟨x, y, 1, Field.mul x y⟩

end Point
end Ed25519
end Conclave
