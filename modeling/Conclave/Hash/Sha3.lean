import Conclave.Digest

/-!
# SHA3-256 of a pair of digests

The hash function of the Merkle trees: SHA3-256 of 64 bytes, the concatenation of two digests.
Such an input is shorter than the rate of 136 bytes, so that one application of the permutation
Keccak-f[1600] absorbs it and yields the result.

The state is 25 lanes of 64 bits, lane `axy` at column `x` and row `y`. A round is, in order,
θ (column parities), ρ and π (rotation and rearrangement of the lanes), χ (the nonlinear step
along a row) and ι (the round constant).
-/

namespace Conclave
namespace Sha3

/-- Rotation to the left. -/
@[inline] def rotate (w n : UInt64) : UInt64 :=
  (w <<< n) ||| (w >>> (64 - n))

/-- The constants of the 24 rounds. -/
def roundConstants : List UInt64 :=
  [0x0000000000000001, 0x0000000000008082, 0x800000000000808A, 0x8000000080008000,
   0x000000000000808B, 0x0000000080000001, 0x8000000080008081, 0x8000000000008009,
   0x000000000000008A, 0x0000000000000088, 0x0000000080008009, 0x000000008000000A,
   0x000000008000808B, 0x800000000000008B, 0x8000000000008089, 0x8000000000008003,
   0x8000000000008002, 0x8000000000000080, 0x000000000000800A, 0x800000008000000A,
   0x8000000080008081, 0x8000000000008080, 0x0000000080000001, 0x8000000080008008]

/-- The rounds with the given constants, followed by the first four lanes of the state. -/
def squeeze : List UInt64 → UInt64 → UInt64 → UInt64 → UInt64 → UInt64 → UInt64 → UInt64 → UInt64 →
  UInt64 → UInt64 → UInt64 → UInt64 → UInt64 → UInt64 → UInt64 → UInt64 → UInt64 → UInt64 → UInt64 →
  UInt64 → UInt64 → UInt64 → UInt64 → UInt64 → UInt64 → Digest
  | [], a00, a10, a20, a30, _, _, _, _, _, _, _, _, _, _, _, _, _, _, _, _, _, _, _, _, _ =>
    ⟨a00, a10, a20, a30⟩
  | c :: rest, a00, a10, a20, a30, a40, a01, a11, a21, a31, a41, a02, a12, a22, a32, a42, a03, a13,
    a23, a33, a43, a04, a14, a24, a34, a44 =>
    let p0 := a00 ^^^ a01 ^^^ a02 ^^^ a03 ^^^ a04
    let p1 := a10 ^^^ a11 ^^^ a12 ^^^ a13 ^^^ a14
    let p2 := a20 ^^^ a21 ^^^ a22 ^^^ a23 ^^^ a24
    let p3 := a30 ^^^ a31 ^^^ a32 ^^^ a33 ^^^ a34
    let p4 := a40 ^^^ a41 ^^^ a42 ^^^ a43 ^^^ a44
    let d0 := p4 ^^^ rotate p1 1
    let d1 := p0 ^^^ rotate p2 1
    let d2 := p1 ^^^ rotate p3 1
    let d3 := p2 ^^^ rotate p4 1
    let d4 := p3 ^^^ rotate p0 1
    let b00 := a00 ^^^ d0
    let b13 := rotate (a01 ^^^ d0) 36
    let b21 := rotate (a02 ^^^ d0) 3
    let b34 := rotate (a03 ^^^ d0) 41
    let b42 := rotate (a04 ^^^ d0) 18
    let b02 := rotate (a10 ^^^ d1) 1
    let b10 := rotate (a11 ^^^ d1) 44
    let b23 := rotate (a12 ^^^ d1) 10
    let b31 := rotate (a13 ^^^ d1) 45
    let b44 := rotate (a14 ^^^ d1) 2
    let b04 := rotate (a20 ^^^ d2) 62
    let b12 := rotate (a21 ^^^ d2) 6
    let b20 := rotate (a22 ^^^ d2) 43
    let b33 := rotate (a23 ^^^ d2) 15
    let b41 := rotate (a24 ^^^ d2) 61
    let b01 := rotate (a30 ^^^ d3) 28
    let b14 := rotate (a31 ^^^ d3) 55
    let b22 := rotate (a32 ^^^ d3) 25
    let b30 := rotate (a33 ^^^ d3) 21
    let b43 := rotate (a34 ^^^ d3) 56
    let b03 := rotate (a40 ^^^ d4) 27
    let b11 := rotate (a41 ^^^ d4) 20
    let b24 := rotate (a42 ^^^ d4) 39
    let b32 := rotate (a43 ^^^ d4) 8
    let b40 := rotate (a44 ^^^ d4) 14
    squeeze rest
      (b00 ^^^ (~~~b10 &&& b20) ^^^ c) (b10 ^^^ (~~~b20 &&& b30)) (b20 ^^^ (~~~b30 &&& b40))
      (b30 ^^^ (~~~b40 &&& b00)) (b40 ^^^ (~~~b00 &&& b10))
      (b01 ^^^ (~~~b11 &&& b21)) (b11 ^^^ (~~~b21 &&& b31)) (b21 ^^^ (~~~b31 &&& b41))
      (b31 ^^^ (~~~b41 &&& b01)) (b41 ^^^ (~~~b01 &&& b11))
      (b02 ^^^ (~~~b12 &&& b22)) (b12 ^^^ (~~~b22 &&& b32)) (b22 ^^^ (~~~b32 &&& b42))
      (b32 ^^^ (~~~b42 &&& b02)) (b42 ^^^ (~~~b02 &&& b12))
      (b03 ^^^ (~~~b13 &&& b23)) (b13 ^^^ (~~~b23 &&& b33)) (b23 ^^^ (~~~b33 &&& b43))
      (b33 ^^^ (~~~b43 &&& b03)) (b43 ^^^ (~~~b03 &&& b13))
      (b04 ^^^ (~~~b14 &&& b24)) (b14 ^^^ (~~~b24 &&& b34)) (b24 ^^^ (~~~b34 &&& b44))
      (b34 ^^^ (~~~b44 &&& b04)) (b44 ^^^ (~~~b04 &&& b14))

/-- SHA3-256 of the concatenation of two digests. The input fills eight lanes; the padding begins
with the byte `0x06` after it and ends with the bit at the end of the rate. -/
def hashPair (l r : Digest) : Digest :=
  squeeze roundConstants l.word0 l.word1 l.word2 l.word3 r.word0 r.word1 r.word2 r.word3
    0x06 0 0 0 0 0 0 0 0x8000000000000000 0 0 0 0 0 0 0 0

end Sha3
end Conclave
